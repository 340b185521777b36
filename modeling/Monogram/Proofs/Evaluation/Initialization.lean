import Monogram.Proofs.Evaluation.Composition
import Monogram.Proofs.Evaluation.Steady
import Monogram.Proofs.Session.Declarations

/-! # Initial values one after the other

The static initializers of a text run class by class.  Outside of a method `this` stands for nothing,
and the evaluation of an expression leaves it at that; so the classes make no difference, and the
initial values are evaluated in one row.

* `fillStatics` — initial values evaluated in order, each stored before the next one.
* `Eval.Selfless` — an evaluation that does not give `this` a meaning.
* `evalInitializers_eq` — the static initializers of classes are one row of initial values.
-/

namespace Monogram

/-- The initial value of a static field, with what it is evaluated under. -/
structure Initializer where
  names : Names
  owner : ClassId
  field : String
  value : Expr

/-- The initial values among fields of a class. -/
def initializersOf (names : Names) (id : ClassId) (fields : List VarDecl) : List Initializer :=
  fields.filterMap fun d =>
    if d.isStatic then d.initializer.map fun value => ⟨names, id, d.name, value⟩ else none

/-- The initial values of the static fields of a class, in order.  They know the globals that the
methods of the class declare. -/
def PlacedClass.initializers (c : PlacedClass) : List Initializer :=
  initializersOf (c.decl.declared c.known) c.id c.decl.fields

/-- Evaluates initial values in order, and stores each of them before the next one is evaluated. -/
def fillStatics (enter : Enter) : List Initializer → Eval Body Unit
  | [] => return ()
  | i :: rest => do
    let v ← i.value.eval enter i.names
    let _ ← .storeStatic (.classRef i.owner) i.field v
    fillStatics enter rest

theorem fillStatics_append (enter : Enter) (front back : List Initializer) :
    fillStatics enter (front ++ back) = (fillStatics enter front >>= fun _ => fillStatics enter back) := by
  induction front with
  | nil => rfl
  | cons i rest ih => simp only [List.cons_append, fillStatics, ih, Eval.bind_assoc]

theorem evalStatics_eq (enter : Enter) (names : Names) (id : ClassId) (fields : List VarDecl) :
    evalStatics enter names id fields = fillStatics enter (initializersOf names id fields) := by
  unfold initializersOf
  induction fields with
  | nil => rfl
  | cons d rest ih =>
    unfold evalStatics
    split
    · next value isStatic initial =>
      rw [List.filterMap_cons_some (by rw [if_pos isStatic, initial]; rfl), fillStatics, ih]
    · next other =>
      rw [List.filterMap_cons_none, ih]
      cases isStatic : d.isStatic with
      | false => rfl
      | true =>
        cases initial : d.initializer with
        | none => rfl
        | some value => exact absurd initial (other value isStatic)

/-! ## Outside of methods -/

namespace Eval

variable {β α γ : Type}

/-- Where `this` stands for nothing, the evaluation leaves it at that. -/
def Selfless (p : Eval β α) : Prop := ∀ scene, scene.this = none → (p scene).Holds none

theorem Steady.selfless {p : Eval β α} (steady : Steady p) : Selfless p :=
  fun scene none => none ▸ steady scene

namespace Selfless

theorem pure (a : α) : Selfless (pure a : Eval β α) := (Steady.pure a).selfless

theorem unfinished : Selfless (unfinished : Eval β α) := fun _ _ => trivial

theorem bind {p : Eval β α} {q : α → Eval β γ} (first : Selfless p) (second : ∀ a, Selfless (q a)) :
    Selfless (p >>= q) := by
  intro scene none
  have left := first scene none
  rw [bind_apply]
  cases ending : p scene with
  | done a after =>
    rw [ending] at left
    exact second a after left
  | unfinished => trivial
  | _ =>
    rw [ending] at left
    exact left

/-- A store into the name `this` goes to a global there. -/
theorem operate [Inhabited β] (i : Instruction) (args : List Value) (plain : i.isPlain)
    (count : args.length = i.pops) : Selfless (i.operate args : Eval β Value) := by
  -- No other instruction changes what `this` stands for.
  by_cases own : i = .storeName "this"
  · subst own
    obtain ⟨v, rfl⟩ := List.length_eq_one_iff.1 count
    intro scene none
    exact (this_of_writeName rfl).trans (congrArg _ none)
  · exact (Instruction.steady_operate plain own count).selfless

end Selfless

end Eval

open Eval

/-- Whatever is entered leaves `this` as it is for the caller. -/
def EnterSteady (enter : Enter) : Prop := ∀ body this, Steady (enter body this)

theorem Eval.steady_within {β α : Type} (this : Option Value) (p : Eval β α) : Steady (within this p) := by
  intro scene
  unfold within
  cases p { scene with this } <;> trivial

theorem Body.steady_enter : ∀ depth, EnterSteady (Body.enter depth)
  | 0, _, _ => fun _ => trivial
  | _ + 1, _, this => steady_within this _

variable {enter : Enter}

theorem steady_callMember (enters : EnterSteady enter) (name : String) (receiver : Value)
    (values : List Value) : Steady (callMember enter name receiver values) := by
  unfold callMember
  split
  · exact steady_print values
  · intro scene
    unfold invoke
    cases called : callee name receiver values scene with
    | body body this => exact enters body this scene
    | ending e => exact steady_callee called

theorem steady_newMap (entries : List (Value × Value)) : Steady (newMap entries : Eval Body Value) :=
  (Steady.lift _).bind fun _ => Steady.look.bind fun _ => Steady.bind (.alter fun _ => rfl) fun _ => .pure _

/-- Outside of methods the evaluation of an expression does not give `this` a meaning. -/
theorem selfless_composes (enters : EnterSteady enter) : Eval.Composes enter Selfless where
  value := .pure
  unfinished := .unfinished
  bind := .bind
  operate i args plain _ count := .operate i args plain count
  loadStatic id field := (steady_loadStatic (.classRef id) field).selfless
  storeStatic id field v := (steady_storeStatic (.classRef id) field v).selfless
  newMap entries := (steady_newMap entries).selfless
  callMember name receiver values := (steady_callMember enters name receiver values).selfless

theorem selfless_fillStatics (enters : EnterSteady enter) :
    ∀ row : List Initializer, Selfless (fillStatics enter row)
  | [] => .pure _
  | i :: rest =>
    ((selfless_composes enters).eval i.names i.value).bind fun v =>
      Selfless.bind (steady_storeStatic _ i.field v).selfless fun _ => selfless_fillStatics enters rest

/-! ## Classes -/

/-- Without a meaning of `this` around it, an evaluation is no other inside than outside. -/
theorem Eval.Selfless.within_eq {β α : Type} {p : Eval β α} (selfless : Selfless p) {scene : Scene β}
    (outside : scene.this = none) : within none p scene = p scene := by
  obtain ⟨world, this⟩ := scene
  obtain rfl : this = none := outside
  have left := selfless ⟨world, none⟩ rfl
  unfold within
  cases ending : p ⟨world, none⟩ with
  | unfinished => rfl
  | done a after | raised v after | faulted f after =>
    rw [ending] at left
    obtain ⟨world', this'⟩ := after
    obtain rfl : this' = none := left
    rfl

/-- The static initializers of classes, one after the other, are one row of initial values. -/
theorem evalInitializers_eq (enters : EnterSteady enter) (rounds : Nat) (classes : List PlacedClass)
    {scene : Scene Body} (outside : scene.this = none) :
    evalInitializers enter rounds (classes.map PlacedClass.tree) scene
      = fillStatics enter (classes.flatMap PlacedClass.initializers) scene := by
  induction classes generalizing scene with
  | nil => rfl
  | cons c rest ih =>
    have own : c.tree.staticInit.value enter rounds
        = (fillStatics enter c.initializers >>= fun _ => pure .nil : Eval Body Value) := by
      show (evalStatics enter _ _ _ >>= fun _ => _) = _
      rw [evalStatics_eq]
      rfl
    have selfless := (selfless_fillStatics enters c.initializers).bind fun _ => Selfless.pure Value.nil
    have left := selfless_fillStatics enters c.initializers scene outside
    -- The row of this class leaves `this` without a meaning, so the next one starts outside as well.
    rw [List.map_cons, evalInitializers, List.flatMap_cons, fillStatics_append, bind_apply, own,
      selfless.within_eq outside, bind_apply, bind_apply]
    cases ending : fillStatics enter c.initializers scene with
    | done _ after =>
      rw [ending] at left
      exact ih left
    | _ => rfl

end Monogram
