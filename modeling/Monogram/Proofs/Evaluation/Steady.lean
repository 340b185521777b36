import Mathlib.Data.List.Basic
import Monogram.Proofs.Evaluation.Operation

/-! # Operations leave `this` alone

What `this` stands for changes where a body stores into that name, and nowhere else.

* `Eval.Steady` — an evaluation that leaves `this` alone, whichever way it ends.
* `Instruction.steady_operate` — so do the plain instructions but one.
-/

namespace Monogram

variable {β α γ : Type}

/-- The scene that an evaluation ends in has this meaning of `this`. -/
def Ending.Holds (this : Option Value) : Ending β α → Prop
  | .done _ scene | .raised _ scene | .faulted _ scene => scene.this = this
  | .unfinished => True

namespace Eval

/-- The evaluation leaves `this` alone. -/
def Steady (p : Eval β α) : Prop := ∀ scene, (p scene).Holds scene.this

theorem Steady.pure (a : α) : Steady (pure a : Eval β α) := fun _ => rfl

theorem Steady.look : Steady (look : Eval β (Scene β)) := fun _ => rfl

theorem Steady.alter {change : Scene β → Scene β} (kept : ∀ scene, (change scene).this = scene.this) :
    Steady (alter change) := kept

theorem Steady.fault (f : Fault) : Steady (fault f : Eval β α) := fun _ => rfl

theorem Steady.raise (v : Value) : Steady (raise v : Eval β α) := fun _ => rfl

theorem Steady.lift (result : Except Fault α) : Steady (lift result : Eval β α) := by
  cases result with
  | ok a => exact Steady.pure a
  | error f => exact Steady.fault f

theorem Steady.bind {p : Eval β α} {q : α → Eval β γ} (first : Steady p)
    (second : ∀ a, Steady (q a)) : Steady (p >>= q) := by
  intro scene
  have same := first scene
  rw [bind_apply]
  cases ending : p scene with
  | done a after =>
    rw [ending] at same
    have kept : after.this = scene.this := same
    exact kept ▸ second a after
  | raised v after => rw [ending] at same; exact same
  | faulted f after => rw [ending] at same; exact same
  | unfinished => trivial

theorem steady_truthy (a : Value) : Steady (truthy a : Eval β Bool) :=
  Steady.look.bind fun _ => .pure _

theorem steady_writeName {name : String} (other : name ≠ "this") (v : Value) :
    Steady (writeName name v : Eval β Value) := by
  refine Steady.bind (.alter fun scene => ?_) fun _ => .pure _
  simp only [other, false_and, if_false]

/-- Stored into the name `this`, a value takes the place of what it stood for. -/
theorem this_of_writeName {v v' : Value} {scene after : Scene β}
    (done : writeName "this" v scene = .done v' after) : after.this = scene.this.map fun _ => v := by
  change Ending.done v (if "this" = "this" ∧ scene.this.isSome then { scene with this := some v }
    else { scene with globals := scene.globals.insert "this" v }) = .done v' after at done
  cases done
  cases meaning : scene.this with
  | none => simp only [Option.isSome_none, Bool.false_eq_true, and_false, if_false, Option.map_none]
  | some w => simp only [Option.isSome_some, and_self, if_true, Option.map_some]

theorem steady_arithmetic (op : Arithmetic) (a b : Value) :
    Steady (arithmetic op a b : Eval β Value) := by
  refine Steady.look.bind fun _ => (Steady.lift _).bind fun result => ?_
  cases result with
  | value v => exact .pure v
  | newList items => exact Steady.look.bind fun _ => Steady.bind (.alter fun _ => rfl) fun _ => .pure _

theorem steady_choose (op : LogicalOp) (a b : Value) : Steady (choose op a b : Eval β Value) :=
  (steady_truthy a).bind fun _ => by cases op <;> exact .pure _

theorem steady_loadStatic (c : Value) (field : String) :
    Steady (loadStatic c field : Eval β Value) := by
  cases c with
  | classRef id => exact Steady.look.bind fun _ => .lift _
  | _ => exact Steady.fault _

theorem steady_storeStatic (c : Value) (field : String) (v : Value) :
    Steady (storeStatic c field v : Eval β Value) := by
  cases c with
  | classRef id =>
    exact Steady.look.bind fun _ => (Steady.lift _).bind fun _ =>
      Steady.bind (.alter fun _ => rfl) fun _ => .pure _
  | _ => exact Steady.fault _

theorem steady_construct (className : String) : Steady (construct className : Eval β Value) := by
  refine Steady.look.bind fun scene => ?_
  cases scene.classes.byName? className with
  | some image => exact Steady.look.bind fun _ => Steady.bind (.alter fun _ => rfl) fun _ => .pure _
  | none => exact Steady.fault _

theorem steady_consult (ask : Console → α × Console) : Steady (consult ask : Eval β α) := fun _ => rfl

variable [Inhabited β]

theorem steady_loadField (o : Value) (field : String) :
    Steady (loadField o field : Eval β Value) := by
  cases o with
  | object address => exact Steady.look.bind fun _ => (Steady.lift _).bind fun _ => .pure _
  | _ => exact Steady.fault _

theorem steady_storeField (o : Value) (field : String) (v : Value) :
    Steady (storeField o field v : Eval β Value) := by
  cases o with
  | object address =>
    exact Steady.look.bind fun _ => (Steady.lift _).bind fun _ =>
      Steady.bind (.alter fun _ => rfl) fun _ => .pure _
  | _ => exact Steady.fault _

theorem steady_print (values : List Value) : Steady (print values : Eval β Value) :=
  Steady.look.bind fun _ => (steady_consult _).bind fun _ => (Steady.lift _).bind fun _ => .pure _

theorem steady_system (name : String) (arguments : List Value) :
    Steady (system name arguments : Eval β Value) := by
  unfold system
  split
  · exact steady_print arguments
  · exact (steady_consult _).bind fun _ => .lift _
  · exact Steady.raise _
  · cases arguments with
    | nil => exact Steady.fault _
    | cons first others =>
      exact Steady.look.bind fun _ => (steady_consult _).bind fun _ => .lift _
  · exact Steady.fault _

/-- A call that leads to no body leaves `this` alone. -/
theorem steady_callee {method : String} {receiver : Value} {arguments : List Value}
    {scene : Scene β} {e : Ending β Value}
    (ended : callee method receiver arguments scene = .ending e) : e.Holds scene.this := by
  cases receiver with
  | object address =>
    simp only [callee] at ended
    split at ended <;> cases ended
    rfl
  | classRef id =>
    simp only [callee] at ended
    split at ended <;> cases ended
    rfl
  | system =>
    cases ended
    exact steady_system method arguments scene
  | _ =>
    cases ended
    rfl

end Eval

/-- A plain instruction leaves `this` alone, unless it stores into that name. -/
theorem Instruction.steady_operate [Inhabited β] {i : Instruction} {args : List Value}
    (plain : i.isPlain) (other : i ≠ .storeName "this") (count : args.length = i.pops) :
    Eval.Steady (i.operate args : Eval β Value) := by
  open Eval in
  cases i with
  | push c =>
    obtain rfl := List.length_eq_zero_iff.1 count
    exact Steady.pure _
  | loadSlot slot | loadName name =>
    obtain rfl := List.length_eq_zero_iff.1 count
    exact Steady.look.bind fun _ => .pure _
  | storeSlot slot =>
    obtain ⟨v, rfl⟩ := List.length_eq_one_iff.1 count
    exact Steady.bind (.alter fun _ => rfl) fun _ => .pure _
  | storeName name =>
    obtain ⟨v, rfl⟩ := List.length_eq_one_iff.1 count
    exact steady_writeName (fun same => other (same ▸ rfl)) v
  | loadField field =>
    obtain ⟨o, rfl⟩ := List.length_eq_one_iff.1 count
    exact steady_loadField o field
  | storeField field =>
    obtain ⟨o, v, rfl⟩ := List.length_eq_two.1 count
    exact steady_storeField o field v
  | loadStatic field =>
    obtain ⟨c, rfl⟩ := List.length_eq_one_iff.1 count
    exact steady_loadStatic c field
  | storeStatic field =>
    obtain ⟨c, v, rfl⟩ := List.length_eq_two.1 count
    exact steady_storeStatic c field v
  | loadIndex =>
    obtain ⟨container, index, rfl⟩ := List.length_eq_two.1 count
    exact Steady.look.bind fun _ => .lift _
  | storeIndex =>
    obtain ⟨container, index, v, rfl⟩ := List.length_eq_three.1 count
    exact Steady.look.bind fun _ => (Steady.lift _).bind fun _ =>
      Steady.bind (.alter fun _ => rfl) fun _ => .pure _
  | arithmetic op =>
    obtain ⟨a, b, rfl⟩ := List.length_eq_two.1 count
    exact steady_arithmetic op a b
  | compare op =>
    obtain ⟨a, b, rfl⟩ := List.length_eq_two.1 count
    exact Steady.look.bind fun _ => (Steady.lift _).bind fun _ => .pure _
  | and =>
    obtain ⟨a, b, rfl⟩ := List.length_eq_two.1 count
    exact steady_choose .and a b
  | or =>
    obtain ⟨a, b, rfl⟩ := List.length_eq_two.1 count
    exact steady_choose .or a b
  | not =>
    obtain ⟨a, rfl⟩ := List.length_eq_one_iff.1 count
    exact (steady_truthy a).bind fun _ => .pure _
  | negate =>
    obtain ⟨a, rfl⟩ := List.length_eq_one_iff.1 count
    exact Steady.lift _
  | construct className argc => exact steady_construct className
  | print argc =>
    cases args with
    | nil => cases count
    | cons receiver values => exact steady_print values
  | buildList n =>
    exact Steady.look.bind fun _ => Steady.bind (.alter fun _ => rfl) fun _ => .pure _
  | buildMap n =>
    exact (Steady.lift _).bind fun _ =>
      Steady.look.bind fun _ => Steady.bind (.alter fun _ => rfl) fun _ => .pure _
  | halt | pop | jump _ | jumpIfFalse _ | call _ _ | giveBack | openHandler _ | closeHandler
  | raise => cases plain

end Monogram
