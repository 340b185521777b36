import Monogram.Proofs.Evaluation.Composition

/-! # Static fields are used of classes

The trees of a program name the class whose static field they use, so its evaluation never takes
another value for a class.

* `Eval.Spares` — an evaluation that does not end in that fault.
* `Expr.spares_eval`, `Stmt.spares_exec` — the evaluation of trees.
* `Names.spares_evaluate` — the evaluation of programs.
-/

namespace Monogram

open Fault (OfValues)

/-- The fault is not that something else is used as a class. -/
def Fault.Proper (f : Fault) : Prop := ∀ field found, f ≠ .notAClass field found

theorem Fault.OfValues.proper {f : Fault} (values : f.OfValues) : f.Proper := by
  rintro field found rfl
  exact values

theorem Fault.proper_of_eq {f : Fault} {id : ClassId} (unknown : f = .unknownClassId id) :
    f.Proper := by
  subst unknown
  exact fun _ _ => nofun

/-- If the evaluation has ended in a fault, this is not that something else is used as a class. -/
def Ending.Spares {β α : Type} : Ending β α → Prop
  | .faulted f _ => f.Proper
  | .done _ _ | .raised _ _ | .unfinished => True

namespace Eval

variable {β α γ : Type}

/-- The evaluation does not end in the fault that something else is used as a class. -/
def Spares (p : Eval β α) : Prop := ∀ scene, (p scene).Spares

theorem Ends.spares {good : Fault → Prop} {p : Eval β α} (ends : Ends good p)
    (proper : ∀ f, good f → f.Proper) : Spares p := by
  intro scene
  have ending := ends scene
  cases h : p scene with
  | faulted f after =>
    rw [h] at ending
    exact proper f ending
  | _ => trivial

namespace Spares

theorem pure (a : α) : Spares (pure a : Eval β α) := fun _ => trivial

theorem unfinished : Spares (unfinished : Eval β α) := fun _ => trivial

theorem look : Spares (look : Eval β (Scene β)) := fun _ => trivial

theorem bind {p : Eval β α} {q : α → Eval β γ} (first : Spares p) (second : ∀ a, Spares (q a)) :
    Spares (p >>= q) := by
  intro scene
  have ending := first scene
  rw [bind_apply]
  cases h : p scene with
  | done a after => exact second a after
  | faulted f after =>
    rw [h] at ending
    exact ending
  | _ => trivial

theorem rescue {p : Eval β α} {handler : Value → Eval β α} (first : Spares p)
    (second : ∀ v, Spares (handler v)) : Spares (rescue p handler) := by
  intro scene
  have ending := first scene
  unfold Eval.rescue
  cases h : p scene with
  | raised v after => exact second v after
  | faulted f after =>
    rw [h] at ending
    exact ending
  | _ => trivial

theorem within {this : Option Value} {p : Eval β α} (inner : Spares p) : Spares (within this p) := by
  intro scene
  have ending := inner { scene with this }
  unfold Eval.within
  cases h : p { scene with this } with
  | faulted f after =>
    rw [h] at ending
    exact ending
  | _ => trivial

theorem repeatUntil {once : Eval β (Option Completion)} (round : Spares once) (rounds : Nat) :
    Spares (repeatUntil once rounds) := by
  induction rounds with
  | zero => exact unfinished
  | succ rounds ih =>
    refine round.bind fun completion => ?_
    cases completion with
    | some completion => exact pure completion
    | none => exact ih

/-- What a plain instruction does, unless it uses a static field. -/
theorem operate [Inhabited β] (i : Instruction) (args : List Value) (plain : i.isPlain)
    (other : i.usesStatic = false) (count : args.length = i.pops) :
    Spares (i.operate args : Eval β Value) :=
  (Instruction.ends_operate plain other count).spares fun _ => OfValues.proper

end Spares

theorem spares_truthy (a : Value) : Spares (truthy a : Eval β Bool) :=
  (ends_truthy a : (truthy a : Eval β Bool).Ends OfValues).spares fun _ => OfValues.proper

theorem spares_loadStatic (id : ClassId) (field : String) :
    Spares (loadStatic (.classRef id) field : Eval β Value) :=
  (ends_loadStatic id field).spares fun _ => Fault.proper_of_eq

theorem spares_storeStatic (id : ClassId) (field : String) (v : Value) :
    Spares (storeStatic (.classRef id) field v : Eval β Value) :=
  (ends_storeStatic id field v).spares fun _ => Fault.proper_of_eq

/-- A call does not either, if no body does that it enters. -/
theorem spares_invoke [Inhabited β] {enter : β → Option Value → Eval β Value}
    (enters : ∀ body this, Spares (enter body this)) (method : String) (receiver : Value)
    (arguments : List Value) : Spares (invoke enter method receiver arguments) := by
  intro scene
  unfold invoke
  cases called : callee method receiver arguments scene with
  | body body this => exact enters body this scene
  | ending e =>
    by_cases raising : Raising method receiver
    · rw [callee_of_raising raising] at called
      cases called
      trivial
    · have ends := ends_callee raising called
      cases e with
      | faulted f after =>
        rcases ends with ⟨id, unknown⟩ | values
        · exact Fault.proper_of_eq unknown
        · exact values.proper
      | _ => trivial

end Eval

open Eval

/-! ## Trees -/

/-- No body that is entered ends in the fault that something else is used as a class. -/
def EnterSpares (enter : Enter) : Prop := ∀ body this, Spares (enter body this)

variable {enter : Enter}

theorem spares_callMember (enters : EnterSpares enter) (name : String) (receiver : Value)
    (values : List Value) : Spares (callMember enter name receiver values) := by
  unfold callMember
  split
  · exact (ends_print values).spares fun _ => OfValues.proper
  · exact spares_invoke enters name receiver values

theorem spares_composes (enters : EnterSpares enter) : Eval.Composes enter Spares where
  value := .pure
  unfinished := .unfinished
  bind := .bind
  operate := .operate
  loadStatic := spares_loadStatic
  storeStatic := spares_storeStatic
  newMap pairs := (ends_newMap pairs).spares fun _ => OfValues.proper
  callMember := spares_callMember enters

theorem Expr.spares_eval (enters : EnterSpares enter) (names : Names) (e : Expr) :
    Spares (e.eval enter names) :=
  (spares_composes enters).eval names e

theorem spares_evalOptional (enters : EnterSpares enter) (names : Names) (value : Option Expr) :
    Spares (evalOptional enter names value) :=
  (spares_composes enters).evalOptional names value

/-! ## Statements -/

mutual

theorem Stmt.spares_exec (enters : EnterSpares enter) (rounds : Nat) :
    ∀ (s : Stmt) (names : Names), Spares (s.exec enter rounds names)
  | .expression e, names => (e.spares_eval enters names).bind fun _ => .pure _
  | .declare decl, names =>
    (spares_evalOptional enters names decl.initializer).bind fun v =>
      ((spares_composes enters).writeSlot _ v).bind fun _ => .pure _
  | .block body, names => spares_execBlock enters rounds body names
  | .ifThen condition yes, names =>
    (condition.spares_eval enters names).bind fun v => (spares_truthy v).bind fun holds => by
      cases holds with
      | true => exact yes.spares_exec enters rounds names
      | false => exact .pure _
  | .ifElse condition yes no, names =>
    (condition.spares_eval enters names).bind fun v => (spares_truthy v).bind fun holds => by
      cases holds with
      | true => exact yes.spares_exec enters rounds names
      | false => exact no.spares_exec enters rounds _
  | .loop condition body, names => by
    refine .repeatUntil ((condition.spares_eval enters names).bind fun v =>
      (spares_truthy v).bind fun holds => ?_) rounds
    cases holds with
    | true =>
      refine (body.spares_exec enters rounds names).bind fun completion => ?_
      cases completion <;> exact .pure _
    | false => exact .pure _
  | .tryHandle body _ binding handler, names =>
    .rescue (spares_execBlock enters rounds body names) fun v =>
      ((spares_composes enters).writeSlot _ v).bind fun _ => spares_execBlock enters rounds handler _
  | .giveBack value, names => (spares_evalOptional enters names value).bind fun _ => .pure _
  | .method _, _ | .classDecl _, _ => .pure _

theorem spares_execBlock (enters : EnterSpares enter) (rounds : Nat) :
    ∀ (body : List Stmt) (names : Names), Spares (execBlock enter rounds body names)
  | [], _ => .pure _
  | s :: rest, names => (s.spares_exec enters rounds names).bind fun completion => by
    cases completion with
    | normal => exact spares_execBlock enters rounds rest _
    | returned v => exact .pure _

end

theorem spares_evalStatics (enters : EnterSpares enter) (names : Names) (id : ClassId) :
    ∀ fields : List VarDecl,
    Spares (evalStatics enter names id fields)
  | [] => .pure _
  | d :: rest => by
    unfold evalStatics
    split
    · exact (Expr.spares_eval enters names _).bind fun v =>
        (spares_storeStatic id d.name v).bind fun _ => spares_evalStatics enters names id rest
    · exact spares_evalStatics enters names id rest

theorem Body.spares_value (enters : EnterSpares enter) (rounds : Nat) (b : Body) :
    Spares (b.value enter rounds) := by
  cases b with
  | method names statements =>
    refine (spares_execBlock enters rounds statements names).bind fun completion => ?_
    cases completion <;> exact .pure _
  | statics names id fields => exact (spares_evalStatics enters names id fields).bind fun _ => .pure _

theorem spares_execTop (enters : EnterSpares enter) (rounds : Nat) :
    ∀ (statements : List Stmt) (names : Names),
    Spares (execTop enter rounds statements names)
  | [], _ => .pure _
  | s :: rest, names => by
    cases s with
    | classDecl d => exact spares_execTop enters rounds rest _
    | _ =>
      refine (Stmt.spares_exec enters rounds _ names).bind fun completion => ?_
      cases completion with
      | normal => exact spares_execTop enters rounds rest _
      | returned v => exact .pure _

theorem spares_evalInitializers (enters : EnterSpares enter) (rounds : Nat) :
    ∀ images : List (ClassImage Body),
    Spares (evalInitializers enter rounds images)
  | [] => .pure _
  | image :: rest =>
    (image.staticInit.spares_value enters rounds).within.bind fun _ =>
      spares_evalInitializers enters rounds rest

/-! ## Programs -/

theorem Body.spares_enter : ∀ (depth : Nat) (body : Body) (this : Option Value),
    Spares (Body.enter depth body this)
  | 0, _, _ => .unfinished
  | depth + 1, body, _ => (body.spares_value (Body.spares_enter depth) (depth + 1)).within

/-- The evaluation of a program uses static fields of classes only. -/
theorem Names.spares_evaluate (names : Names) (statements : List Stmt) (bound : Nat) :
    Spares (names.evaluate statements bound) := by
  have loads : ∀ change : Scene Body → Scene Body, Spares (alter change) := fun _ _ => trivial
  refine (loads _).bind fun _ => ?_
  refine (spares_evalInitializers (Body.spares_enter bound) (bound + 1) _).bind fun _ => ?_
  exact (spares_execTop (Body.spares_enter bound) (bound + 1) statements _).within.bind fun _ => .pure _

end Monogram
