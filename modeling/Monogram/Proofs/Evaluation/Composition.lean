import Monogram.Proofs.Evaluation.Tame
import Monogram.Proofs.Evaluation.Tree

/-! # Properties of composed evaluations

The evaluation of an expression is put together from operations, one behind the other.  So a property
that such compositions keep holds of every expression if it holds of the operations and of calls.

* `Eval.Composes` — a property that compositions keep and that operations and calls have.
* `Eval.Composes.eval`, `Eval.Composes.evalAll` — expressions have it.
-/

namespace Monogram

/-- Compositions keep the property, and operations on operands, uses of static fields of classes and
calls have it. -/
structure Eval.Composes (enter : Enter) (P : {α : Type} → Eval Body α → Prop) : Prop where
  value : ∀ {α : Type} (a : α), P (pure a : Eval Body α)
  unfinished : ∀ {α : Type}, P (unfinished : Eval Body α)
  bind : ∀ {α γ : Type} {p : Eval Body α} {q : α → Eval Body γ}, P p → (∀ a, P (q a)) → P (p >>= q)
  operate : ∀ (i : Instruction) (args : List Value), i.isPlain → i.usesStatic = false →
    args.length = i.pops → P (i.operate args : Eval Body Value)
  loadStatic : ∀ id field, P (loadStatic (.classRef id) field : Eval Body Value)
  storeStatic : ∀ id field v, P (storeStatic (.classRef id) field v : Eval Body Value)
  newMap : ∀ entries, P (newMap entries : Eval Body Value)
  callMember : ∀ name receiver values, P (callMember enter name receiver values)

namespace Eval.Composes

variable {enter : Enter} {P : {α : Type} → Eval Body α → Prop} (h : Composes enter P) (names : Names)
include h

/-! ## Operations -/

theorem writeSlot (slot : Nat) (v : Value) : P (writeSlot slot v : Eval Body Value) :=
  h.operate (.storeSlot slot) [v] rfl rfl rfl

theorem read (name : String) : P (read names name : Eval Body Value) := by
  unfold Eval.read
  split
  · exact h.value _
  · split
    · exact h.operate (.loadSlot _) [] rfl rfl rfl
    · exact h.value _
    · exact h.operate (.loadName name) [] rfl rfl rfl

theorem write (name : String) (v : Value) : P (write names name v : Eval Body Value) := by
  unfold Eval.write
  split
  · exact h.writeSlot _ v
  · exact h.operate (.storeName name) [v] rfl rfl rfl

theorem binary (op : BinaryOp) (a b : Value) : P (binary op a b : Eval Body Value) := by
  cases op with
  | arithmetic op => exact h.operate (.arithmetic op) [a, b] rfl rfl rfl
  | comparison op => exact h.operate (.compare op) [a, b] rfl rfl rfl

theorem choose (op : LogicalOp) (a b : Value) : P (choose op a b : Eval Body Value) := by
  cases op with
  | and => exact h.operate .and [a, b] rfl rfl rfl
  | or => exact h.operate .or [a, b] rfl rfl rfl

/-! ## Expressions -/

mutual

theorem eval : ∀ e : Expr, P (e.eval enter names)
  | .number _ | .string _ => h.value _
  | .grouping inner => eval inner
  | .variable name => h.read names name
  | .assign name value => h.bind (eval value) fun v => h.write names name v
  | .binary op left right => h.bind (eval left) fun a => h.bind (eval right) fun b => h.binary op a b
  | .logical op left right => h.bind (eval left) fun a => h.bind (eval right) fun b => h.choose op a b
  | .unary .at _ => h.unfinished
  | .unary .negate operand => h.bind (eval operand) fun a => h.operate .negate [a] rfl rfl rfl
  | .unary .not operand => h.bind (eval operand) fun a => h.operate .not [a] rfl rfl rfl
  | .call callee args => by
    cases callee with
    | member object name =>
      exact h.bind (eval object) fun receiver => h.bind (evalAll args) fun values =>
        h.callMember name receiver values
    | «variable» name =>
      exact h.bind (h.operate (.loadName "this") [] rfl rfl rfl) fun receiver =>
        h.bind (evalAll args) fun values => h.callMember name receiver values
    | _ => exact h.unfinished
  | .member object name => by
    unfold Expr.eval
    split
    · exact h.loadStatic _ name
    · exact h.bind (eval object) fun o => h.operate (.loadField name) [o] rfl rfl rfl
  | .setMember object name value => by
    unfold Expr.eval
    split
    · exact h.bind (eval value) fun v => h.storeStatic _ name v
    · exact h.bind (eval object) fun o => h.bind (eval value) fun v =>
        h.operate (.storeField name) [o, v] rfl rfl rfl
  | .construct className args =>
    h.bind (evalAll args) fun values => h.operate (.construct className values.length) values rfl rfl rfl
  | .list items =>
    h.bind (evalAll items) fun values => h.operate (.buildList values.length) values rfl rfl rfl
  | .map entries => h.bind (evalEntries entries) h.newMap
  | .index object index =>
    h.bind (eval object) fun container => h.bind (eval index) fun i =>
      h.operate .loadIndex [container, i] rfl rfl rfl
  | .setIndex object index value =>
    h.bind (eval object) fun container => h.bind (eval index) fun i => h.bind (eval value) fun v =>
      h.operate .storeIndex [container, i, v] rfl rfl rfl

theorem evalAll : ∀ es : List Expr, P (evalAll enter names es)
  | [] => h.value _
  | e :: rest => h.bind (eval e) fun _ => h.bind (evalAll rest) fun _ => h.value _

theorem evalEntries : ∀ entries : List (Expr × Expr), P (evalEntries enter names entries)
  | [] => h.value _
  | (key, value) :: rest =>
    h.bind (eval key) fun _ => h.bind (eval value) fun _ => h.bind (evalEntries rest) fun _ => h.value _

end

theorem evalOptional (value : Option Expr) : P (evalOptional enter names value) := by
  cases value with
  | some e => exact h.eval names e
  | none => exact h.value _

end Eval.Composes

end Monogram
