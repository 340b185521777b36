import Monogram.Machine.Run
import Monogram.Proofs.Evaluation.Bodies
import Monogram.Proofs.Evaluation.Mapping

/-! # Instructions as operations on scenes

Most instructions take operands and leave one in their place, and change nothing else than the scene.
These are the plain ones; what they do does not depend on the code, the frames below or the operands
below.

* `Instruction.pops` — how many operands an instruction takes.
* `Instruction.operate` — what a plain instruction does with them.
-/

namespace Monogram

namespace Instruction

/-- The number of operands that an instruction takes. -/
def pops : Instruction → Nat
  | .halt | .push _ | .loadSlot _ | .loadName _ | .jump _ | .openHandler _ | .closeHandler => 0
  | .pop | .storeSlot _ | .storeName _ | .loadField _ | .loadStatic _ | .not | .negate => 1
  | .jumpIfFalse _ | .giveBack | .raise => 1
  | .storeField _ | .storeStatic _ | .loadIndex | .arithmetic _ | .compare _ | .and | .or => 2
  | .storeIndex => 3
  | .call _ argc | .print argc => argc + 1
  | .construct _ argc => argc
  | .buildList count => count
  | .buildMap count => 2 * count

/-- Whether an instruction leaves one operand for those it takes, and goes on behind itself. -/
def isPlain : Instruction → Bool
  | .halt | .pop | .jump _ | .jumpIfFalse _ | .call _ _ | .giveBack | .openHandler _
  | .closeHandler | .raise => false
  | _ => true

end Instruction

/-! ## Operations on a given number of operands -/

namespace Eval

variable {β γ : Type}

/-- An operation on no operands. -/
def onNone (p : Eval β Value) : List Value → Eval β Value
  | [] => p
  | _ => unfinished

/-- An operation on one operand. -/
def onOne (p : Value → Eval β Value) : List Value → Eval β Value
  | [a] => p a
  | _ => unfinished

/-- An operation on two operands. -/
def onTwo (p : Value → Value → Eval β Value) : List Value → Eval β Value
  | [a, b] => p a b
  | _ => unfinished

/-- An operation on three operands. -/
def onThree (p : Value → Value → Value → Eval β Value) : List Value → Eval β Value
  | [a, b, c] => p a b c
  | _ => unfinished

/-- An operation on all operands but the first. -/
def onTail (p : List Value → Eval β Value) : List Value → Eval β Value
  | _ :: values => p values
  | [] => unfinished

section Commutes

variable {f : β → γ} (args : List Value)

theorem Commutes.onNone {p : Eval β Value} {q : Eval γ Value} (h : Commutes f p q) :
    Commutes f (onNone p args) (onNone q args) := by
  unfold Eval.onNone; split
  · exact h
  · exact fun _ => rfl

theorem Commutes.onOne {p : Value → Eval β Value} {q : Value → Eval γ Value}
    (h : ∀ a, Commutes f (p a) (q a)) : Commutes f (onOne p args) (onOne q args) := by
  unfold Eval.onOne; split
  · exact h _
  · exact fun _ => rfl

theorem Commutes.onTwo {p : Value → Value → Eval β Value} {q : Value → Value → Eval γ Value}
    (h : ∀ a b, Commutes f (p a b) (q a b)) : Commutes f (onTwo p args) (onTwo q args) := by
  unfold Eval.onTwo; split
  · exact h _ _
  · exact fun _ => rfl

theorem Commutes.onThree {p : Value → Value → Value → Eval β Value}
    {q : Value → Value → Value → Eval γ Value} (h : ∀ a b c, Commutes f (p a b c) (q a b c)) :
    Commutes f (onThree p args) (onThree q args) := by
  unfold Eval.onThree; split
  · exact h _ _ _
  · exact fun _ => rfl

theorem Commutes.onTail {p : List Value → Eval β Value} {q : List Value → Eval γ Value}
    (h : ∀ values, Commutes f (p values) (q values)) : Commutes f (onTail p args) (onTail q args) := by
  unfold Eval.onTail; split
  · exact h _
  · exact fun _ => rfl

end Commutes

section Keeps

variable {Q : ClassImage β → Prop} (args : List Value)

theorem Keeps.onNone {p : Eval β Value} (h : Keeps Q p) : Keeps Q (onNone p args) := by
  unfold Eval.onNone; split
  · exact h
  · exact fun _ _ => trivial

theorem Keeps.onOne {p : Value → Eval β Value} (h : ∀ a, Keeps Q (p a)) :
    Keeps Q (onOne p args) := by
  unfold Eval.onOne; split
  · exact h _
  · exact fun _ _ => trivial

theorem Keeps.onTwo {p : Value → Value → Eval β Value} (h : ∀ a b, Keeps Q (p a b)) :
    Keeps Q (onTwo p args) := by
  unfold Eval.onTwo; split
  · exact h _ _
  · exact fun _ _ => trivial

theorem Keeps.onThree {p : Value → Value → Value → Eval β Value}
    (h : ∀ a b c, Keeps Q (p a b c)) : Keeps Q (onThree p args) := by
  unfold Eval.onThree; split
  · exact h _ _ _
  · exact fun _ _ => trivial

theorem Keeps.onTail {p : List Value → Eval β Value} (h : ∀ values, Keeps Q (p values)) :
    Keeps Q (onTail p args) := by
  unfold Eval.onTail; split
  · exact h _
  · exact fun _ _ => trivial

end Keeps

end Eval

namespace Instruction

variable {β : Type} [Inhabited β]

/-- What a plain instruction does with its operands, given in the order in which they were pushed. -/
def operate : Instruction → List Value → Eval β Value
  | .push c => .onNone (pure (.ofConstant c))
  | .loadSlot slot => .onNone (.readSlot slot)
  | .storeSlot slot => .onOne (.writeSlot slot)
  | .loadName name => .onNone (.readName name)
  | .storeName name => .onOne (.writeName name)
  | .loadField field => .onOne fun o => .loadField o field
  | .storeField field => .onTwo fun o v => .storeField o field v
  | .loadStatic field => .onOne fun c => .loadStatic c field
  | .storeStatic field => .onTwo fun c v => .storeStatic c field v
  | .loadIndex => .onTwo .loadIndex
  | .storeIndex => .onThree .storeIndex
  | .arithmetic op => .onTwo (.arithmetic op)
  | .compare op => .onTwo (.compare op)
  | .and => .onTwo (.choose .and)
  | .or => .onTwo (.choose .or)
  | .not => .onOne .negation
  | .negate => .onOne .opposite
  | .construct className _ => fun _ => .construct className
  | .print _ => .onTail .print
  | .buildList _ => .newList
  | .buildMap _ => fun items => .newMap (Action.step.pairs items)
  | .halt | .pop | .jump _ | .jumpIfFalse _ | .call _ _ | .giveBack | .openHandler _
  | .closeHandler | .raise => fun _ => .unfinished

open Eval in
theorem commutes_operate {γ : Type} [Inhabited γ] {f : β → γ} (kept : f default = default)
    (i : Instruction) (args : List Value) : Commutes f (i.operate args) (i.operate args) := by
  cases i with
  | push c => exact Commutes.onNone args fun _ => rfl
  | loadSlot slot => exact Commutes.onNone args fun _ => rfl
  | storeSlot slot => exact Commutes.onOne args fun _ _ => rfl
  | loadName name => exact Commutes.onNone args fun _ => rfl
  | storeName name => exact Commutes.onOne args (commutes_writeName name)
  | loadField field => exact Commutes.onOne args fun o => commutes_loadField kept o field
  | storeField field => exact Commutes.onTwo args fun o => commutes_storeField kept o field
  | loadStatic field => exact Commutes.onOne args fun c => commutes_loadStatic c field
  | storeStatic field => exact Commutes.onTwo args fun c => commutes_storeStatic c field
  | loadIndex => exact Commutes.onTwo args (commutes_loadIndex kept)
  | storeIndex => exact Commutes.onThree args commutes_storeIndex
  | arithmetic op => exact Commutes.onTwo args (commutes_arithmetic op)
  | compare op => exact Commutes.onTwo args (commutes_compare op)
  | and => exact Commutes.onTwo args (commutes_choose .and)
  | or => exact Commutes.onTwo args (commutes_choose .or)
  | not => exact Commutes.onOne args commutes_negation
  | negate => exact Commutes.onOne args fun _ => Commutes.lift _
  | construct className argc => exact commutes_construct className
  | print argc => exact Commutes.onTail args (commutes_print kept)
  | buildMap count => exact commutes_newMap _
  | _ => exact fun _ => rfl

open Eval in
theorem keeps_operate {Q : ClassImage β → Prop} (i : Instruction) (args : List Value) :
    Keeps Q (i.operate args) := by
  cases i with
  | push c => exact Keeps.onNone args (Keeps.pure _)
  | loadSlot slot => exact Keeps.onNone args (Keeps.look.bind fun _ => Keeps.pure _)
  | storeSlot slot => exact Keeps.onOne args (keeps_writeSlot slot)
  | loadName name => exact Keeps.onNone args (Keeps.look.bind fun _ => Keeps.pure _)
  | storeName name => exact Keeps.onOne args (keeps_writeName name)
  | loadField field => exact Keeps.onOne args fun o => keeps_loadField o field
  | storeField field => exact Keeps.onTwo args fun o => keeps_storeField o field
  | loadStatic field => exact Keeps.onOne args fun c => keeps_loadStatic c field
  | storeStatic field => exact Keeps.onTwo args fun c => keeps_storeStatic c field
  | loadIndex => exact Keeps.onTwo args fun _ _ => Keeps.look.bind fun _ => Keeps.lift _
  | storeIndex => exact Keeps.onThree args keeps_storeIndex
  | arithmetic op => exact Keeps.onTwo args (keeps_arithmetic op)
  | compare op => exact Keeps.onTwo args (keeps_compare op)
  | and => exact Keeps.onTwo args (keeps_choose .and)
  | or => exact Keeps.onTwo args (keeps_choose .or)
  | not => exact Keeps.onOne args fun a => (keeps_truthy a).bind fun _ => Keeps.pure _
  | negate => exact Keeps.onOne args fun _ => Keeps.lift _
  | construct className argc => exact keeps_construct className
  | print argc => exact Keeps.onTail args keeps_print
  | buildList count => exact fun _ all => ⟨all.classes, all.objects⟩
  | buildMap count => exact keeps_newMap _
  | _ => exact fun _ _ => trivial

end Instruction

end Monogram
