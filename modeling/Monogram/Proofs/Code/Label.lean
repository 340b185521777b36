import Monogram.Proofs.Evaluation.Operation

/-! # Labels of code

A label of an address says how many operands the running frame has there and which handlers it has
installed.  Code is labelled when the labels agree along every way that the instructions can take.

* `Agrees` — the labels around one instruction.
* `Labelled` — labels of all addresses, the end included.
-/

namespace Monogram

namespace Instruction

/-- The number of operands that an instruction leaves, those of the frame that it starts included. -/
def pushes : Instruction → Nat
  | .pop | .jump _ | .jumpIfFalse _ | .giveBack | .openHandler _ | .closeHandler | .raise | .halt => 0
  | _ => 1

theorem effect_eq (i : Instruction) : i.effect = i.pushes - i.pops := by
  cases i <;> simp only [effect, pushes, pops] <;> omega

theorem pushes_of_isPlain {i : Instruction} (plain : i.isPlain) : i.pushes = 1 := by
  cases i <;> first | rfl | cases plain

end Instruction

/-- What is known of the running frame at an address. -/
structure Label where
  /-- Operands of the frame. -/
  depth : Nat
  /-- Where its handlers start, the one installed last first. -/
  handlers : List Nat
deriving DecidableEq, Repr

/-- The label behind an instruction that goes on. -/
def Label.after (l : Label) (i : Instruction) : Label :=
  { l with depth := l.depth - i.pops + i.pushes }

/-- The labels agree along the ways that the instruction at `address` can take, none of which leads
beyond `size`. -/
def Agrees (label : Nat → Label) (size address : Nat) (i : Instruction) : Prop :=
  i.pops ≤ (label address).depth ∧
  match i with
  | .halt => (label address).depth = 0 ∧ (label address).handlers = []
  | .giveBack => (label address).depth = 1
  | .raise => False
  | .jump target => label target = label address ∧ target ≤ size
  | .jumpIfFalse target =>
    label (address + 1) = (label address).after i ∧ label target = (label address).after i
      ∧ target ≤ size
  | .openHandler target =>
    (label address).depth = 0 ∧ label (address + 1) = ⟨0, target :: (label address).handlers⟩
      ∧ label target = ⟨1, (label address).handlers⟩ ∧ target ≤ size
  | .closeHandler =>
    ∃ target handlers, (label address).handlers = target :: handlers
      ∧ label (address + 1) = ⟨(label address).depth, handlers⟩
  | i => label (address + 1) = (label address).after i

/-- Labels of all addresses of some code. -/
structure Labelled (c : Code) (label : Nat → Label) : Prop where
  start : label 0 = ⟨0, []⟩
  stop : label c.size = ⟨0, []⟩
  bounded : ∀ address ≤ c.size, (label address).depth ≤ c.maxOperands
  agrees : ∀ address i, c.instructions[address]? = some i → Agrees label c.size address i

/-- The code can be labelled. -/
def Code.Verified (c : Code) : Prop := ∃ label, Labelled c label

/-- The code can be labelled, and somewhere it holds as many operands as it has room for. -/
def Code.Filled (c : Code) : Prop :=
  ∃ label, Labelled c label ∧ ∃ address ≤ c.size, (label address).depth = c.maxOperands

theorem Code.Filled.verified {c : Code} (filled : c.Filled) : c.Verified :=
  filled.imp fun _ labelled => labelled.1

theorem Agrees.plain {label : Nat → Label} {size address : Nat} {i : Instruction}
    (h : Agrees label size address i) (plain : i.isPlain) :
    label (address + 1) = (label address).after i := by
  obtain ⟨-, h⟩ := h
  cases i <;> first | exact h | cases plain

end Monogram
