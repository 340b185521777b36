import Monogram.Code.Instruction

/-! # Code

A sequence of instructions together with the greatest number of operands that it holds at once.

* `operandCounts` — operands before each instruction and at the end, going straight through.
* `Code.ofInstructions` — a sequence with its greatest count.
-/

namespace Monogram

/-- A sequence of instructions, and the operands it needs room for. -/
structure Code where
  instructions : Array Instruction
  maxOperands : Nat
deriving Repr, Inhabited

/-- The addresses at which handlers start. -/
def handlerStarts (code : List Instruction) : List Nat :=
  code.filterMap Instruction.handler?

/-- Operands at `address` and from there on, with `count` of them behind the instruction before.
Where a handler starts there is one more, the raised value. -/
def operandCountsFrom (starts : List Nat) (address count : Nat) : List Instruction → List Nat
  | [] => [if starts.contains address then count + 1 else count]
  | i :: rest =>
    let here := if starts.contains address then count + 1 else count
    here :: operandCountsFrom starts (address + 1) (here + i.effect).toNat rest

/-- Operands before each instruction and at the end. -/
def operandCounts (code : List Instruction) : List Nat :=
  operandCountsFrom (handlerStarts code) 0 0 code

namespace Code

/-- Code with room for the operands of a straight pass. -/
def ofInstructions (code : List Instruction) : Code :=
  ⟨code.toArray, (operandCounts code).foldl max 0⟩

/-- The number of instructions. -/
def size (c : Code) : Nat :=
  c.instructions.size

end Code

end Monogram
