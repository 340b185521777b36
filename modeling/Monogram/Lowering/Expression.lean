import Monogram.Lowering.Names

/-! # Code of expressions

The code of an expression has no jumps.  It leaves the value of the expression on the operands that
were there before.

* `Expr.lower` — the code, under given names.
-/

namespace Monogram

/-- The member whose call prints. -/
def printMember : String := "o"

/-- The operand of a method that calls another one of its own object. -/
def ownObject : Instruction := .loadName "this"

/-- The instruction of an operator between two operands. -/
def BinaryOp.instruction : BinaryOp → Instruction
  | .arithmetic op => .arithmetic op
  | .comparison op => .compare op

/-- The instruction that chooses one of two operands. -/
def LogicalOp.instruction : LogicalOp → Instruction
  | .and => .and
  | .or => .or

/-- Calls `name` with arguments that have been evaluated. -/
def callInstruction (name : String) (argc : Nat) : Instruction :=
  if name = printMember then .print argc else .call name argc

/-- `instruction`, if a count does not pass its limit. -/
def counted (what : Counted) (count : Nat) (instruction : Instruction) :
    Except LoweringError (List Instruction) :=
  if what.limit < count then .error (.tooMany what) else .ok [instruction]

mutual

/-- The code of an expression. -/
def Expr.lower (names : Names) : Expr → Except LoweringError (List Instruction)
  | .number value => return [.push (.number value)]
  | .string text => return [.push (.string text)]
  | .grouping inner => inner.lower names
  | .variable name => return [names.load name]
  | .assign name value => return (← value.lower names) ++ [names.store name]
  | .binary op left right =>
    return (← left.lower names) ++ (← right.lower names) ++ [op.instruction]
  | .logical op left right =>
    return (← left.lower names) ++ (← right.lower names) ++ [op.instruction]
  | .unary .at _ => throw (.unsupported .atOperator)
  | .unary .negate operand => return (← operand.lower names) ++ [.negate]
  | .unary .not operand => return (← operand.lower names) ++ [.not]
  | .call (.member object name) args => do
    let receiver ← object.lower names
    let evaluated ← lowerAll names args
    return receiver ++ evaluated
      ++ (← counted .arguments args.length (callInstruction name args.length))
  | .call (.variable name) args => do
    let evaluated ← lowerAll names args
    return ownObject :: evaluated
      ++ (← counted .arguments args.length (callInstruction name args.length))
  | .call _ _ => throw (.unsupported .computedCallee)
  | .member object name =>
    match names.staticReceiver? object with
    | some id => return [.push (.classRef id), .loadStatic name]
    | none => return (← object.lower names) ++ [.loadField name]
  | .setMember object name value =>
    match names.staticReceiver? object with
    | some id => return .push (.classRef id) :: (← value.lower names) ++ [.storeStatic name]
    | none => return (← object.lower names) ++ (← value.lower names) ++ [.storeField name]
  | .construct className args => do
    let evaluated ← lowerAll names args
    return evaluated ++ (← counted .arguments args.length (.construct className args.length))
  | .list items => do
    let evaluated ← lowerAll names items
    return evaluated ++ (← counted .listElements items.length (.buildList items.length))
  | .map entries => do
    let evaluated ← lowerEntries names entries
    return evaluated ++ (← counted .mapEntries entries.length (.buildMap entries.length))
  | .index object index =>
    return (← object.lower names) ++ (← index.lower names) ++ [.loadIndex]
  | .setIndex object index value =>
    return (← object.lower names) ++ (← index.lower names) ++ (← value.lower names)
      ++ [.storeIndex]

/-- The code of expressions from left to right. -/
def lowerAll (names : Names) : List Expr → Except LoweringError (List Instruction)
  | [] => return []
  | e :: rest => return (← e.lower names) ++ (← lowerAll names rest)

/-- The code of keys and values from left to right. -/
def lowerEntries (names : Names) : List (Expr × Expr) → Except LoweringError (List Instruction)
  | [] => return []
  | (key, value) :: rest =>
    return (← key.lower names) ++ (← value.lower names) ++ (← lowerEntries names rest)

end

end Monogram
