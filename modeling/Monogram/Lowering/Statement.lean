import Monogram.Lowering.Expression
import Monogram.Tree.Stmt

/-! # Code of statements

The code of a statement leaves the operands as they were.  Its jumps are absolute, so it depends on
the address at which it will stand; declarations in it give names their slots.

* `Stmt.lower` — the code at an address, and the names known behind it.
-/

namespace Monogram

/-- The value of an optional expression, nil when there is none. -/
def lowerOptional (names : Names) : Option Expr → Except LoweringError (List Instruction)
  | some e => e.lower names
  | none => return [.push .nil]

/-- The kind of a class declaration. -/
def ClassDecl.kind (d : ClassDecl) : DeclarationKind :=
  if d.isInterface then .interface else .properClass

mutual

/-- The code of a statement that will stand at `address`. -/
def Stmt.lower : Stmt → Nat → Names → Except LoweringError (List Instruction × Names)
  | .expression e, _, names => return ((← e.lower names) ++ [.pop], names)
  | .declare decl, _, names => do
    let value ← lowerOptional names decl.initializer
    let (slot, names) ← names.declare decl.name
    return (value ++ [.storeSlot slot, .pop], names)
  | .block body, address, names => lowerBlock body address names
  | .ifThen condition yes, address, names => do
    let test ← condition.lower names
    let (yesCode, names) ← yes.lower (address + test.length + 1) names
    let stop := address + test.length + 1 + yesCode.length
    return (test ++ .jumpIfFalse stop :: yesCode, names)
  | .ifElse condition yes no, address, names => do
    let test ← condition.lower names
    let (yesCode, names) ← yes.lower (address + test.length + 1) names
    let other := address + test.length + 1 + yesCode.length + 1
    let (noCode, names) ← no.lower other names
    let stop := other + noCode.length
    return (test ++ .jumpIfFalse other :: yesCode ++ .jump stop :: noCode, names)
  | .loop condition body, address, names => do
    let test ← condition.lower names
    let (bodyCode, names) ← body.lower (address + test.length + 1) names
    let stop := address + test.length + 1 + bodyCode.length + 1
    return (test ++ .jumpIfFalse stop :: bodyCode ++ [.jump address], names)
  | .tryHandle body _ binding handler, address, names => do
    let (bodyCode, names) ← lowerBlock body (address + 1) names
    let entry := address + 1 + bodyCode.length + 2
    let (slot, names) ← names.declare binding
    let (handlerCode, names) ← lowerBlock handler (entry + 2) names
    let stop := entry + 2 + handlerCode.length
    return (.openHandler entry :: bodyCode ++ [.closeHandler, .jump stop, .storeSlot slot, .pop]
      ++ handlerCode, names)
  | .giveBack value, _, names => return ((← lowerOptional names value) ++ [.giveBack], names)
  | .method decl, _, _ => throw (.misplacedDeclaration .method decl.name)
  | .classDecl decl, _, _ => throw (.misplacedDeclaration decl.kind decl.name)

/-- The code of statements one after the other. -/
def lowerBlock : List Stmt → Nat → Names → Except LoweringError (List Instruction × Names)
  | [], _, names => return ([], names)
  | s :: rest, address, names => do
    let (first, names) ← s.lower address names
    let (others, names) ← lowerBlock rest (address + first.length) names
    return (first ++ others, names)

end

end Monogram
