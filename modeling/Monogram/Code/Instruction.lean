import Monogram.Tree.Expr

/-! # Instructions

A sequence of instructions works on a stack of operands.  Jumps name the address of an instruction
in the same sequence.

* `Instruction.effect` — by how much an instruction changes the number of operands.
* `Instruction.target?` — the address an instruction refers to.
-/

namespace Monogram

/-- The number by which the language knows a class.  Smaller numbers are taken by type
annotations. -/
abbrev ClassId := Nat

/-- The number of the class that is declared first. -/
def firstClassId : ClassId := 15

/-- A value written in the code. -/
inductive Constant where
  | nil
  | number (value : Number)
  | string (text : String)
  | classRef (id : ClassId)
  | system
deriving Repr, Inhabited

/-- Instructions.  The top of the stack is on the right. -/
inductive Instruction where
  /-- Ends the run. -/
  | halt
  /-- `… → … constant` -/
  | push (c : Constant)
  /-- `… a → …` -/
  | pop
  /-- Reads a declared global, zero before the first store.  `… → … value` -/
  | loadSlot (slot : Nat)
  /-- `… value → … value` -/
  | storeSlot (slot : Nat)
  /-- Reads a name: of the frame, else of the named globals, else zero.  `… → … value` -/
  | loadName (name : String)
  /-- Stores into the name of the frame if it has it, else into the named global.
  `… value → … value` -/
  | storeName (name : String)
  /-- `… object → … value` -/
  | loadField (field : String)
  /-- `… object value → … value` -/
  | storeField (field : String)
  /-- `… class → … value` -/
  | loadStatic (field : String)
  /-- `… class value → … value` -/
  | storeStatic (field : String)
  /-- `… container index → … element` -/
  | loadIndex
  /-- `… container index value → … value` -/
  | storeIndex
  /-- `… a b → … result` -/
  | arithmetic (op : Arithmetic)
  /-- `… a b → … result` -/
  | compare (op : Comparison)
  /-- Chooses `a` when it counts as false, else `b`.  `… a b → … result` -/
  | and
  /-- Chooses `a` when it counts as true, else `b`.  `… a b → … result` -/
  | or
  /-- `… a → … result` -/
  | not
  /-- `… a → … result` -/
  | negate
  | jump (target : Nat)
  /-- `… condition → …` -/
  | jumpIfFalse (target : Nat)
  /-- Calls a method; its arguments are dropped.  `… receiver a₁ … aₙ → … result` -/
  | call (method : String) (argc : Nat)
  /-- Ends the frame; its caller gets the value.  `… value → …` -/
  | giveBack
  /-- Makes an object; the arguments are dropped.  `… a₁ … aₙ → … object` -/
  | construct (className : String) (argc : Nat)
  /-- Prints the arguments.  `… receiver a₁ … aₙ → … nil` -/
  | print (argc : Nat)
  /-- Installs a handler at an address. -/
  | openHandler (target : Nat)
  /-- Removes the handler installed last. -/
  | closeHandler
  /-- Raises a value.  `… value →` what the handler found. -/
  | raise
  /-- `… e₁ … eₙ → … list` -/
  | buildList (count : Nat)
  /-- `… k₁ v₁ … kₙ vₙ → … map` -/
  | buildMap (count : Nat)
deriving Repr, Inhabited

namespace Instruction

/-- Change in the number of operands when the instruction completes without raising.  A call counts
with the result that its frame gives back. -/
def effect : Instruction → Int
  | .halt | .jump _ | .openHandler _ | .closeHandler => 0
  | .push _ | .loadSlot _ | .loadName _ => 1
  | .storeSlot _ | .storeName _ | .loadField _ | .loadStatic _ | .not | .negate => 0
  | .pop | .jumpIfFalse _ | .giveBack | .raise => -1
  | .storeField _ | .storeStatic _ | .loadIndex | .arithmetic _ | .compare _ | .and | .or => -1
  | .storeIndex => -2
  | .call _ argc | .print argc => -argc
  | .construct _ argc => 1 - argc
  | .buildList count => 1 - count
  | .buildMap count => 1 - 2 * count

/-- The address that a jump goes to or a handler starts at. -/
def target? : Instruction → Option Nat
  | .jump target | .jumpIfFalse target | .openHandler target => some target
  | _ => none

/-- The address at which a handler starts. -/
def handler? : Instruction → Option Nat
  | .openHandler target => some target
  | _ => none

end Instruction

end Monogram
