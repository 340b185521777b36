import Monogram.Code.Program
import Monogram.Number.Spelling
import Monogram.Text.Quoted

/-! # Listings

Code as text: one line for each instruction, with its address, and labels for the addresses that
jumps and handlers refer to.

* `Code.targets` — the addresses referred to, in order; a label is a place in this list.
* `Code.listing`, `Program.listing` — the texts.
-/

namespace Monogram

/-- `n` put into a sorted list without repetition. -/
def insertSorted (n : Nat) : List Nat → List Nat
  | [] => [n]
  | m :: rest =>
    if n < m then n :: m :: rest
    else if n = m then m :: rest
    else m :: insertSorted n rest

/-- `text` on the right of a field of this width. -/
def alignRight (width : Nat) (text : String) : String :=
  String.ofList (List.replicate (width - text.length) ' ') ++ text

/-- A constant in a listing. -/
def Constant.listing : Constant → String
  | .nil => "Nil"
  | .number value =>
    let digits := Spelling.exact.write value
    s!"Number({digits})"
  | .string text =>
    let quoted := Quoted.encode text
    s!"Str({quoted})"
  | .classRef id => s!"Class(ClassId({id}))"
  | .system => "System"

/-- An arithmetic operator in a listing. -/
def Arithmetic.listing : Arithmetic → String
  | .add => "Add" | .sub => "Sub" | .mul => "Mul" | .div => "Div" | .rem => "Rem"

/-- A comparison in a listing. -/
def Comparison.listing : Comparison → String
  | .eq => "Eq" | .ne => "Ne" | .lt => "Lt" | .gt => "Gt" | .le => "Le" | .ge => "Ge"

/-- An instruction in a listing, without its label. -/
def Instruction.listing : Instruction → String
  | .halt => "Halt"
  | .push c =>
    let constant := c.listing
    s!"PushConst({constant})"
  | .pop => "Pop"
  | .loadSlot slot => s!"LoadSlot({slot})"
  | .storeSlot slot => s!"StoreSlot({slot})"
  | .loadName name =>
    let quoted := Quoted.encode name
    s!"LoadName({quoted})"
  | .storeName name =>
    let quoted := Quoted.encode name
    s!"StoreName({quoted})"
  | .loadField field =>
    let quoted := Quoted.encode field
    s!"LoadField({quoted})"
  | .storeField field =>
    let quoted := Quoted.encode field
    s!"StoreField({quoted})"
  | .loadStatic field =>
    let quoted := Quoted.encode field
    s!"GetStatic({quoted})"
  | .storeStatic field =>
    let quoted := Quoted.encode field
    s!"SetStatic({quoted})"
  | .loadIndex => "LoadIndex"
  | .storeIndex => "StoreIndex"
  | .arithmetic op =>
    let operator := op.listing
    s!"Arith({operator})"
  | .compare op =>
    let operator := op.listing
    s!"Compare({operator})"
  | .and => "And"
  | .or => "Or"
  | .not => "Not"
  | .negate => "Negate"
  | .jump target => s!"Jump({target})"
  | .jumpIfFalse target => s!"JumpIfFalse({target})"
  | .call method argc =>
    let quoted := Quoted.encode method
    s!"Call({quoted}, {argc})"
  | .giveBack => "Return"
  | .construct className argc =>
    let quoted := Quoted.encode className
    s!"New({quoted}, {argc})"
  | .print argc => s!"Print({argc})"
  | .openHandler target => s!"SetupTry({target})"
  | .closeHandler => "PopTry"
  | .raise => "Throw"
  | .buildList count => s!"BuildList({count})"
  | .buildMap count => s!"BuildMap({count})"

namespace Code

/-- The addresses that instructions refer to, in order and without repetition. -/
def targets (code : List Instruction) : List Nat :=
  (code.filterMap Instruction.target?).foldr insertSorted []

/-- The number of the label at `address`, if something refers to it. -/
def label? (targets : List Nat) (address : Nat) : Option Nat :=
  targets.idxOf? address

/-- The column in front of an instruction: its label with a colon, or nothing. -/
def labelColumn (targets : List Nat) (address : Nat) : String :=
  match label? targets address with
  | some n => s!"L{n}:"
  | none => ""

/-- The remark behind an instruction: where it leads. -/
def targetRemark (targets : List Nat) (i : Instruction) : String :=
  match i.target? with
  | some target =>
    match label? targets target with
    | some n => s!" (to L{n})"
    | none => s!" (to @{target})"
  | none => ""

/-- The start of a line: address and label. -/
def lineHead (targets : List Nat) (address : Nat) : String :=
  let number := alignRight 4 (toString address)
  let label := alignRight 4 (labelColumn targets address)
  s!"    {number} {label}"

/-- The line of the instruction at `address`. -/
def line (targets : List Nat) (address : Nat) (i : Instruction) : String :=
  let head := lineHead targets address
  let body := i.listing
  let remark := targetRemark targets i
  s!"{head}  {body}{remark}"

/-- The lines of instructions from `address` on, and of the end when something refers to it. -/
def lines (targets : List Nat) : Nat → List Instruction → List String
  | address, [] =>
    if (label? targets address).isSome then [lineHead targets address] else []
  | address, i :: rest => line targets address i :: lines targets (address + 1) rest

/-- The listing of code. -/
def listing (c : Code) : String :=
  let code := c.instructions.toList
  let count := c.maxOperands
  String.intercalate "\n"
    (["Code \x7b", s!"  max_stack_size: {count}", "  instructions:"]
      ++ lines (targets code) 0 code ++ ["\x7d"])

end Code

/-- Methods in the order of their names, each under its heading. -/
def methodListings (heading : String) (methods : Table MethodImage) : List String :=
  let sorted := methods.entries.mergeSort fun a b => a.1 ≤ b.1
  sorted.map fun (name, method) =>
    let code := method.code.listing
    s!"{heading} {name} {code}"

/-- The listing of a class, by lines. -/
def ClassImage.listings (c : ClassImage) : List String :=
  let name := c.name
  let id := c.id
  let superclass :=
    match c.superclass with
    | some ancestor => s!" ^ {ancestor}"
    | none => ""
  let init := c.staticInit.listing
  s!"class {name} #{id}{superclass}"
    :: (if c.staticInit.size = 0 then [] else [s!"static init {init}"])
    ++ methodListings "method" c.methods ++ methodListings "static method" c.staticMethods

/-- The listing of a program, classes first. -/
def Program.listing (p : Program) : String :=
  let main := p.main.listing
  String.intercalate "\n" (p.classes.values.flatMap ClassImage.listings ++ [s!"main {main}"])

end Monogram
