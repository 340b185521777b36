import Monogram.Code.Instruction
import Monogram.Lowering.Pool

/-! # Names known to the lowering

Two pools decide what a name means: the classes, numbered from `firstClassId`, and the declared
globals, whose numbers are their slots.

* `LoweringError` — why a tree has no code.
* `Names.declare` — gives a global its slot.
-/

namespace Monogram

/-- Constructs that can be written but have no code. -/
inductive Construct where
  | atOperator
  | computedCallee
deriving DecidableEq, Repr

/-- Declarations, by kind. -/
inductive DeclarationKind where
  | method
  | properClass
  | interface
deriving DecidableEq, Repr

/-- What the code can count only so far. -/
inductive Counted where
  | arguments
  | listElements
  | mapEntries
  | globals
deriving DecidableEq, Repr

/-- The largest number of arguments. -/
def argumentLimit : Nat := Nat.pow 2 16 - 1

/-- The largest number of elements, entries or globals. -/
def wordLimit : Nat := Nat.pow 2 32 - 1

/-- Why a tree has no code. -/
inductive LoweringError where
  | unsupported (construct : Construct)
  /-- A method outside of a class, or a class below the top level. -/
  | misplacedDeclaration (kind : DeclarationKind) (name : String)
  | tooMany (what : Counted)
deriving DecidableEq, Repr

/-- A construct in words. -/
def Construct.message : Construct → String
  | .atOperator => "'@'"
  | .computedCallee => "call of a computed value"

/-- A kind of declaration in words. -/
def DeclarationKind.message : DeclarationKind → String
  | .method => "method"
  | .properClass => "class"
  | .interface => "interface"

/-- What is counted, in words. -/
def Counted.message : Counted → String
  | .arguments => "arguments"
  | .listElements => "list elements"
  | .mapEntries => "map entries"
  | .globals => "globals"

/-- The largest count. -/
def Counted.limit : Counted → Nat
  | .arguments => argumentLimit
  | _ => wordLimit

/-- The error in words. -/
def LoweringError.message : LoweringError → String
  | .unsupported construct =>
    let what := construct.message
    s!"unsupported construct: {what}"
  | .misplacedDeclaration kind name =>
    let what := kind.message
    s!"{what} '{name}' cannot be declared here"
  | .tooMany counted =>
    let what := counted.message
    let limit := counted.limit
    s!"too many {what} (limit: {limit})"

/-- What names mean. -/
structure Names where
  classes : Pool
  globals : Pool

namespace Names

/-- Nothing is known. -/
def empty : Names := ⟨∅, ∅⟩

instance : Inhabited Names := ⟨empty⟩

/-- The class of this name. -/
def classId? (names : Names) (name : String) : Option ClassId :=
  (names.classes.index? name).map (firstClassId + ·)

/-- The slot of the declared global of this name. -/
def slot? (names : Names) (name : String) : Option Nat :=
  names.globals.index? name

/-- Makes `name` a class. -/
def addClass (names : Names) (name : String) : Names :=
  { names with classes := names.classes.insert name }

/-- Makes `name` a declared global, and gives its slot. -/
def declare (names : Names) (name : String) : Except LoweringError (Nat × Names) :=
  match names.slot? name with
  | some slot => .ok (slot, names)
  | none =>
    if wordLimit < names.globals.size then .error (.tooMany .globals)
    else .ok (names.globals.size, { names with globals := names.globals.insert name })

/-- Reads a name: the system object, a declared global, a class, or else a name found when the
code runs. -/
def load (names : Names) (name : String) : Instruction :=
  if name = "z" then .push .system
  else
    match names.slot? name, names.classId? name with
    | some slot, _ => .loadSlot slot
    | none, some id => .push (.classRef id)
    | none, none => .loadName name

/-- Stores into a name: a declared global, or else a name found when the code runs. -/
def store (names : Names) (name : String) : Instruction :=
  match names.slot? name with
  | some slot => .storeSlot slot
  | none => .storeName name

/-- The class that an expression names before a point, where a global of that name does not hide
it. -/
def staticReceiver? (names : Names) : Expr → Option ClassId
  | .variable name => names.classId? name
  | _ => none

end Names

end Monogram
