import Monogram.Code.Instruction

/-! # Values

Scalars are values themselves.  A list, a map or an object is an address in the heap, so that two
values may share it.

* `Value.number?` — the number that a value counts as.
* `Key` — what a map knows of a key.
-/

namespace Monogram

/-- A place in one of the heap's arenas. -/
abbrev Address := Nat

/-- Values. -/
inductive Value where
  | nil
  | number (x : Number)
  | bool (b : Bool)
  | string (s : String)
  | list (address : Address)
  | map (address : Address)
  | object (address : Address)
  | classRef (id : ClassId)
  | system
deriving Repr, Inhabited

/-- The sorts of values. -/
inductive ValueSort where
  | nil | number | bool | string | list | map | object | classRef | system
deriving DecidableEq, Repr

/-- The name of a sort. -/
def ValueSort.name : ValueSort → String
  | .nil => "null"
  | .number => "number"
  | .bool => "bool"
  | .string => "string"
  | .list => "list"
  | .map => "map"
  | .object => "object"
  | .classRef => "class"
  | .system => "system"

namespace Value

/-- What a variable, a field or a static holds before the first store. -/
def zero : Value := .number 0

/-- The value of a constant. -/
def ofConstant : Constant → Value
  | .nil => .nil
  | .number x => .number x
  | .string s => .string s
  | .classRef id => .classRef id
  | .system => .system

/-- The sort of a value. -/
def sort : Value → ValueSort
  | .nil => .nil
  | .number _ => .number
  | .bool _ => .bool
  | .string _ => .string
  | .list _ => .list
  | .map _ => .map
  | .object _ => .object
  | .classRef _ => .classRef
  | .system => .system

/-- The number that a value counts as in arithmetic and comparisons: truth values count as one and
zero, classes as their number. -/
def number? : Value → Option Number
  | .number x => some x
  | .bool b => some (if b then 1 else 0)
  | .classRef id => some (.ofNat id)
  | _ => none

end Value

/-- What a map knows of a key: values that count as the same number have one key, and so does each
of the undefined numbers. -/
inductive Key where
  | nil
  | number (bits : UInt64)
  | undefined (negative : Bool)
  | string (s : String)
  | object (address : Address)
  | system
deriving DecidableEq, Hashable, Repr

/-- The key of a number; both zeros have the same. -/
def Key.ofNumber : Number → Key
  | .defined x _ => .number (if x == 0 then (0 : Float).toBits else x.toBits)
  | .undefined negative => .undefined negative

/-- The key of a value.  Lists and maps have none. -/
def Value.key? (v : Value) : Option Key :=
  match v with
  | .nil => some .nil
  | .string s => some (.string s)
  | .object address => some (.object address)
  | .system => some .system
  | .list _ | .map _ => none
  | v => v.number?.map Key.ofNumber

/-- Lists and maps, the values that contain others. -/
inductive Container where
  | list (address : Address)
  | map (address : Address)
deriving DecidableEq, Repr

end Monogram
