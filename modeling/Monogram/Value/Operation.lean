import Monogram.Value.Equality
import Monogram.Value.Rendering

/-! # Operations on values

Arithmetic, comparison and indexing.

* `Heap.arithmetic` — may ask for a new list.
* `Heap.compare` — any two values can be equal; only numbers and strings have an order.
* `Heap.load`, `Heap.storing` — elements of lists and maps.
-/

namespace Monogram

/-- Arithmetic on numbers.  A remainder has the sign of the divisor. -/
def Arithmetic.apply (op : Arithmetic) (x y : Number) : Except Fault Number :=
  match op with
  | .add => .ok (x + y)
  | .sub => .ok (x - y)
  | .mul => .ok (x * y)
  | .div => if y.isZero then .error .divisionByZero else .ok (x / y)
  | .rem => if y.isZero then .error .divisionByZero else .ok (x - y * (x / y).floor)

/-- The comparisons that need an order, on numbers. -/
def Comparison.holds (op : Comparison) (x y : Number) : Bool :=
  match op with
  | .lt => x.less y
  | .gt => y.less x
  | .le => x.atMost y
  | .ge => y.atMost x
  | .eq | .ne => false

/-- The comparisons that need an order, on strings: by code points. -/
def Comparison.holdsText (op : Comparison) (s t : String) : Bool :=
  match op with
  | .lt => s < t
  | .gt => t < s
  | .le => !(t < s)
  | .ge => !(s < t)
  | .eq | .ne => false

/-- The place that a number refers to in a list: fractions are cut off, a negative number counts
from the end. -/
def listPlace (index : Value) (length : Nat) : Except Fault Nat :=
  match index.number? with
  | none => .error (.notIndexable .list index.sort)
  | some x =>
    match x.truncate? with
    | none => .error .nonFiniteIndex
    | some requested =>
      let resolved := if requested < 0 then requested + length else requested
      if resolved < 0 ∨ (length : Int) ≤ resolved then .error (.indexOutOfRange requested length)
      else .ok resolved.toNat

/-- What an arithmetic operator makes. -/
inductive ArithmeticResult where
  | value (v : Value)
  | newList (items : Array Value)

namespace Heap

variable {β : Type}

/-- An arithmetic operator.  Two strings and two lists can be added. -/
def arithmetic (h : Heap β) (op : Arithmetic) (a b : Value) : Except Fault ArithmeticResult :=
  match op, a, b with
  | .add, .string s, .string t => .ok (.value (.string (s ++ t)))
  | .add, .list x, .list y => .ok (.newList (h.list x ++ h.list y))
  | op, a, b =>
    match a.number?, b.number? with
    | some x, some y => (op.apply x y).map fun z => .value (.number z)
    | _, _ => .error (.binaryOperands (.arithmetic op) a.sort b.sort)

/-- A comparison that needs an order. -/
def order (op : Comparison) (a b : Value) : Except Fault Bool :=
  match a, b with
  | .string s, .string t => .ok (op.holdsText s t)
  | a, b =>
    match a.number?, b.number? with
    | some x, some y => .ok (op.holds x y)
    | _, _ => .error (.binaryOperands (.comparison op) a.sort b.sort)

/-- A comparison. -/
def compare (h : Heap β) (op : Comparison) (a b : Value) : Except Fault Bool :=
  match op with
  | .eq => .ok (h.equal a b)
  | .ne => .ok (!h.equal a b)
  | op => order op a b

/-- The negative of a number. -/
def negate (a : Value) : Except Fault Value :=
  match a.number? with
  | some x => .ok (.number (-x))
  | none => .error (.negated a.sort)

/-- The element of a list or a map at an index. -/
def load [Inhabited β] (h : Heap β) (container index : Value) : Except Fault Value :=
  match container with
  | .list address => do
    let items := h.list address
    let place ← listPlace index items.size
    return (items[place]?).getD .nil
  | .map address => do
    match ← (h.map address).get index with
    | some value => return value
    | none => throw (.keyNotFound (h.display index))
  | container => .error (.notIndexable container.sort index.sort)

/-- The change of the heap that replaces the element of a list, or inserts into a map. -/
def storing (h : Heap β) (container index value : Value) : Except Fault (Heap β → Heap β) :=
  match container with
  | .list address => do
    let place ← listPlace index (h.list address).size
    return fun h => h.modifyList address fun items => items.setIfInBounds place value
  | .map address => do
    let known ← Dict.keyOf index
    return fun h => h.modifyMap address fun contents => contents.insertKey known index value
  | container => .error (.notIndexable container.sort index.sort)

end Heap

end Monogram
