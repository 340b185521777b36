/-! # Numbers

A number is a 64-bit float, or undefined.  There are two undefined numbers, which differ in sign.
Neither is equal to anything nor ordered against anything, but a map keeps them apart as keys.

* `Number.ofFloat` — a result that is undefined arises with a negative sign.
* `Number.binary` — an undefined operand is handed on, the first of two.
* `Number.equal`, `Number.less`, `Number.atMost` — false of an undefined number.
-/

namespace Monogram

/-- Numbers. -/
inductive Number where
  | defined (x : Float) (isNumber : x.isNaN = false)
  | undefined (negative : Bool)
deriving Repr

namespace Number

/-- The number that a float computation ends in. -/
def ofFloat (x : Float) : Number :=
  if h : x.isNaN = false then .defined x h else .undefined true

instance : Inhabited Number := ⟨ofFloat 0⟩

/-- A whole number; the nearest float where it has no float of its own. -/
def ofNat (n : Nat) : Number := ofFloat (Float.ofNat n)

instance (n : Nat) : OfNat Number n := ⟨ofNat n⟩

/-- The float of a number; the undefined numbers share one. -/
def toFloat : Number → Float
  | .defined x _ => x
  | .undefined _ => 0 / 0

/-! ## Arithmetic -/

/-- The opposite number. -/
def negate : Number → Number
  | .defined x _ => ofFloat (-x)
  | .undefined negative => .undefined !negative

/-- The whole number at or below. -/
def floor : Number → Number
  | .defined x _ => ofFloat x.floor
  | .undefined negative => .undefined negative

/-- An operation on floats as an operation on numbers. -/
def binary (f : Float → Float → Float) : Number → Number → Number
  | .undefined negative, _ => .undefined negative
  | .defined _ _, .undefined negative => .undefined negative
  | .defined x _, .defined y _ => ofFloat (f x y)

instance : Neg Number := ⟨negate⟩
instance : Add Number := ⟨binary (· + ·)⟩
instance : Sub Number := ⟨binary (· - ·)⟩
instance : Mul Number := ⟨binary (· * ·)⟩
instance : Div Number := ⟨binary (· / ·)⟩

/-! ## Comparison -/

/-- A comparison of floats as a comparison of numbers. -/
def related (r : Float → Float → Bool) : Number → Number → Bool
  | .defined x _, .defined y _ => r x y
  | _, _ => false

/-- Whether two numbers are equal; both zeros are. -/
def equal : Number → Number → Bool := related fun x y => x == y

/-- Whether the first number is smaller. -/
def less : Number → Number → Bool := related fun x y => decide (x < y)

/-- Whether the first number is smaller or equal. -/
def atMost : Number → Number → Bool := related fun x y => decide (x ≤ y)

/-- Whether a number is one of the zeros. -/
def isZero (x : Number) : Bool := x.equal 0

/-- The number with its fraction cut off, unless it is infinite or undefined.  What lies beyond 64
bits becomes the last number that has them. -/
def truncate? : Number → Option Int
  | .defined x _ => if x.isFinite then some x.toInt64.toInt else none
  | .undefined _ => none

end Number

end Monogram
