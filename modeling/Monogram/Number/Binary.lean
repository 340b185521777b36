/-! # Binary floating point, taken apart and put together

* `Binary.view` — a 64-bit float as sign, significand and exponent of two.
* `Binary.nearest` — the float nearest to a quotient of two whole numbers, a tie to the even
  significand.
-/

namespace Monogram.Binary

/-- What a 64-bit float stands for; `finite` is `significand · 2 ^ exponent` with its sign. -/
inductive View where
  | nan
  | infinite (negative : Bool)
  | finite (negative : Bool) (significand : Nat) (exponent : Int)
deriving DecidableEq, Repr

/-- Exponent of the smallest positive float. -/
def leastExponent : Int := -1074

/-- How many fractions the bits of a float can hold. -/
def fractionCount : Nat := Nat.pow 2 52

/-- How many exponents the bits of a float can hold. -/
def exponentCount : Nat := Nat.pow 2 11

/-- The parts of the float with these bits. -/
def viewBits (bits : Nat) : View :=
  let negative := bits / (fractionCount * exponentCount) == 1
  let biased : Nat := bits / fractionCount % exponentCount
  let fraction := bits % fractionCount
  if biased = 2047 then
    if fraction = 0 then .infinite negative else .nan
  else if biased = 0 then .finite negative fraction leastExponent
  else .finite negative (fractionCount + fraction) ((biased : Int) - 1075)

/-- The parts of `x`. -/
def view (x : Float) : View :=
  viewBits x.toBits.toNat

/-- `2 ^ e` as a quotient, for an exponent of either sign. -/
def powerOfTwo (e : Int) : Nat × Nat :=
  (Nat.pow 2 e.toNat, Nat.pow 2 (-e).toNat)

/-- Exponent at which `num / den` has a significand of 53 bits, or the least exponent. -/
def exponentFor (num den : Nat) : Int :=
  let guess : Int := (num.log2 : Int) - den.log2 - 53
  let (up, down) := powerOfTwo guess
  let fitted := if num * down < 2 * fractionCount * den * up then guess else guess + 1
  max fitted leastExponent

/-- `num / den` rounded to a whole number, a tie to the even neighbour. -/
def roundEven (num den : Nat) : Nat :=
  let floor := num / den
  let rest := 2 * (num % den)
  if rest < den then floor
  else if den < rest then floor + 1
  else if floor % 2 = 0 then floor else floor + 1

/-- Bits of positive infinity. -/
def infinityBits : Nat := 2047 * fractionCount

/-- Bits of the float nearest to `num / den`.  The significand's leading bit adds one to the
exponent field, and so does a significand that rounding lifts to 54 bits. -/
def nearestBits (num den : Nat) : Nat :=
  if num = 0 then 0
  else
    let e := exponentFor num den
    let (up, down) := powerOfTwo e
    let significand := roundEven (num * down) (den * up)
    min ((e - leastExponent).toNat * fractionCount + significand) infinityBits

/-- The float nearest to `num / den`. -/
def nearest (num den : Nat) : Float :=
  Float.ofBits (nearestBits num den).toUInt64

end Monogram.Binary
