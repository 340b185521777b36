import Monogram.Number.Basic
import Monogram.Number.Shortest

/-! # Written numbers

A number is written with its shortest digits.  `Spelling` holds the choices that are left: when a
power of ten is split off, and whether a whole number shows a fraction.

* `Spelling.plain` — never a power of ten, no fraction on whole numbers.
* `Spelling.exact` — always a fraction or a power of ten, so that the text is visibly a number.
-/

namespace Monogram

/-- Choices in writing a number whose point stands behind `k` digits. -/
structure Spelling where
  /-- With at most this many digits before the point a power of ten is split off. -/
  splitUpTo : Option Int
  /-- With at least this many digits before the point a power of ten is split off. -/
  splitFrom : Option Int
  /-- Whole numbers end in `.0`. -/
  pointZero : Bool
deriving DecidableEq, Repr

namespace Spelling

/-- Positional at any size. -/
def plain : Spelling := ⟨none, none, false⟩

/-- Positional from 0.0001 up to, but not including, 10 ^ 16. -/
def exact : Spelling := ⟨some (-4), some 17, true⟩

/-- Whether a number with its point at `k` is split. -/
def splits (s : Spelling) (k : Int) : Bool :=
  s.splitUpTo.any (k ≤ ·) || s.splitFrom.any (· ≤ k)

/-- Digits with the point behind the first `k` of them. -/
def positional (s : Spelling) (digits : List Char) (k : Int) : List Char :=
  if k ≤ 0 then '0' :: '.' :: List.replicate (-k).toNat '0' ++ digits
  else
    let whole := k.toNat
    if digits.length ≤ whole then
      digits ++ List.replicate (whole - digits.length) '0' ++ (if s.pointZero then ['.', '0'] else [])
    else digits.take whole ++ '.' :: digits.drop whole

/-- One digit before the point, the others behind it, and the power of ten. -/
def scientific (digits : List Char) (k : Int) : List Char :=
  digits.take 1 ++ (if digits.length ≤ 1 then [] else '.' :: digits.drop 1)
    ++ 'e' :: (toString (k - 1)).toList

/-- The text of a decimal. -/
def decimal (s : Spelling) (d : Shortest.Decimal) : List Char :=
  let digits := Nat.toDigits 10 d.digits
  let k := d.exponent + digits.length
  if s.splits k then scientific digits k else s.positional digits k

/-- The text of a number; the undefined numbers share one. -/
def write (s : Spelling) (x : Number) : String :=
  match Binary.view x.toFloat with
  | .nan => "NaN"
  | .infinite negative => if negative then "-inf" else "inf"
  | .finite negative m q =>
    let magnitude :=
      if m = 0 then (if s.pointZero then ['0', '.', '0'] else ['0'])
      else s.decimal (Shortest.shortest m q)
    String.ofList (if negative then '-' :: magnitude else magnitude)

end Spelling

end Monogram
