import Monogram.Number.Binary

/-! # Shortest decimal text

For a positive value `m · 2 ^ q` the fewest decimal digits that read back to it, and of those the
ones nearest to it.  All arithmetic is exact, in whole numbers.

The reals that read back to `m · 2 ^ q` reach half way to its neighbours; the ends belong to them
when `m` is even.  On the grid of decimals with `n` digits it is enough to look at the two points
around the value.
-/

namespace Monogram.Shortest

/-- A positive decimal: `digits · 10 ^ exponent`. -/
structure Decimal where
  digits : Nat
  exponent : Int
deriving DecidableEq, Repr

/-- The reals that read back to a float: `low · unit` to `high · unit` around `mid · unit`. -/
structure Interval where
  low : Nat
  mid : Nat
  high : Nat
  unitExponent : Int
  closed : Bool
deriving DecidableEq, Repr

/-- The interval of `m · 2 ^ q`, in quarters of the last place. -/
def Interval.around (m : Nat) (q : Int) : Interval :=
  { low := 4 * m - (if m = Binary.fractionCount then 1 else 2)
    mid := 4 * m
    high := 4 * m + 2
    unitExponent := q - 2
    closed := m % 2 = 0 }

/-- How many digits stand before the point of `num / den`: the `k` with
`10 ^ (k - 1) ≤ num / den < 10 ^ k`.  `fuel` bounds the zeros behind the point. -/
def pointPosition : Nat → Nat → Nat → Int
  | 0, _, _ => 0
  | fuel + 1, num, den =>
    if den ≤ num then (Nat.toDigits 10 (num / den)).length
    else if den ≤ 10 * num then 0
    else pointPosition fuel (10 * num) den - 1

/-- The decimal with `n` digits, of a value with the point at `k`, that reads back; `none` when
neither neighbour on that grid does.  A tie goes up. -/
def onGrid (interval : Interval) (k : Int) (n : Nat) : Option Decimal :=
  let step := k - n
  let num := Nat.pow 2 interval.unitExponent.toNat * Nat.pow 10 (-step).toNat
  let den := Nat.pow 2 (-interval.unitExponent).toNat * Nat.pow 10 step.toNat
  let below := interval.mid * num / den
  let above := below + 1
  let belowReads :=
    if interval.closed then interval.low * num ≤ below * den else interval.low * num < below * den
  let aboveReads :=
    if interval.closed then above * den ≤ interval.high * num else above * den < interval.high * num
  let nearerBelow := 2 * (interval.mid * num) < (below + above) * den
  if belowReads && (nearerBelow || !aboveReads) then some ⟨below, step⟩
  else if aboveReads then some ⟨above, step⟩
  else none

/-- Removes zeros at the end of the digits; `fuel` bounds their number. -/
def Decimal.normalize : Nat → Decimal → Decimal
  | 0, d => d
  | fuel + 1, d =>
    if d.digits % 10 = 0 && d.digits != 0 then
      Decimal.normalize fuel ⟨d.digits / 10, d.exponent + 1⟩
    else d

/-- The shortest decimal for `m · 2 ^ q`, `m` positive.  Seventeen digits always suffice. -/
def shortest (m : Nat) (q : Int) : Decimal :=
  let interval := Interval.around m q
  let (up, down) := Binary.powerOfTwo q
  let k := pointPosition 400 (m * up) down
  match (List.range 18).findSome? fun n => if n = 0 then none else onGrid interval k n with
  | some d => d.normalize 18
  | none => ⟨m, q⟩

end Monogram.Shortest
