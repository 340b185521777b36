import Monogram.Number.Basic
import Monogram.Number.Binary

/-! # Reading numbers

`readNumber?` accepts an optional sign and then digits with an optional point and an optional power
of ten, or the words for infinity and for the undefined number in any letter case.  At least one
digit must stand before the power of ten.  The result is the nearest float; of the undefined numbers
it is the one with the sign that is written.
-/

namespace Monogram

/-- Value of a run of decimal digits. -/
def digitsValue (digits : List Char) : Nat :=
  digits.foldl (fun n c => 10 * n + (c.toNat - '0'.toNat)) 0

/-- Beyond this power of ten every number overflows, below its negative every number vanishes. -/
def powerLimit : Int := 400

/-- The float nearest to `digits · 10 ^ exponent`. -/
def nearestDecimal (digits : Nat) (exponent : Int) : Float :=
  if digits = 0 then 0
  else
    let point := exponent + (Nat.toDigits 10 digits).length
    if powerLimit < point then Float.ofBits Binary.infinityBits.toUInt64
    else if point < -powerLimit then 0
    else Binary.nearest (digits * Nat.pow 10 exponent.toNat) (Nat.pow 10 (-exponent).toNat)

/-- The optional power of ten at the end of a number. -/
def readPower? : List Char → Option Int
  | [] => some 0
  | mark :: rest =>
    if mark = 'e' || mark = 'E' then
      let (negative, digits) :=
        match rest with
        | '-' :: digits => (true, digits)
        | '+' :: digits => (false, digits)
        | digits => (false, digits)
      if digits.isEmpty || !digits.all Char.isDigit then none
      else
        let value : Int := digitsValue digits
        some (if negative then -value else value)
    else none

/-- Digits, an optional fraction, an optional power of ten. -/
def readDecimal? (text : List Char) : Option Float :=
  let whole := text.takeWhile Char.isDigit
  let afterWhole := text.dropWhile Char.isDigit
  let (fraction, tail) :=
    match afterWhole with
    | '.' :: rest => (rest.takeWhile Char.isDigit, rest.dropWhile Char.isDigit)
    | rest => ([], rest)
  if whole.isEmpty && fraction.isEmpty then none
  else (readPower? tail).map fun power =>
    nearestDecimal (digitsValue (whole ++ fraction)) (power - fraction.length)

/-- A number without its sign. -/
def readMagnitude? (text : List Char) : Option Number :=
  let word := text.map Char.toLower
  if word = ['i', 'n', 'f'] || word = ['i', 'n', 'f', 'i', 'n', 'i', 't', 'y'] then
    some (.ofFloat (Float.ofBits Binary.infinityBits.toUInt64))
  else if word = ['n', 'a', 'n'] then some (.undefined false)
  else (readDecimal? text).map .ofFloat

/-- The number that `text` spells, if it spells one. -/
def readNumber? (text : List Char) : Option Number :=
  match text with
  | '-' :: rest => (readMagnitude? rest).map .negate
  | '+' :: rest => readMagnitude? rest
  | rest => readMagnitude? rest

end Monogram
