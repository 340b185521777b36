import Monogram.Text.Ranges

/-! # Blank characters

The characters with the Unicode property `White_Space`, and the text left when they are removed at
both ends.
-/

namespace Monogram

/-- The code points with that property. -/
def blankRanges : List (Nat × Nat) :=
  [(0x09, 0x0D), (0x20, 0x20), (0x85, 0x85), (0xA0, 0xA0), (0x1680, 0x1680), (0x2000, 0x200A),
   (0x2028, 0x2029), (0x202F, 0x202F), (0x205F, 0x205F), (0x3000, 0x3000)]

/-- Whether `c` has that property. -/
def isBlank (c : Char) : Bool :=
  inRanges blankRanges c.toNat

/-- `text` without the blank characters at its two ends. -/
def trimBlank (text : List Char) : List Char :=
  ((text.dropWhile isBlank).reverse.dropWhile isBlank).reverse

end Monogram
