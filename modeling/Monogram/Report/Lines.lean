import Monogram.Text.Position

/-! # Lines of a shown text

A report shows whole lines.  A line ends with any of the line breaks of Unicode, which belongs to
it; a carriage return and the line feed behind it are one break.

* `shownLines` — the lines of a text; an empty text has one.
-/

namespace Monogram

/-- The characters that end a line. -/
def isLineBreak (c : Char) : Bool :=
  c = '\r' || c = '\n' || c = '\x0b' || c = '\x0c' || c = '\u0085' || c = '\u2028' || c = '\u2029'

/-- The lines of a text, none for an empty one. -/
def breakLines : List Char → List (List Char)
  | [] => []
  | '\r' :: '\n' :: rest => ['\r', '\n'] :: breakLines rest
  | c :: rest =>
    if isLineBreak c then [c] :: breakLines rest
    else
      match breakLines rest with
      | [] => [[c]]
      | line :: more => (c :: line) :: more

/-- The lines of a text. -/
def shownLines (text : List Char) : List (List Char) :=
  if text.isEmpty then [[]] else breakLines text

end Monogram
