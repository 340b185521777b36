import Monogram.Report.Lines

/-! # Marked stretches

What a report points at, in lines and columns of characters instead of bytes.

* `ShownPlace.ofStart`, `ShownPlace.ofStop` — where a stretch of bytes begins and ends.
* `Mark.ofSpan` — a stretch of bytes as a mark.
-/

namespace Monogram

/-- A line and a number of characters in it, both counted from zero. -/
structure ShownPlace where
  line : Nat
  column : Nat
deriving DecidableEq, Repr

/-- Where a stretch begins that has `offset` bytes in front of it.  The end of the text belongs to
its last line. -/
def ShownPlace.ofStart (offset : Nat) : List (List Char) → ShownPlace
  | [] => ⟨0, 0⟩
  | line :: rest =>
    if rest.isEmpty ∨ offset < byteCount line then ⟨0, (splitBytes offset line).1.length⟩
    else
      let place := ofStart (offset - byteCount line) rest
      { place with line := place.line + 1 }

/-- Where a stretch ends that reaches up to `offset` bytes.  It ends on the line of its last
byte. -/
def ShownPlace.ofStop (offset : Nat) : List (List Char) → ShownPlace
  | [] => ⟨0, 0⟩
  | line :: rest =>
    if rest.isEmpty ∨ offset ≤ byteCount line then ⟨0, (splitBytes offset line).1.length⟩
    else
      let place := ofStop (offset - byteCount line) rest
      { place with line := place.line + 1 }

/-- A stretch of a text: its first character, and the place behind its last one. -/
structure Mark where
  start : ShownPlace
  stop : ShownPlace
deriving DecidableEq, Repr

namespace Mark

/-- The mark of a stretch of bytes.  What lies beyond the text is cut off. -/
def ofSpan (lines : List (List Char)) (span : Span) : Mark :=
  let stop := min span.stop (byteCount lines.flatten)
  let start := min span.start stop
  let first := ShownPlace.ofStart start lines
  if start < stop then ⟨first, .ofStop stop lines⟩ else ⟨first, first⟩

/-- Whether the mark lies on one line. -/
def onOneLine (m : Mark) : Bool :=
  m.start.line == m.stop.line

/-- Whether the character at a column of a line is marked. -/
def covers (m : Mark) (line column : Nat) : Bool :=
  (m.start.line < line || m.start.line == line && m.start.column ≤ column)
    && (line < m.stop.line || line == m.stop.line && column < m.stop.column)

/-- The column of a line at which the arrow to a mark starts: the middle of the mark. -/
def middle (m : Mark) : Nat :=
  (m.start.column + m.stop.column) / 2

end Mark

end Monogram
