import Monogram.Diagnostic
import Monogram.Report.Ink
import Monogram.Report.Mark
import Monogram.Text.Blank
import Monogram.Text.Columns

/-! # Reports

A report shows a diagnostic in a frame: where it is, the lines it concerns, and its words at the end
of an arrow.  A mark on one line is underlined and the arrow starts in its middle.  A mark over
several lines is embraced by an arrow in the margin, and only its first and its last line are shown.

* `Diagnostic.report` — the rows of a report.
* `reportText` — the reports on a text.
-/

namespace Monogram

/-- How a character is drawn in a column of its line, and how many columns of the display it takes.
A tab reaches to the next multiple of four. -/
def drawnChar (c : Char) (column : Nat) : Char × Nat :=
  if c = '\t' then (' ', 4 - column % 4)
  else if isBlank c then (' ', 1)
  else (c, columnWidth c)

/-- The characters of a line that are drawn. -/
def drawnText (line : List Char) : List Char :=
  (line.reverse.dropWhile isBlank).reverse

/-- `count` copies of a character. -/
def repeated (c : Char) (count : Nat) : String :=
  String.ofList (List.replicate count c)

/-- The columns of the display taken by each of the first `count` characters of a line.  Behind its
end they take one each. -/
def drawnWidths (line : List Char) (count : Nat) : List Nat :=
  let widths := (drawnText line).mapIdx fun column c => (drawnChar c column).2
  (widths ++ List.replicate count 1).take count

/-- A row below the first `count` characters of a line.  Each of them has a piece, and a second one
to fill what it is wider than one column. -/
def rowBelow (line : List Char) (count : Nat) (pieces : Nat → Ink × Ink) : Row :=
  ((drawnWidths line count).mapIdx fun column width =>
    match width with
    | 0 => []
    | more + 1 => (pieces column).1 :: List.replicate more (pieces column).2).flatten

/-- A piece that belongs to the arrow. -/
def arrowInk (text : String) : Ink := ⟨some .accent, text⟩

/-- The margin of a line of the text, with its number. -/
def numberedMargin (width line : Nat) : Row :=
  let number := toString (line + 1)
  let padding := repeated ' ' (width - number.length)
  [.blank, ⟨some .frame, padding ++ number ++ " │"⟩, .blank]

/-- The margin of any other row. -/
def plainMargin (width : Nat) (bar : String) : Row :=
  [.blank, ⟨some .faintFrame, repeated ' ' (width + 1) ++ bar⟩, .blank]

/-- A line of the text, the marked part in the hue of the mark. -/
def sourceRow (m : Mark) (line : Nat) (text : List Char) : Row :=
  ((drawnText text).mapIdx fun column c =>
    let hue := if m.covers line column then Hue.accent else .unmarked
    let (drawn, width) := drawnChar c column
    if isBlank c then List.replicate width ⟨some hue, " "⟩
    else [⟨some hue, String.singleton drawn⟩]).flatten

/-- The row that underlines a mark; an empty mark has only the start of the arrow. -/
def underlineRow (m : Mark) (text : List Char) : Row :=
  rowBelow text (m.stop.column + 2) fun column =>
    let underlined : Bool := m.start.column ≤ column && column < m.stop.column
    if column = m.middle then
      if underlined then (arrowInk "┬", arrowInk "─") else (arrowInk "│", arrowInk " ")
    else if underlined then (arrowInk "─", arrowInk "─")
    else (.blank, .blank)

/-- The row of the arrow from the middle of a mark to its words. -/
def arrowRow (m : Mark) (text : List Char) : Row :=
  rowBelow text (m.stop.column + 2) fun column =>
    if column = m.middle then (arrowInk "╰", arrowInk "─")
    else if m.middle < column then (arrowInk "─", arrowInk "─")
    else (.blank, .blank)

/-- The rows of a mark on one line. -/
def inlineRows (width : Nat) (m : Mark) (text : List Char) (words : String) : List Row :=
  let margin := plainMargin width "│"
  [numberedMargin width m.start.line ++ sourceRow m m.start.line text,
   margin ++ underlineRow m text,
   margin ++ arrowRow m text ++ [.bare (" " ++ words)]]

/-- The rows of a mark over several lines, of which the first and the last one are given. -/
def blockRows (width : Nat) (m : Mark) (first last : List Char) (words : String) : List Row :=
  let margin := plainMargin width "│"
  let hook (corner : String) : Row := [corner, "─", "▶", " "].map arrowInk
  let skipped : Row :=
    plainMargin width "┆" ++ [arrowInk "┆", .blank, .blank, .blank]
  let reach := last.length + 2
  [numberedMargin width m.start.line ++ hook "╭" ++ sourceRow m m.start.line first]
    ++ (if m.start.line + 1 < m.stop.line then [skipped] else [])
    ++ [numberedMargin width m.stop.line ++ hook "├" ++ sourceRow m m.stop.line last,
        margin ++ [arrowInk "│", .blank, .blank, .blank]
          ++ rowBelow last reach (fun _ => (.blank, .blank)),
        margin ++ [arrowInk "╰", arrowInk "─", arrowInk "─", arrowInk "─"]
          ++ rowBelow last reach (fun _ => (arrowInk "─", arrowInk "─"))
          ++ [.bare (" " ++ words)]]

/-- The rows of a report on a text that is called `name` and has these lines. -/
def Diagnostic.report (d : Diagnostic) (name : String) (lines : List (List Char)) : List Row :=
  let m := Mark.ofSpan lines d.span
  let words := d.cause.message
  let width := (toString (m.stop.line + 1)).length
  let indent := repeated ' ' (width + 2)
  let text (line : Nat) : List Char := (lines[line]?).getD []
  let line := m.start.line + 1
  let column := m.start.column + 1
  let frame (text : String) : Ink := ⟨some .frame, text⟩
  [[arrowInk "Error:", .bare (" " ++ d.message)],
   [.bare indent, frame "╭", frame "─", frame "[", .bare s!" {name}:{line}:{column} ", frame "]"],
   [.bare indent, frame "│"]]
    ++ (if m.onOneLine then inlineRows width m (text m.start.line) words
        else blockRows width m (text m.start.line) (text m.stop.line) words)
    ++ [[frame (repeated '─' (width + 2) ++ "╯")]]

/-- The reports on a text that is called `name`, one after the other. -/
def reportText (colored : Bool) (name text : String) (diagnostics : List Diagnostic) : String :=
  let lines := shownLines text.toList
  let rows := diagnostics.flatMap fun d => d.report name lines
  String.join (rows.map (if colored then Row.colored else Row.plain))

end Monogram
