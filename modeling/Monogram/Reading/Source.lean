import Monogram.Reading.Statement

/-! # From source text to statements

`Source.read` gives the well-formed statements of a text and one diagnostic for each part that was
left out, in the order of the text.
-/

namespace Monogram

/-- A text that has been read. -/
structure Source where
  statements : List Stmt
  diagnostics : List Diagnostic

/-- In the order of the text; of two at the same place the one found while cutting tokens first. -/
def sortDiagnostics (diagnostics : List Diagnostic) : List Diagnostic :=
  diagnostics.mergeSort fun a b => a.span.start ≤ b.span.start

/-- Reads a text. -/
def Source.read (text : String) : Source :=
  let scan := Scan.ofText text
  let (reading, notes) := NotingReader.bounded Reader.program scan.tokens
  { statements :=
      match reading with
      | .done statements _ => statements
      | _ => []
    diagnostics := sortDiagnostics (scan.diagnostics ++ notes.map (Refusal.diagnostic scan.stop)) }

end Monogram
