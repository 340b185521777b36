import Monogram.Text.Position

/-! # Diagnostics

A problem found in a source text.  It does not end the work on the text: the part around it is
left out and the rest is used.
-/

namespace Monogram

/-- What is wrong. -/
inductive Diagnostic.Cause where
  /-- A character that begins no token. -/
  | unexpectedCharacter (text : String)
  /-- A string whose closing quote is missing. -/
  | unterminatedString
  /-- Another token than the grammar asks for; `found` is `none` at the end of the text. -/
  | unexpectedToken (expected : String) (found : Option String)
  /-- A type annotation that is not a small whole number. -/
  | invalidTypeCode (text : String)
  /-- A left side that nothing can be assigned to. -/
  | invalidAssignmentTarget
deriving DecidableEq, Repr

/-- A problem, the bytes it concerns and the line these start on. -/
structure Diagnostic where
  cause : Diagnostic.Cause
  span : Span
  line : Nat
deriving DecidableEq, Repr

namespace Diagnostic

/-- The problem in words. -/
def Cause.message : Cause → String
  | .unexpectedCharacter text => s!"unexpected character '{text}'"
  | .unterminatedString => "unterminated string"
  | .unexpectedToken expected found =>
    let shown := found.getD "end of input"
    s!"{expected}, found '{shown}'"
  | .invalidTypeCode text => s!"type code '{text}' is not a small whole number"
  | .invalidAssignmentTarget => "invalid assignment target"

/-- The problem in words, with its line. -/
def message (d : Diagnostic) : String :=
  s!"line {d.line}: {d.cause.message}"

end Diagnostic

end Monogram
