import Monogram.Token.Scan

/-! # Highlighting

An editor shows the tokens of a text in colors.  What stands between tokens is plain up to the first
comment mark and dimmed from there on.

* `highlight` — the text in colored segments, in order.
-/

namespace Monogram

/-- Colors of a terminal. -/
inductive Color where
  | white | magenta | cyan | green | yellow | darkGray
deriving DecidableEq, Repr

/-- A stretch of text in one color. -/
structure Segment where
  color : Color
  text : String
deriving DecidableEq, Repr

/-- The color of a token.  A name that starts with a capital letter is taken as a class. -/
def Token.color (t : Token) : Color :=
  match t.kind with
  | .number => .cyan
  | .string => .green
  | .keyword _ => .magenta
  | .identifier => if (t.lexeme.toList.head?).any Char.isUpper then .yellow else .white
  | .symbol _ => .white

/-- A text cut in front of its first comment mark. -/
def cutAtComment : List Char → List Char × List Char
  | [] => ([], [])
  | c :: rest =>
    if c = '/' ∧ rest.head? = some '/' then ([], c :: rest)
    else
      let (plain, comment) := cutAtComment rest
      (c :: plain, comment)

/-- The segments of what stands between two tokens. -/
def gapSegments (gap : List Char) : List Segment :=
  if gap.isEmpty then []
  else
    match cutAtComment gap with
    | (_, []) => [⟨.white, String.ofList gap⟩]
    | (plain, comment) => [⟨.white, String.ofList plain⟩, ⟨.darkGray, String.ofList comment⟩]

/-- The segments of a text that begins behind `offset` bytes and has these tokens.  A token that
starts further ahead is passed over. -/
def segmentsFrom (offset : Nat) (text : List Char) : List Token → List Segment
  | [] => gapSegments text
  | t :: tokens =>
    if t.span.start < offset then segmentsFrom offset text tokens
    else
      let (gap, behind) := splitBytes (t.span.start - offset) text
      let (lexeme, rest) := splitBytes (t.span.stop - t.span.start) behind
      gapSegments gap ++ ⟨t.color, String.ofList lexeme⟩ :: segmentsFrom t.span.stop rest tokens

/-- A text in colors. -/
def highlight (text : String) : List Segment :=
  segmentsFrom 0 text.toList (Scan.ofText text).tokens

/-- A cut at a comment loses nothing. -/
theorem cutAtComment_append (text : List Char) :
    (cutAtComment text).1 ++ (cutAtComment text).2 = text := by
  induction text with
  | nil => rfl
  | cons c rest ih =>
    by_cases h : c = '/' ∧ rest.head? = some '/'
    · simp [cutAtComment, h]
    · simp [cutAtComment, h, ih]

end Monogram
