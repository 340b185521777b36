import Monogram.Diagnostic
import Monogram.Token.Basic

/-! # From text to tokens

The text is cut from left to right into pieces, each as long as possible: gaps (blanks and
comments), tokens, strings without an end, and single characters that begin no token.  Up to two
header lines in front of everything are passed over.

* `pieceAt` — the piece at a place, and how many characters it takes.
* `Scan.ofText` — tokens, diagnostics and the end of a text.
-/

namespace Monogram

/-- A place between two characters: bytes before it, and its line. -/
structure Place where
  offset : Nat
  line : Nat
deriving DecidableEq, Repr, Inhabited

/-- The place behind `text` when the text begins at `p`. -/
def Place.after (p : Place) (text : List Char) : Place :=
  ⟨p.offset + byteCount text, p.line + newlineCount text⟩

/-- What is found at a place of the text. -/
inductive Piece where
  | gap
  | token (kind : Token.Kind)
  | unterminated
  | unexpected
deriving DecidableEq, Repr

/-- The characters that separate tokens: blank, tab, carriage return, line feed, form feed. -/
def isGap (c : Char) : Bool :=
  c = ' ' || c = '\t' || c = '\r' || c = '\n' || c = '\x0c'

/-- Symbols of one character. -/
def singleSymbol? (c : Char) : Option Symbol :=
  match c with
  | '(' => some .openParen
  | ')' => some .closeParen
  | '\x7b' => some .openBrace
  | '\x7d' => some .closeBrace
  | '[' => some .openBracket
  | ']' => some .closeBracket
  | ',' => some .comma
  | ':' => some .colon
  | '.' => some .dot
  | '+' => some .plus
  | '-' => some .minus
  | '*' => some .star
  | '/' => some .slash
  | '%' => some .percent
  | '^' => some .caret
  | '@' => some .at
  | '!' => some .bang
  | '=' => some .equal
  | '<' => some .less
  | '>' => some .greater
  | _ => none

/-- Symbols of two characters. -/
def doubleSymbol? (c d : Char) : Option Symbol :=
  match c, d with
  | '!', '=' => some .bangEqual
  | '=', '=' => some .equalEqual
  | '<', '=' => some .lessEqual
  | '>', '=' => some .greaterEqual
  | '&', '&' => some .andAnd
  | '|', '|' => some .orOr
  | _, _ => none

/-- The longest symbol that starts with `c`, and how many characters of `rest` belong to it. -/
def symbolAt? (c : Char) (rest : List Char) : Option (Symbol × Nat) :=
  match rest.head?.bind (doubleSymbol? c) with
  | some s => some (s, 1)
  | none => (singleSymbol? c).map (·, 0)

/-- How far a number reaches behind its first digit.  A point belongs to it only before a digit. -/
def numberExtent (rest : List Char) : Nat :=
  let whole := (rest.takeWhile Char.isDigit).length
  match rest.drop whole with
  | '.' :: d :: more =>
    if d.isDigit then whole + 2 + (more.takeWhile Char.isDigit).length else whole
  | _ => whole

/-- The piece that starts with `c`, and how many characters of `rest` belong to it. -/
def pieceAt (c : Char) (rest : List Char) : Piece × Nat :=
  if isGap c then (.gap, (rest.takeWhile isGap).length)
  else if c = '/' && rest.head? = some '/' then (.gap, (rest.takeWhile (· != '\n')).length)
  else if c.isDigit then (.token .number, numberExtent rest)
  else if c.isAlpha then
    let extent := (rest.takeWhile Char.isAlphanum).length
    (.token (.ofWord (c :: rest.take extent)), extent)
  else if c = '"' then
    let body := (rest.takeWhile (· != '"')).length
    if body < rest.length then (.token .string, body + 1) else (.unterminated, body)
  else
    match symbolAt? c rest with
    | some (s, extent) => (.token (.symbol s), extent)
    | none => (.unexpected, 0)

/-- A token or a diagnostic, in the order of the text. -/
inductive Scan.Item where
  | token (t : Token)
  | diagnostic (d : Diagnostic)
deriving DecidableEq, Repr

/-- What a piece with this text leaves behind; gaps leave nothing. -/
def Piece.item? (piece : Piece) (lexeme : List Char) (origin : Place) : Option Scan.Item :=
  let span : Span := ⟨origin.offset, origin.offset + byteCount lexeme⟩
  match piece with
  | .gap => none
  | .token kind => some (.token ⟨kind, String.ofList lexeme, span, origin.line⟩)
  | .unterminated => some (.diagnostic ⟨.unterminatedString, span, origin.line⟩)
  | .unexpected =>
    some (.diagnostic ⟨.unexpectedCharacter (String.ofList lexeme), span, origin.line⟩)

namespace Scan

/-- The tokens and diagnostics of a text that begins at `place`. -/
def items (place : Place) : List Char → List Item
  | [] => []
  | c :: rest =>
    let (piece, extent) := pieceAt c rest
    let lexeme := c :: rest.take extent
    (piece.item? lexeme place).toList ++ items (place.after lexeme) (rest.drop extent)
termination_by text => text.length
decreasing_by simp only [List.length_drop, List.length_cons]; omega

/-- Characters of a header line that starts with `mark`, its line break included. -/
def headerLength (mark text : List Char) : Nat :=
  if mark.isPrefixOf text then (text.takeWhile (· != '\n')).length + 1 else 0

/-- Characters of the header lines: one for the command interpreter, then one that names the
language, both optional. -/
def preambleLength (text : List Char) : Nat :=
  let first := headerLength "#!".toList text
  first + headerLength "#alphabet".toList (text.drop first)

/-- The token of an item. -/
def Item.token? : Item → Option Token
  | .token t => some t
  | .diagnostic _ => none

/-- The diagnostic of an item. -/
def Item.diagnostic? : Item → Option Diagnostic
  | .token _ => none
  | .diagnostic d => some d

end Scan

/-- The tokens of a text, what could not be cut into tokens, and the place where the text ends. -/
structure Scan where
  tokens : List Token
  diagnostics : List Diagnostic
  stop : Place

/-- Cuts a whole text. -/
def Scan.ofText (source : String) : Scan :=
  let text := source.toList
  let start : Place := ⟨0, 1⟩
  let preamble := Scan.preambleLength text
  let items := Scan.items (start.after (text.take preamble)) (text.drop preamble)
  { tokens := items.filterMap Scan.Item.token?
    diagnostics := items.filterMap Scan.Item.diagnostic?
    stop := start.after text }

end Monogram
