import Monogram.Token.Scan

/-! # Open brackets

An editor takes an entry as complete when no bracket and no string is left open in it.  For this it
cuts the entry into pieces of its own, each as long as possible and most of them longer than tokens.
Brackets in strings and comments do not count, and any closing bracket closes any opening one.

* `entryPieceAt` — the piece at a place, and how many characters it takes.
* `openBrackets?` — how many brackets are open at the end of an entry, unless a string is.
-/

namespace Monogram

/-- What is found at a place of an entry. -/
inductive EntryPiece where
  | blank
  | opening
  | closing
  | comment
  | string
  | slash
  | plain
  /-- A quote that nothing closes. -/
  | unclosed
deriving DecidableEq, Repr

/-- Round, square and curly brackets that open. -/
def isOpening (c : Char) : Bool :=
  c = '(' || c = '[' || c = '\x7b'

/-- Round, square and curly brackets that close. -/
def isClosing (c : Char) : Bool :=
  c = ')' || c = ']' || c = '\x7d'

/-- The characters of words, numbers, symbols and whatever else has no part in how an entry ends. -/
def isPlain (c : Char) : Bool :=
  !(isGap c || isOpening c || isClosing c || c = '"' || c = '/')

/-- The piece of an entry that starts with `c`, and how many characters of `rest` belong to it. -/
def entryPieceAt (c : Char) (rest : List Char) : EntryPiece × Nat :=
  if isGap c then (.blank, (rest.takeWhile isGap).length)
  else if isOpening c then (.opening, 0)
  else if isClosing c then (.closing, 0)
  else if c = '/' then
    if rest.head? = some '/' then (.comment, (rest.takeWhile (· != '\n')).length) else (.slash, 0)
  else if c = '"' then
    let body := (rest.takeWhile (· != '"')).length
    if body < rest.length then (.string, body + 1) else (.unclosed, body)
  else (.plain, (rest.takeWhile isPlain).length)

/-- Opening brackets less closing brackets behind a piece; none when it leaves a string open. -/
def EntryPiece.depth? (piece : EntryPiece) (depth : Int) : Option Int :=
  match piece with
  | .opening => some (depth + 1)
  | .closing => some (depth - 1)
  | .blank | .comment | .string | .slash | .plain => some depth
  | .unclosed => none

/-- Opening brackets less closing brackets at the end of a text with `depth` in front of it; none
when a string is left open. -/
def entryDepth? (depth : Int) : List Char → Option Int
  | [] => some depth
  | c :: rest =>
    let (piece, extent) := entryPieceAt c rest
    match piece.depth? depth with
    | none => none
    | some depth => entryDepth? depth (rest.drop extent)
termination_by text => text.length
decreasing_by simp only [List.length_drop, List.length_cons]; omega

/-- How many brackets are open at the end of `entry`, where more closing than opening ones count as
zero; none when a string is left open. -/
def openBrackets? (entry : String) : Option Nat :=
  (entryDepth? 0 entry.toList).map Int.toNat

end Monogram
