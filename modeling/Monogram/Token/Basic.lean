import Monogram.Number.Reading
import Monogram.Text.Position

/-! # Tokens

The words of the language: brackets and operators, numbers, strings between double quotes, names,
and the seventeen keywords, each a single letter.

* `Token` — a kind, its text and its place.
* `Keyword.ofLetter?` — the keyword that a word is, if it is one.
* `Token.isName` — a keyword may stand wherever a name is expected.
-/

namespace Monogram

/-- Brackets, separators and operators. -/
inductive Symbol where
  | openParen | closeParen | openBrace | closeBrace | openBracket | closeBracket
  | comma | colon | dot
  | plus | minus | star | slash | percent | caret | at
  | bang | bangEqual | equal | equalEqual | less | lessEqual | greater | greaterEqual
  | andAnd | orOr
deriving DecidableEq, Repr, Inhabited

/-- The meanings of the single letters. -/
inductive Keyword where
  | ifWord | elseWord | loopWord | breakWord | continueWord | returnWord
  | classWord | abstractWord | interfaceWord | newWord
  | publicWord | privateWord | staticWord | methodWord
  | tryWord | handleWord | systemWord
deriving DecidableEq, Repr, Inhabited

/-- The letter of a keyword. -/
def Keyword.letter : Keyword → Char
  | .ifWord => 'i' | .elseWord => 'e' | .loopWord => 'l' | .breakWord => 'b'
  | .continueWord => 'k' | .returnWord => 'r' | .classWord => 'c' | .abstractWord => 'a'
  | .interfaceWord => 'j' | .newWord => 'n' | .publicWord => 'v' | .privateWord => 'p'
  | .staticWord => 's' | .methodWord => 'm' | .tryWord => 't' | .handleWord => 'h'
  | .systemWord => 'z'

/-- Every keyword. -/
def Keyword.all : List Keyword :=
  [.ifWord, .elseWord, .loopWord, .breakWord, .continueWord, .returnWord, .classWord,
   .abstractWord, .interfaceWord, .newWord, .publicWord, .privateWord, .staticWord, .methodWord,
   .tryWord, .handleWord, .systemWord]

/-- The keyword with this letter. -/
def Keyword.ofLetter? (c : Char) : Option Keyword :=
  Keyword.all.find? fun k => k.letter == c

@[simp] theorem Keyword.ofLetter?_letter (k : Keyword) : Keyword.ofLetter? k.letter = some k := by
  cases k <;> decide

/-- What a token is. -/
inductive Token.Kind where
  | symbol (s : Symbol)
  | keyword (k : Keyword)
  | identifier
  | number
  | string
deriving DecidableEq, Repr, Inhabited

/-- A token: its kind, its text as it stands in the source, its bytes and the line it starts on. -/
structure Token where
  kind : Token.Kind
  lexeme : String
  span : Span
  line : Nat
deriving DecidableEq, Repr, Inhabited

namespace Token

/-- The kind of a word: a keyword when it is one of the single letters. -/
def Kind.ofWord (word : List Char) : Kind :=
  match word with
  | [c] => ((Keyword.ofLetter? c).map Kind.keyword).getD .identifier
  | _ => .identifier

/-- Whether the token may stand where a name is expected. -/
def isName (t : Token) : Bool :=
  match t.kind with
  | .identifier | .keyword _ => true
  | _ => false

/-- The value of a number token. -/
def number? (t : Token) : Option Number :=
  match t.kind with
  | .number => readNumber? t.lexeme.toList
  | _ => none

/-- `text` without the quotes at its two ends. -/
def unquote (text : List Char) : List Char :=
  ((text.dropWhile (· == '"')).reverse.dropWhile (· == '"')).reverse

/-- The contents of a string token. -/
def string? (t : Token) : Option String :=
  match t.kind with
  | .string => some (String.ofList (unquote t.lexeme.toList))
  | _ => none

end Token

end Monogram
