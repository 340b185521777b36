import Monogram.Token.Scan
import Monogram.Tree.Stmt

/-! # Readers

A reader takes what it can from the front of a list of tokens.  It is `done` with a value and the
tokens that are left, or it has `refused` the tokens, or it is `exhausted`: its bound on repetition
or nesting was too small, which the bounds chosen in this library never are.

* `Reader` — readers as a monad.
* `peek`, `check`, `accept`, `expect`, `name`, `typeCode` — readers for single tokens.
* `bounded`, `commaList` — repetition.
-/

namespace Monogram

/-- What a reader complains about. -/
inductive Refusal.Cause where
  /-- The grammar asks for something else than the next token. -/
  | expected (what : String)
  /-- This token, already taken, is no type annotation. -/
  | typeCode (token : Token)
  /-- The left side of this equals sign, already taken, cannot be assigned to. -/
  | target (equals : Token)
deriving DecidableEq, Repr

/-- A complaint, and the tokens from which reading may go on. -/
structure Refusal where
  cause : Refusal.Cause
  rest : List Token
deriving DecidableEq, Repr

/-- The diagnostic for a complaint, in a text that ends at `stop`. -/
def Refusal.diagnostic (stop : Place) (r : Refusal) : Diagnostic :=
  match r.cause with
  | .expected what =>
    match r.rest with
    | t :: _ => ⟨.unexpectedToken what (some t.lexeme), t.span, t.line⟩
    | [] => ⟨.unexpectedToken what none, ⟨stop.offset, stop.offset⟩, stop.line⟩
  | .typeCode t => ⟨.invalidTypeCode t.lexeme, t.span, t.line⟩
  | .target t => ⟨.invalidAssignmentTarget, t.span, t.line⟩

/-- What came of reading. -/
inductive Reading (α : Type) where
  | done (value : α) (rest : List Token)
  | refused (refusal : Refusal)
  | exhausted
deriving Repr

/-- Goes on with the value and the tokens left, if there are any. -/
def Reading.andThen {α β : Type} (r : Reading α) (next : α → List Token → Reading β) : Reading β :=
  match r with
  | .done value rest => next value rest
  | .refused refusal => .refused refusal
  | .exhausted => .exhausted

/-- A reader of values. -/
def Reader (α : Type) : Type := List Token → Reading α

namespace Reader

instance : Monad Reader where
  pure value := fun tokens => .done value tokens
  bind reader next := fun tokens => (reader tokens).andThen next

@[simp] theorem pure_apply {α : Type} (value : α) (tokens : List Token) :
    (pure value : Reader α) tokens = .done value tokens := rfl

@[simp] theorem bind_apply {α β : Type} (reader : Reader α) (next : α → Reader β)
    (tokens : List Token) : (reader >>= next) tokens = (reader tokens).andThen next := rfl

/-- The reader whose bound was too small. -/
def exhausted {α : Type} : Reader α := fun _ => .exhausted

/-- Refuses the next token. -/
def refuse {α : Type} (what : String) : Reader α := fun tokens => .refused ⟨.expected what, tokens⟩

/-- The next token, which stays. -/
def peek : Reader (Option Token) := fun tokens => .done tokens.head? tokens

/-- Takes one token, if there is one. -/
def advance : Reader Unit := fun tokens => .done () tokens.tail

/-- Whether the next token has this kind. -/
def check (kind : Token.Kind) : Reader Bool := fun tokens =>
  .done (tokens.head?.any fun t => t.kind == kind) tokens

/-- Whether no token is left. -/
def atEnd : Reader Bool := fun tokens => .done tokens.isEmpty tokens

/-- Takes the next token if it has this kind, and tells whether it had. -/
def accept (kind : Token.Kind) : Reader Bool := fun tokens =>
  match tokens with
  | t :: rest => if t.kind = kind then .done true rest else .done false tokens
  | [] => .done false []

/-- Takes a token of this kind; anything else is refused. -/
def expectToken (kind : Token.Kind) (what : String) : Reader Token := fun tokens =>
  match tokens with
  | t :: rest => if t.kind = kind then .done t rest else .refused ⟨.expected what, tokens⟩
  | [] => .refused ⟨.expected what, tokens⟩

/-- Takes this symbol; anything else is refused. -/
def expect (s : Symbol) (what : String) : Reader Unit := do
  let _ ← expectToken (.symbol s) what

/-- Takes a name: an identifier or a keyword. -/
def name (what : String) : Reader String := fun tokens =>
  match tokens with
  | t :: rest => if t.isName then .done t.lexeme rest else .refused ⟨.expected what, tokens⟩
  | [] => .refused ⟨.expected what, tokens⟩

/-- The type annotation that a number is: whole, from 0 to 65535. -/
def typeCode? (x : Number) : Option TypeCode :=
  let code := x.toFloat.toUInt16
  let whole := (Number.ofNat code.toNat).equal x
  if whole && Number.atMost 0 x && x.atMost 65535 then some code else none

/-- Takes a type annotation. -/
def typeCode (what : String) : Reader TypeCode := fun tokens =>
  (expectToken .number what tokens).andThen fun t rest =>
    match t.number?.bind typeCode? with
    | some code => .done code rest
    | none => .refused ⟨.typeCode t, rest⟩

/-- The value, or nothing and no token taken when `reader` refuses. -/
def optional {α : Type} (reader : Reader α) : Reader (Option α) := fun tokens =>
  match reader tokens with
  | .done value rest => .done (some value) rest
  | .refused _ => .done none tokens
  | .exhausted => .exhausted

/-- A repetition bounded by the number of tokens left: each round takes at least one. -/
def bounded {α : Type} (repetition : Nat → Reader α) : Reader α := fun tokens =>
  repetition (tokens.length + 1) tokens

/-- One item, and another one after each comma. -/
def commaItems {α : Type} (item : Reader α) : Nat → Reader (List α)
  | 0 => exhausted
  | bound + 1 => do
    let first ← item
    if ← accept (.symbol .comma) then
      let others ← commaItems item bound
      return first :: others
    else
      return [first]

/-- Items between commas, possibly none, up to and including a closing symbol. -/
def commaList {α : Type} (item : Reader α) (close : Symbol) (what : String) :
    Reader (List α) := do
  let items ← if ← check (.symbol close) then pure [] else bounded (commaItems item)
  expect close what
  return items

end Reader

end Monogram
