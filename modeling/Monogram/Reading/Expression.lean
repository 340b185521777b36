import Monogram.Reading.Basic

/-! # Reading expressions

The levels of precedence, from the loosest: assignment (to the right), the six levels of `levels`
(to the left), prefix operators, calls and members and indexes behind a primary expression.

Only what stands in brackets starts over from the loosest level.  Each level is therefore a reader
that is given the reader `whole` for what stands in brackets, and `expressionAt` ties the knot once:
its number bounds the depth of brackets.
-/

namespace Monogram.Reader

/-- An operator between two operands makes an expression of them. -/
abbrev Connective := Token.Kind → Option (Expr → Expr → Expr)

/-- The levels of operators between operands, loosest first. -/
def levels : List Connective :=
  [fun
    | .symbol .orOr => some (.logical .or)
    | _ => none,
   fun
    | .symbol .andAnd => some (.logical .and)
    | _ => none,
   fun
    | .symbol .equalEqual => some (.binary (.comparison .eq))
    | .symbol .bangEqual => some (.binary (.comparison .ne))
    | _ => none,
   fun
    | .symbol .greater => some (.binary (.comparison .gt))
    | .symbol .greaterEqual => some (.binary (.comparison .ge))
    | .symbol .less => some (.binary (.comparison .lt))
    | .symbol .lessEqual => some (.binary (.comparison .le))
    | _ => none,
   fun
    | .symbol .plus => some (.binary (.arithmetic .add))
    | .symbol .minus => some (.binary (.arithmetic .sub))
    | _ => none,
   fun
    | .symbol .star => some (.binary (.arithmetic .mul))
    | .symbol .slash => some (.binary (.arithmetic .div))
    | .symbol .percent => some (.binary (.arithmetic .rem))
    | _ => none]

/-- The prefix operators. -/
def prefixOp? : Token.Kind → Option UnaryOp
  | .symbol .bang => some .not
  | .symbol .minus => some .negate
  | .symbol .at => some .at
  | _ => none

/-- A key, a colon and a value. -/
def mapEntry (whole : Reader Expr) : Reader (Expr × Expr) := do
  let key ← whole
  expect .colon "Expect ':' after map key"
  let value ← whole
  return (key, value)

/-- Arguments behind an opening bracket. -/
def arguments (whole : Reader Expr) : Reader (List Expr) :=
  commaList whole .closeParen "Expect ')' after arguments"

/-- A primary expression: a literal, a name, a new object, or something in brackets. -/
def primary (whole : Reader Expr) : Reader Expr := do
  match ← peek with
  | none => refuse "Expect expression"
  | some t =>
    match t.kind with
    | .number =>
      match t.number? with
      | some value => do
        advance
        return .number value
      | none => refuse "Expect number"
    | .string => do
      advance
      return .string (t.string?.getD "")
    | .keyword .newWord => do
      advance
      let className ← name "Expect class name after 'n'"
      if ← accept (.symbol .openParen) then
        return .construct className (← arguments whole)
      else
        return .construct className []
    | .keyword _ | .identifier => do
      advance
      return .variable t.lexeme
    | .symbol .openBracket => do
      advance
      return .list (← commaList whole .closeBracket "Expect ']' after list elements")
    | .symbol .openBrace => do
      advance
      return .map (← commaList (mapEntry whole) .closeBrace "Expect '\x7d' after map entries")
    | .symbol .openParen => do
      advance
      let inner ← whole
      expect .closeParen "Expect ')' after expression"
      return .grouping inner
    | _ => refuse "Expect expression"

/-- Calls, members and indexes behind an expression that has been read. -/
def suffixes (whole : Reader Expr) : Nat → Expr → Reader Expr
  | 0, _ => exhausted
  | bound + 1, e => do
    if ← accept (.symbol .openParen) then
      let args ← arguments whole
      suffixes whole bound (.call e args)
    else if ← accept (.symbol .dot) then
      let member ← name "Expect property name after '.'"
      suffixes whole bound (.member e member)
    else if ← accept (.symbol .openBracket) then
      let index ← whole
      expect .closeBracket "Expect ']' after index"
      suffixes whole bound (.index e index)
    else
      return e

/-- A primary expression and its suffixes. -/
def suffixed (whole : Reader Expr) : Reader Expr := do
  let e ← primary whole
  bounded fun bound => suffixes whole bound e

/-- Prefix operators in front of an operand. -/
def prefixed (operand : Reader Expr) : Reader Expr
  | [] => operand []
  | t :: rest =>
    match prefixOp? t.kind with
    | some op => (prefixed operand rest).andThen fun e rest => .done (.unary op e) rest
    | none => operand (t :: rest)

/-- Further operators of one level and their right operands. -/
def chain (level : Connective) (operand : Reader Expr) : Nat → Expr → Reader Expr
  | 0, _ => exhausted
  | bound + 1, left => do
    match (← peek).bind fun t => level t.kind with
    | none => return left
    | some join => do
      advance
      let right ← operand
      chain level operand bound (join left right)

/-- One level: operands that its operators join, grouped to the left. -/
def leftAssoc (level : Connective) (operand : Reader Expr) : Reader Expr := do
  let first ← operand
  bounded fun bound => chain level operand bound first

/-- All levels of operators between operands. -/
def operation (whole : Reader Expr) : Reader Expr :=
  levels.foldr leftAssoc (prefixed (suffixed whole))

/-- The assignment to a target: a variable, a member or an indexed element. -/
def assignTo? : Expr → Option (Expr → Expr)
  | .variable name => some (.assign name)
  | .member object name => some (.setMember object name)
  | .index object index => some (.setIndex object index)
  | _ => none

/-- A target and, behind an equals sign, its value, which may be an assignment itself. -/
def assignment (operand : Reader Expr) : Nat → Reader Expr
  | 0 => exhausted
  | bound + 1 => do
    let target ← operand
    match ← peek with
    | none => return target
    | some t =>
      if t.kind = .symbol .equal then
        advance
        let value ← assignment operand bound
        match assignTo? target with
        | some assign => return assign value
        | none => fun rest => .refused ⟨.target t, rest⟩
      else
        return target

/-- An expression with brackets nested less deep than the number. -/
def expressionAt : Nat → Reader Expr
  | 0 => exhausted
  | depth + 1 => bounded (assignment (operation (expressionAt depth)))

/-- An expression: no more brackets can be open than there are tokens. -/
def expression : Reader Expr := bounded expressionAt

end Monogram.Reader
