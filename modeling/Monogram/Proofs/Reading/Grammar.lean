import Monogram.Reading.Expression

/-! # The grammar of expressions

Which tokens derive which expression, without a word about how they are read.  Every relation speaks
about a list of tokens as a whole; only a call is told from a construction with arguments by what it
stands behind.

* `Bracketed`, `Separated`, `Listed` — brackets and commas around anything.
* `Assignment`, `Operation`, `Prefixed`, `Suffixed`, `Primary` — the levels, loosest first.
* `Ends` — what cannot carry an expression on.
-/

namespace Monogram.Grammar

/-- The first token is of this kind. -/
def Heads (kind : Token.Kind) (ts : List Token) : Prop := ∃ t rest, ts = t :: rest ∧ t.kind = kind

/-! ## Brackets and commas -/

section

variable {α : Type}

/-- Something between two brackets. -/
inductive Bracketed (opening closing : Symbol) (inside : List Token → α → Prop) :
    List Token → α → Prop where
  | mk {first last : Token} {ts : List Token} {a : α} (opens : first.kind = .symbol opening)
      (inner : inside ts a) (closes : last.kind = .symbol closing) :
      Bracketed opening closing inside (first :: ts ++ [last]) a

/-- One item or more, with a comma between any two. -/
inductive Separated (item : List Token → α → Prop) : List Token → List α → Prop where
  | last {ts : List Token} {a : α} (first : item ts a) : Separated item ts [a]
  | more {ts rest : List Token} {comma : Token} {a : α} {as : List α} (first : item ts a)
      (kind : comma.kind = .symbol .comma) (others : Separated item rest as) :
      Separated item (ts ++ comma :: rest) (a :: as)

/-- Any number of items, with a comma between any two. -/
inductive Listed (item : List Token → α → Prop) : List Token → List α → Prop where
  | none : Listed item [] []
  | some {ts : List Token} {as : List α} (items : Separated item ts as) : Listed item ts as

end

/-! ## Operators -/

/-- The operators between operands and their levels, the loosest first. -/
inductive Joins : Nat → Symbol → (Expr → Expr → Expr) → Prop where
  | or : Joins 0 .orOr (.logical .or)
  | and : Joins 1 .andAnd (.logical .and)
  | eq : Joins 2 .equalEqual (.binary (.comparison .eq))
  | ne : Joins 2 .bangEqual (.binary (.comparison .ne))
  | gt : Joins 3 .greater (.binary (.comparison .gt))
  | ge : Joins 3 .greaterEqual (.binary (.comparison .ge))
  | lt : Joins 3 .less (.binary (.comparison .lt))
  | le : Joins 3 .lessEqual (.binary (.comparison .le))
  | add : Joins 4 .plus (.binary (.arithmetic .add))
  | sub : Joins 4 .minus (.binary (.arithmetic .sub))
  | mul : Joins 5 .star (.binary (.arithmetic .mul))
  | div : Joins 5 .slash (.binary (.arithmetic .div))
  | rem : Joins 5 .percent (.binary (.arithmetic .rem))

/-- The operators in front of an operand. -/
inductive Prefixes : Symbol → UnaryOp → Prop where
  | not : Prefixes .bang .not
  | negate : Prefixes .minus .negate
  | at : Prefixes .at .at

/-- What may be assigned to: a variable, a member or an element. -/
inductive Assigns : Expr → (Expr → Expr) → Prop where
  | variable (name : String) : Assigns (.variable name) (.assign name)
  | member (object : Expr) (name : String) : Assigns (.member object name) (.setMember object name)
  | index (object index : Expr) : Assigns (.index object index) (.setIndex object index)

/-! ## The levels -/

/-- The keyword of a construction and the name of a class, with nothing behind. -/
def Bare (ts : List Token) : Prop := ∃ n t, ts = [n, t] ∧ n.kind = .keyword .newWord

mutual

/-- An assignment, which groups to the right, or an operation. -/
inductive Assignment : List Token → Expr → Prop where
  | operation {ts : List Token} {e : Expr} (derives : Operation 0 ts e) : Assignment ts e
  | assign {ts vs : List Token} {equals : Token} {target value : Expr} {assign : Expr → Expr}
      (first : Suffixed ts target) (assigns : Assigns target assign)
      (kind : equals.kind = .symbol .equal) (second : Assignment vs value) :
      Assignment (ts ++ equals :: vs) (assign value)

/-- Operands and the operators of this level or a tighter one, which group to the left. -/
inductive Operation : Nat → List Token → Expr → Prop where
  | tighter {n : Nat} {ts : List Token} {e : Expr} (derives : Operation (n + 1) ts e) :
      Operation n ts e
  | join {n : Nat} {ls rs : List Token} {op : Token} {s : Symbol} {join : Expr → Expr → Expr}
      {left right : Expr} (first : Operation n ls left) (kind : op.kind = .symbol s)
      (joins : Joins n s join) (second : Operation (n + 1) rs right) :
      Operation n (ls ++ op :: rs) (join left right)
  | operand {ts : List Token} {e : Expr} (derives : Prefixed ts e) : Operation 6 ts e

/-- Prefix operators in front of an operand. -/
inductive Prefixed : List Token → Expr → Prop where
  | op {t : Token} {s : Symbol} {op : UnaryOp} {ts : List Token} {e : Expr}
      (kind : t.kind = .symbol s) (prefixes : Prefixes s op) (derives : Prefixed ts e) :
      Prefixed (t :: ts) (.unary op e)
  | suffixed {ts : List Token} {e : Expr} (derives : Suffixed ts e) : Prefixed ts e

/-- A primary expression with calls, members and indexes behind it.  An opening parenthesis behind a
class name that is constructed belongs to the construction. -/
inductive Suffixed : List Token → Expr → Prop where
  | primary {ts : List Token} {e : Expr} (derives : Primary ts e) : Suffixed ts e
  | suffix {ts fs : List Token} {e e' : Expr} (object : Suffixed ts e) (suffix : Suffix fs e e')
      (apart : Bare ts → ¬ Heads (.symbol .openParen) fs) : Suffixed (ts ++ fs) e'

/-- What a call, a member or an index makes of the expression in front of it. -/
inductive Suffix : List Token → Expr → Expr → Prop where
  | call {ts : List Token} {callee : Expr} {args : List Expr}
      (derives : Bracketed .openParen .closeParen (Listed Assignment) ts args) :
      Suffix ts callee (.call callee args)
  | member {dot t : Token} {object : Expr} (kind : dot.kind = .symbol .dot) (name : t.isName) :
      Suffix [dot, t] object (.member object t.lexeme)
  | index {ts : List Token} {object index : Expr}
      (derives : Bracketed .openBracket .closeBracket Assignment ts index) :
      Suffix ts object (.index object index)

/-- A literal, a name, a construction, or something in brackets. -/
inductive Primary : List Token → Expr → Prop where
  | number {t : Token} {value : Number} (reads : t.number? = some value) : Primary [t] (.number value)
  | string {t : Token} {text : String} (reads : t.string? = some text) : Primary [t] (.string text)
  | name {t : Token} (name : t.isName) (other : t.kind ≠ .keyword .newWord) :
      Primary [t] (.variable t.lexeme)
  | construct {n t : Token} (kind : n.kind = .keyword .newWord) (name : t.isName) :
      Primary [n, t] (.construct t.lexeme [])
  | constructWith {n t : Token} {ts : List Token} {args : List Expr}
      (kind : n.kind = .keyword .newWord) (name : t.isName)
      (derives : Bracketed .openParen .closeParen (Listed Assignment) ts args) :
      Primary (n :: t :: ts) (.construct t.lexeme args)
  | list {ts : List Token} {items : List Expr}
      (derives : Bracketed .openBracket .closeBracket (Listed Assignment) ts items) :
      Primary ts (.list items)
  | map {ts : List Token} {entries : List (Expr × Expr)}
      (derives : Bracketed .openBrace .closeBrace (Listed Entry) ts entries) :
      Primary ts (.map entries)
  | grouping {ts : List Token} {inner : Expr}
      (derives : Bracketed .openParen .closeParen Assignment ts inner) : Primary ts (.grouping inner)

/-- A key, a colon and a value. -/
inductive Entry : List Token → Expr × Expr → Prop where
  | mk {ks vs : List Token} {colon : Token} {key value : Expr} (first : Assignment ks key)
      (kind : colon.kind = .symbol .colon) (second : Assignment vs value) :
      Entry (ks ++ colon :: vs) (key, value)

end

/-- The next token is none of those that carry an expression on: an opening parenthesis, a dot, an
opening square bracket, an equals sign, an operator between operands. -/
structure Ends (rest : List Token) : Prop where
  call : ¬ Heads (.symbol .openParen) rest
  member : ¬ Heads (.symbol .dot) rest
  index : ¬ Heads (.symbol .openBracket) rest
  assign : ¬ Heads (.symbol .equal) rest
  join : ∀ n s join, Joins n s join → ¬ Heads (.symbol s) rest

end Monogram.Grammar
