import Monogram.Number.Basic

/-! # Expressions

The tree of an expression.  `Arithmetic` and `Comparison` are shared with the instructions that
carry them out.
-/

namespace Monogram

/-- The five arithmetic operators. -/
inductive Arithmetic where
  | add | sub | mul | div | rem
deriving DecidableEq, Repr, Inhabited

/-- The six comparisons. -/
inductive Comparison where
  | eq | ne | lt | gt | le | ge
deriving DecidableEq, Repr, Inhabited

/-- Operators with two operands whose result depends on both. -/
inductive BinaryOp where
  | arithmetic (op : Arithmetic)
  | comparison (op : Comparison)
deriving DecidableEq, Repr, Inhabited

/-- Operators that choose one of their operands. -/
inductive LogicalOp where
  | and | or
deriving DecidableEq, Repr, Inhabited

/-- Operators with one operand; `at` can be written but has no meaning. -/
inductive UnaryOp where
  | negate | not | at
deriving DecidableEq, Repr, Inhabited

/-- Expressions. -/
inductive Expr where
  | number (value : Number)
  | string (text : String)
  | grouping (inner : Expr)
  | variable (name : String)
  | assign (name : String) (value : Expr)
  | binary (op : BinaryOp) (left right : Expr)
  | logical (op : LogicalOp) (left right : Expr)
  | unary (op : UnaryOp) (operand : Expr)
  /-- `callee(arguments)` -/
  | call (callee : Expr) (arguments : List Expr)
  /-- `object.name` -/
  | member (object : Expr) (name : String)
  /-- `object.name = value` -/
  | setMember (object : Expr) (name : String) (value : Expr)
  /-- A new object of a class; arguments may be written and mean nothing. -/
  | construct (className : String) (arguments : List Expr)
  | list (items : List Expr)
  | map (entries : List (Expr × Expr))
  /-- `object[index]` -/
  | index (object index : Expr)
  /-- `object[index] = value` -/
  | setIndex (object index value : Expr)
deriving Repr, Inhabited

end Monogram
