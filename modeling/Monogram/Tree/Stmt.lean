import Monogram.Tree.Expr

/-! # Statements

Statements, and the variables, methods and classes that they declare.
-/

namespace Monogram

/-- A numeric type annotation.  It is recorded and never checked. -/
abbrev TypeCode := UInt16

/-- Who may use a member. -/
inductive Visibility where
  /-- Every part of a program. -/
  | shown
  /-- Methods of the class itself. -/
  | hidden
deriving DecidableEq, Repr, Inhabited

/-- A variable, a field or a parameter. -/
structure VarDecl where
  typeCode : TypeCode
  name : String
  initializer : Option Expr
  visibility : Option Visibility
  isStatic : Bool
deriving Repr, Inhabited

mutual

/-- Statements. -/
inductive Stmt where
  | expression (e : Expr)
  | declare (decl : VarDecl)
  | block (body : List Stmt)
  | ifThen (condition : Expr) (yes : Stmt)
  | ifElse (condition : Expr) (yes no : Stmt)
  | loop (condition : Expr) (body : Stmt)
  /-- Runs `body`; what is raised in it is bound to `binding` for `handler`. -/
  | tryHandle (body : List Stmt) (typeCode : TypeCode) (binding : String) (handler : List Stmt)
  | giveBack (value : Option Expr)
  | method (decl : MethodDecl)
  | classDecl (decl : ClassDecl)

/-- A method; an interface member is one with an empty body. -/
structure MethodDecl where
  name : String
  parameters : List VarDecl
  body : List Stmt
  returnType : TypeCode
  visibility : Option Visibility
  isStatic : Bool

/-- A class or an interface. -/
structure ClassDecl where
  name : String
  superclass : Option String
  methods : List MethodDecl
  fields : List VarDecl
  interfaces : List String
  isInterface : Bool

end

instance : Inhabited Stmt := ⟨.block []⟩

end Monogram
