import Monogram.Code.Basic
import Monogram.Table
import Monogram.Tree.Stmt

/-! # Programs

What a text becomes: the classes that it declares, each with the code of its methods, and the code
of its statements.  What stands in for a method's body is a parameter of a class, code unless another
one is named.
-/

namespace Monogram

/-- A method as code.  Its parameters have names and never get a value. -/
structure MethodImage (β : Type := Code) where
  code : β
  visibility : Visibility
  parameters : List String
  returnType : TypeCode
deriving Repr, Inhabited

/-- A declared field. -/
structure FieldImage where
  typeCode : TypeCode
  visibility : Visibility
deriving Repr, Inhabited

/-- A class as code. -/
structure ClassImage (β : Type := Code) where
  name : String
  id : ClassId
  superclass : Option String
  interfaces : List String
  methods : Table (MethodImage β)
  staticMethods : Table (MethodImage β)
  fields : Table FieldImage
  staticFields : Table FieldImage
  /-- Runs once when the class is loaded, before the statements. -/
  staticInit : β
deriving Repr, Inhabited

/-- Instructions of all the code of a class. -/
def ClassImage.instructionCount (c : ClassImage) : Nat :=
  (c.methods.values ++ c.staticMethods.values).foldl (fun n m => n + m.code.size) c.staticInit.size

/-- A program. -/
structure Program where
  /-- Classes by name, in the order of their first declaration. -/
  classes : Table ClassImage
  main : Code
deriving Repr, Inhabited

/-- Instructions of all the code of a program. -/
def Program.instructionCount (p : Program) : Nat :=
  p.classes.values.foldl (fun n c => n + c.instructionCount) p.main.size

end Monogram
