import Monogram.Code.Program
import Monogram.Lowering.Statement

/-! # Code of classes and programs

The classes of a program get their numbers first, so that code may refer to a class that is declared
further down.  Then statements and classes are lowered in the order of the text.

* `Names.lowerProgram` — the program, and the names known behind it.
-/

namespace Monogram

/-- What ends a method that does not end in a return. -/
def implicitReturn : List Instruction := [.push .nil, .giveBack]

/-- Whether the last instruction gives a value back. -/
def endsWithReturn (code : List Instruction) : Bool :=
  match code.getLast? with
  | some .giveBack => true
  | _ => false

/-- The code of a method. -/
def MethodDecl.lower (d : MethodDecl) (names : Names) :
    Except LoweringError (MethodImage × Names) := do
  let (body, names) ← lowerBlock d.body 0 names
  let code := if endsWithReturn body then body else body ++ implicitReturn
  return (⟨Code.ofInstructions code, d.visibility.getD .shown, d.parameters.map VarDecl.name,
    d.returnType⟩, names)

/-- The methods of a class: those of its objects and those of the class itself. -/
structure MethodTables where
  ofObjects : Table MethodImage
  ofClass : Table MethodImage

/-- Adds the methods in order; a later one replaces one of the same name and sort. -/
def lowerMethods : List MethodDecl → MethodTables → Names →
    Except LoweringError (MethodTables × Names)
  | [], tables, names => return (tables, names)
  | d :: rest, tables, names => do
    let (image, names) ← d.lower names
    let tables :=
      if d.isStatic then { tables with ofClass := tables.ofClass.insert d.name image }
      else { tables with ofObjects := tables.ofObjects.insert d.name image }
    lowerMethods rest tables names

/-- A field as it is recorded. -/
def VarDecl.image (d : VarDecl) : FieldImage :=
  ⟨d.typeCode, d.visibility.getD .shown⟩

/-- The fields that are static, or those that are not. -/
def fieldTable (isStatic : Bool) (fields : List VarDecl) : Table FieldImage :=
  Table.ofList ((fields.filter fun d => d.isStatic == isStatic).map fun d => (d.name, d.image))

/-- Stores the initial values of the static fields of a class, in order. -/
def lowerStaticInit (names : Names) (id : ClassId) :
    List VarDecl → Except LoweringError (List Instruction)
  | [] => return []
  | d :: rest => do
    match d.isStatic, d.initializer with
    | true, some initializer =>
      let value ← initializer.lower names
      let others ← lowerStaticInit names id rest
      return .push (.classRef id) :: value ++ [.storeStatic d.name, .pop] ++ others
    | _, _ => lowerStaticInit names id rest

/-- The code of a class with this number. -/
def ClassDecl.lower (d : ClassDecl) (id : ClassId) (names : Names) :
    Except LoweringError (ClassImage × Names) := do
  let (tables, names) ← lowerMethods d.methods ⟨∅, ∅⟩ names
  let staticInit ← lowerStaticInit names id d.fields
  return ({ name := d.name, id, superclass := d.superclass, interfaces := d.interfaces
            methods := tables.ofObjects, staticMethods := tables.ofClass
            fields := fieldTable false d.fields, staticFields := fieldTable true d.fields
            staticInit := Code.ofInstructions staticInit }, names)

/-- The class that a top-level statement declares, unless it is an interface. -/
def Stmt.class? : Stmt → Option ClassDecl
  | .classDecl d => if d.isInterface then none else some d
  | _ => none

/-- Numbers the classes that the statements declare. -/
def Names.addClasses (names : Names) (statements : List Stmt) : Names :=
  (statements.filterMap Stmt.class?).foldl (fun names d => names.addClass d.name) names

/-- What top-level statements become: the classes, and the code of what is no class. -/
structure TopCode where
  classes : Table ClassImage
  code : List Instruction

/-- Lowers top-level statements, whose code will stand at `address`, into the classes declared
before.  A class declared again replaces the earlier one. -/
def lowerTop : List Stmt → Table ClassImage → Nat → Names →
    Except LoweringError (TopCode × Names)
  | [], classes, _, names => return (⟨classes, []⟩, names)
  | .classDecl d :: rest, classes, address, names => do
    if d.isInterface then lowerTop rest classes address names
    else
      let (image, names) ← d.lower ((names.classId? d.name).getD firstClassId) names
      lowerTop rest (classes.insert d.name image) address names
  | s :: rest, classes, address, names => do
    let (first, names) ← s.lower address names
    let (others, names) ← lowerTop rest classes (address + first.length) names
    return ({ others with code := first ++ others.code }, names)

/-- The code of a program under names that earlier programs have left. -/
def Names.lowerProgram (names : Names) (statements : List Stmt) :
    Except LoweringError (Program × Names) := do
  let (top, names) ← lowerTop statements ∅ 0 (names.addClasses statements)
  return (⟨top.classes, Code.ofInstructions (top.code ++ [.halt])⟩, names)

end Monogram
