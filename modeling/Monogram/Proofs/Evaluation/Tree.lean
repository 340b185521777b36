import Monogram.Lowering.Program
import Monogram.Proofs.Evaluation.Scene

/-! # Evaluation of trees

A direct evaluation of statements, without code.  The meaning of a name depends on the names declared
before it in the text, whether or not the declaration has been carried out; so the evaluation of a
statement takes the names known before it.

Loops and calls may go on for ever.  The evaluation is given a number that bounds how often each loop
is repeated and how deep calls go.

* `Expr.eval`, `Stmt.exec` — the evaluation of one tree.
* `Body.enter` — the evaluation of a method's body.
* `Names.evaluate` — the evaluation of a program.
-/

namespace Monogram

/-! ## Names declared by a statement -/

namespace Names

/-- Makes `name` a declared global. -/
def addGlobal (names : Names) (name : String) : Names :=
  { names with globals := names.globals.insert name }

/-- The slot that a declaration of `name` stores into. -/
def declaredSlot (names : Names) (name : String) : Nat :=
  (names.slot? name).getD names.globals.size

end Names

mutual

/-- The names known behind a statement. -/
def Stmt.declared : Stmt → Names → Names
  | .declare decl, names => names.addGlobal decl.name
  | .block body, names => declaredBlock body names
  | .ifThen _ yes, names => yes.declared names
  | .ifElse _ yes no, names => no.declared (yes.declared names)
  | .loop _ body, names => body.declared names
  | .tryHandle body _ binding handler, names =>
    declaredBlock handler ((declaredBlock body names).addGlobal binding)
  | .expression _, names | .giveBack _, names | .method _, names | .classDecl _, names => names

/-- The names known behind statements. -/
def declaredBlock : List Stmt → Names → Names
  | [], names => names
  | s :: rest, names => declaredBlock rest (s.declared names)

end

/-- The names known behind the methods of a class. -/
def ClassDecl.declared (d : ClassDecl) (names : Names) : Names :=
  d.methods.foldl (fun names method => declaredBlock method.body names) names

/-! ## Bodies -/

/-- What can be entered: a tree, and the names known before it. -/
inductive Body where
  | method (names : Names) (statements : List Stmt)
  /-- The initial values of the static fields of a class. -/
  | statics (names : Names) (id : ClassId) (fields : List VarDecl)

instance : Inhabited Body := ⟨.statics .empty 0 []⟩

/-- How a statement ends. -/
inductive Completion where
  | normal
  | returned (v : Value)

/-- What is entered by a call. -/
abbrev Enter := Body → Option Value → Eval Body Value

namespace Eval

variable {β : Type}

/-- The value of a name. -/
def read (names : Names) (name : String) : Eval β Value :=
  if name = "z" then pure .system
  else
    match names.slot? name, names.classId? name with
    | some slot, _ => readSlot slot
    | none, some id => pure (.classRef id)
    | none, none => readName name

/-- Stores into a name. -/
def write (names : Names) (name : String) (v : Value) : Eval β Value :=
  match names.slot? name with
  | some slot => writeSlot slot v
  | none => writeName name v

/-- An operator between two values. -/
def binary (op : BinaryOp) (a b : Value) : Eval β Value :=
  match op with
  | .arithmetic op => arithmetic op a b
  | .comparison op => compare op a b

/-- Repeats until there is a completion, at most so many times. -/
def repeatUntil (once : Eval β (Option Completion)) : Nat → Eval β Completion
  | 0 => unfinished
  | rounds + 1 => do
    match ← once with
    | some completion => return completion
    | none => repeatUntil once rounds

end Eval

/-! ## Expressions -/

/-- Calls `name` with values; one name prints. -/
def callMember (enter : Enter) (name : String) (receiver : Value) (values : List Value) :
    Eval Body Value :=
  if name = printMember then .print values else .invoke enter name receiver values

mutual

/-- The value of an expression. -/
def Expr.eval (enter : Enter) (names : Names) : Expr → Eval Body Value
  | .number value => return .number value
  | .string text => return .string text
  | .grouping inner => inner.eval enter names
  | .variable name => .read names name
  | .assign name value => do .write names name (← value.eval enter names)
  | .binary op left right => do
    let a ← left.eval enter names
    let b ← right.eval enter names
    .binary op a b
  | .logical op left right => do
    let a ← left.eval enter names
    let b ← right.eval enter names
    .choose op a b
  | .unary .at _ => .unfinished
  | .unary .negate operand => do .opposite (← operand.eval enter names)
  | .unary .not operand => do .negation (← operand.eval enter names)
  | .call (.member object name) args => do
    let receiver ← object.eval enter names
    let values ← evalAll enter names args
    callMember enter name receiver values
  | .call (.variable name) args => do
    let receiver ← .readName "this"
    let values ← evalAll enter names args
    callMember enter name receiver values
  | .call _ _ => .unfinished
  | .member object name =>
    match names.staticReceiver? object with
    | some id => .loadStatic (.classRef id) name
    | none => do .loadField (← object.eval enter names) name
  | .setMember object name value =>
    match names.staticReceiver? object with
    | some id => do .storeStatic (.classRef id) name (← value.eval enter names)
    | none => do
      let o ← object.eval enter names
      let v ← value.eval enter names
      .storeField o name v
  | .construct className args => do
    let _ ← evalAll enter names args
    .construct className
  | .list items => do .newList (← evalAll enter names items)
  | .map entries => do .newMap (← evalEntries enter names entries)
  | .index object index => do
    let container ← object.eval enter names
    let i ← index.eval enter names
    .loadIndex container i
  | .setIndex object index value => do
    let container ← object.eval enter names
    let i ← index.eval enter names
    let v ← value.eval enter names
    .storeIndex container i v

/-- The values of expressions from left to right. -/
def evalAll (enter : Enter) (names : Names) : List Expr → Eval Body (List Value)
  | [] => return []
  | e :: rest => do
    let v ← e.eval enter names
    let others ← evalAll enter names rest
    return v :: others

/-- The values of keys and values from left to right. -/
def evalEntries (enter : Enter) (names : Names) :
    List (Expr × Expr) → Eval Body (List (Value × Value))
  | [] => return []
  | (key, value) :: rest => do
    let k ← key.eval enter names
    let v ← value.eval enter names
    let others ← evalEntries enter names rest
    return (k, v) :: others

end

/-- The value of an optional expression, nil when there is none. -/
def evalOptional (enter : Enter) (names : Names) : Option Expr → Eval Body Value
  | some e => e.eval enter names
  | none => return .nil

/-! ## Statements -/

mutual

/-- Carries out a statement.  `rounds` bounds its loops. -/
def Stmt.exec (enter : Enter) (rounds : Nat) : Stmt → Names → Eval Body Completion
  | .expression e, names => do
    let _ ← e.eval enter names
    return .normal
  | .declare decl, names => do
    let v ← evalOptional enter names decl.initializer
    let _ ← .writeSlot (names.declaredSlot decl.name) v
    return .normal
  | .block body, names => execBlock enter rounds body names
  | .ifThen condition yes, names => do
    if ← .truthy (← condition.eval enter names) then yes.exec enter rounds names
    else return .normal
  | .ifElse condition yes no, names => do
    if ← .truthy (← condition.eval enter names) then yes.exec enter rounds names
    else no.exec enter rounds (yes.declared names)
  | .loop condition body, names =>
    .repeatUntil (do
      if ← .truthy (← condition.eval enter names) then
        match ← body.exec enter rounds names with
        | .normal => return none
        | .returned v => return some (.returned v)
      else return some .normal) rounds
  | .tryHandle body _ binding handler, names =>
    .rescue (execBlock enter rounds body names) fun v => do
      let known := declaredBlock body names
      let _ ← .writeSlot (known.declaredSlot binding) v
      execBlock enter rounds handler (known.addGlobal binding)
  | .giveBack value, names => return .returned (← evalOptional enter names value)
  | .method _, _ | .classDecl _, _ => return .normal

/-- Carries out statements one after the other, up to the first that gives a value back. -/
def execBlock (enter : Enter) (rounds : Nat) : List Stmt → Names → Eval Body Completion
  | [], _ => return .normal
  | s :: rest, names => do
    match ← s.exec enter rounds names with
    | .normal => execBlock enter rounds rest (s.declared names)
    | .returned v => return .returned v

end

/-- Stores the initial values of static fields, in order. -/
def evalStatics (enter : Enter) (names : Names) (id : ClassId) : List VarDecl → Eval Body Unit
  | [] => return ()
  | d :: rest => do
    match d.isStatic, d.initializer with
    | true, some initializer =>
      let v ← initializer.eval enter names
      let _ ← .storeStatic (.classRef id) d.name v
      evalStatics enter names id rest
    | _, _ => evalStatics enter names id rest

/-- The value of a body.  Without a return it is nil. -/
def Body.value (enter : Enter) (rounds : Nat) : Body → Eval Body Value
  | .method names statements => do
    match ← execBlock enter rounds statements names with
    | .normal => return .nil
    | .returned v => return v
  | .statics names id fields => do
    evalStatics enter names id fields
    return .nil

/-- Enters a body with a meaning of `this`. -/
def Body.enter : Nat → Enter
  | 0, _, _ => .unfinished
  | depth + 1, body, this => .within this (body.value (Body.enter depth) (depth + 1))

/-! ## Programs -/

/-- Carries out top-level statements; a class is no more than its declared names. -/
def execTop (enter : Enter) (rounds : Nat) : List Stmt → Names → Eval Body Completion
  | [], _ => return .normal
  | .classDecl d :: rest, names =>
    execTop enter rounds rest (if d.isInterface then names else d.declared names)
  | s :: rest, names => do
    match ← s.exec enter rounds names with
    | .normal => execTop enter rounds rest (s.declared names)
    | .returned v => return .returned v

/-- Adds the trees of methods in order; a later one replaces one of the same name and sort. -/
def methodTrees : List MethodDecl → Table (MethodImage Body) → Table (MethodImage Body) → Names →
    Table (MethodImage Body) × Table (MethodImage Body)
  | [], ofObjects, ofClass, _ => (ofObjects, ofClass)
  | d :: rest, ofObjects, ofClass, names =>
    let image : MethodImage Body :=
      ⟨.method names d.body, d.visibility.getD .shown, d.parameters.map VarDecl.name, d.returnType⟩
    let behind := declaredBlock d.body names
    if d.isStatic then methodTrees rest ofObjects (ofClass.insert d.name image) behind
    else methodTrees rest (ofObjects.insert d.name image) ofClass behind

/-- A class with trees for its methods. -/
def ClassDecl.tree (d : ClassDecl) (id : ClassId) (names : Names) : ClassImage Body :=
  let (methods, staticMethods) := methodTrees d.methods ∅ ∅ names
  { name := d.name, id, superclass := d.superclass, interfaces := d.interfaces
    methods, staticMethods
    fields := fieldTable false d.fields, staticFields := fieldTable true d.fields
    staticInit := .statics (d.declared names) id d.fields }

/-- The classes that top-level statements declare, by name.  A class declared again replaces the
earlier one. -/
def classTrees : List Stmt → Table (ClassImage Body) → Names → Table (ClassImage Body)
  | [], classes, _ => classes
  | .classDecl d :: rest, classes, names =>
    if d.isInterface then classTrees rest classes names
    else
      let image := d.tree ((names.classId? d.name).getD firstClassId) names
      classTrees rest (classes.insert d.name image) (d.declared names)
  | s :: rest, classes, names => classTrees rest classes (s.declared names)

/-- Carries out static initializers, class by class. -/
def evalInitializers (enter : Enter) (rounds : Nat) : List (ClassImage Body) → Eval Body Unit
  | [] => return ()
  | image :: rest => do
    let _ ← .within none (image.staticInit.value enter rounds)
    evalInitializers enter rounds rest

/-- Evaluates a program: loads its classes, carries out their static initializers, then its
statements, in which `this` has no meaning of its own. -/
def Names.evaluate (names : Names) (statements : List Stmt) (bound : Nat) : Eval Body Unit := do
  let names := names.addClasses statements
  let images := (classTrees statements ∅ names).values
  .alter fun scene => { scene with classes := images.foldl Registry.register scene.classes }
  evalInitializers (Body.enter bound) (bound + 1) images
  let _ ← .within none (execTop (Body.enter bound) (bound + 1) statements names)
  return ()

end Monogram
