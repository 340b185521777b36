import Monogram.Machine.System

/-! # Scenes

What a program works on, without operands and frames: the console, the classes, the heap, the
globals, and the object whose method runs.  A method's body may be anything here; it is code where a
machine runs and a tree where a tree is evaluated.

* `Eval` — what changes a scene and may raise a value, end in a fault, or not come to an end.
* `Eval.invoke` — a call, given what it means to enter a body.
-/

namespace Monogram

/-- What outlives a run. -/
structure World (β : Type := Code) where
  console : Console
  classes : Registry β
  heap : Heap β
  /-- Declared globals by slot. -/
  slots : Array Value
  /-- Globals that were stored into by name. -/
  globals : Table Value

/-- A world, and what the name `this` stands for in the body that runs. -/
structure Scene (β : Type := Code) extends World β where
  this : Option Value

/-- The name of the class of the object whose method runs. -/
def Scene.callerClass {β : Type} [Inhabited β] (scene : Scene β) : Option String :=
  match scene.this with
  | some (.object address) => some (scene.heap.object address).image.name
  | _ => none

/-- How an evaluation ends. -/
inductive Ending (β α : Type) where
  | done (a : α) (scene : Scene β)
  | raised (v : Value) (scene : Scene β)
  | faulted (f : Fault) (scene : Scene β)
  | unfinished

/-- What changes a scene. -/
def Eval (β α : Type) : Type := Scene β → Ending β α

namespace Eval

variable {β α γ : Type}

/-- Goes on with what the first evaluation gives, if it gives anything. -/
def bind (p : Eval β α) (q : α → Eval β γ) : Eval β γ := fun scene =>
  match p scene with
  | .done a scene => q a scene
  | .raised v scene => .raised v scene
  | .faulted f scene => .faulted f scene
  | .unfinished => .unfinished

instance : Monad (Eval β) where
  pure a := fun scene => .done a scene
  bind := Eval.bind

theorem pure_apply (a : α) (scene : Scene β) : (pure a : Eval β α) scene = .done a scene := rfl

theorem bind_apply (p : Eval β α) (q : α → Eval β γ) (scene : Scene β) :
    (p >>= q) scene =
      match p scene with
      | .done a scene => q a scene
      | .raised v scene => .raised v scene
      | .faulted f scene => .faulted f scene
      | .unfinished => .unfinished := rfl

/-- The scene. -/
def look : Eval β (Scene β) := fun scene => .done scene scene

/-- Changes the scene. -/
def alter (change : Scene β → Scene β) : Eval β Unit := fun scene => .done () (change scene)

/-- Ends in a fault. -/
def fault (f : Fault) : Eval β α := fun scene => .faulted f scene

/-- Raises a value. -/
def raise (v : Value) : Eval β α := fun scene => .raised v scene

/-- Does not come to an end. -/
def unfinished : Eval β α := fun _ => .unfinished

/-- The result of an operation on values, or its fault. -/
def lift (result : Except Fault α) : Eval β α :=
  match result with
  | .ok a => pure a
  | .error f => fault f

/-- Hands a raised value to a handler. -/
def rescue (p : Eval β α) (handler : Value → Eval β α) : Eval β α := fun scene =>
  match p scene with
  | .raised v scene => handler v scene
  | ending => ending

/-- Evaluates with another meaning of `this`, which does not outlast the evaluation. -/
def within (this : Option Value) (p : Eval β α) : Eval β α := fun scene =>
  match p { scene with this } with
  | .done a after => .done a { after with this := scene.this }
  | .raised v after => .raised v { after with this := scene.this }
  | .faulted f after => .faulted f { after with this := scene.this }
  | .unfinished => .unfinished

/-! ## Globals -/

/-- A declared global, zero before the first store. -/
def readSlot (slot : Nat) : Eval β Value := do
  return (← look).slots.getD slot .zero

/-- Stores into a declared global. -/
def writeSlot (slot : Nat) (v : Value) : Eval β Value := do
  alter fun scene =>
    let missing := slot + 1 - scene.slots.size
    let slots := scene.slots ++ Array.replicate missing Value.zero
    { scene with slots := slots.setIfInBounds slot v }
  return v

/-- The value of a name: of the body that runs, else of the named globals, else zero. -/
def readName (name : String) : Eval β Value := do
  let scene ← look
  let own := if name = "this" then scene.this else none
  return (own.or (scene.globals.find? name)).getD .zero

/-- Stores into the name of the body that runs if it has it, else into the named global. -/
def writeName (name : String) (v : Value) : Eval β Value := do
  alter fun scene =>
    if name = "this" ∧ scene.this.isSome then { scene with this := some v }
    else { scene with globals := scene.globals.insert name v }
  return v

/-! ## Operators -/

/-- Arithmetic. -/
def arithmetic (op : Arithmetic) (a b : Value) : Eval β Value := do
  match ← lift ((← look).heap.arithmetic op a b) with
  | .value v => return v
  | .newList items =>
    let (v, heap) := (← look).heap.allocList items
    alter fun scene => { scene with heap }
    return v

/-- A comparison. -/
def compare (op : Comparison) (a b : Value) : Eval β Value := do
  return .bool (← lift ((← look).heap.compare op a b))

/-- Whether a value counts as true. -/
def truthy (a : Value) : Eval β Bool := do
  return (← look).heap.truthy a

/-- Chooses one of two values by the first of them. -/
def choose (op : LogicalOp) (a b : Value) : Eval β Value := do
  let holds ← truthy a
  match op with
  | .and => return if holds then b else a
  | .or => return if holds then a else b

/-- The opposite truth value. -/
def negation (a : Value) : Eval β Value := do
  return .bool !(← truthy a)

/-- The opposite number. -/
def opposite (a : Value) : Eval β Value := lift (Heap.negate a)

/-! ## Lists and maps -/

/-- A new list. -/
def newList (items : List Value) : Eval β Value := do
  let (v, heap) := (← look).heap.allocList items.toArray
  alter fun scene => { scene with heap }
  return v

/-- A new map of keys and values. -/
def newMap (entries : List (Value × Value)) : Eval β Value := do
  let contents ← lift (Dict.ofEntries entries)
  let (v, heap) := (← look).heap.allocMap contents
  alter fun scene => { scene with heap }
  return v

/-- An element of a list or a map. -/
def loadIndex [Inhabited β] (container index : Value) : Eval β Value := do
  lift ((← look).heap.load container index)

/-- Stores into a list or a map. -/
def storeIndex (container index v : Value) : Eval β Value := do
  let change ← lift ((← look).heap.storing container index v)
  alter fun scene => { scene with heap := change scene.heap }
  return v

/-! ## Objects and classes -/

section Fields

variable [Inhabited β]

/-- A field of an object, unless it is hidden from the body that runs. -/
def loadField (object : Value) (field : String) : Eval β Value :=
  match object with
  | .object address => do
    let scene ← look
    lift (scene.classes.checkField (scene.heap.object address).image field scene.callerClass)
    return (scene.heap.object address).get field
  | _ => fault (.notAnObject field object.sort)

/-- Stores into a field of an object. -/
def storeField (object : Value) (field : String) (v : Value) : Eval β Value :=
  match object with
  | .object address => do
    let scene ← look
    lift (scene.classes.checkField (scene.heap.object address).image field scene.callerClass)
    alter fun scene =>
      { scene with heap := scene.heap.modifyObject address fun o => o.set field v }
    return v
  | _ => fault (.notAnObject field object.sort)

end Fields

/-- A static field of a class. -/
def loadStatic (c : Value) (field : String) : Eval β Value :=
  match c with
  | .classRef id => do lift ((← look).classes.getStatic id field)
  | _ => fault (.notAClass field c.sort)

/-- Stores into a static field of a class. -/
def storeStatic (c : Value) (field : String) (v : Value) : Eval β Value :=
  match c with
  | .classRef id => do
    let classes ← lift ((← look).classes.setStatic id field v)
    alter fun scene => { scene with classes }
    return v
  | _ => fault (.notAClass field c.sort)

/-- A new object of the class of this name. -/
def construct (className : String) : Eval β Value := do
  match (← look).classes.byName? className with
  | some image =>
    let (v, heap) := (← look).heap.allocObject ⟨image, ∅⟩
    alter fun scene => { scene with heap }
    return v
  | none => fault (.unknownClass className)

/-! ## The system object -/

/-- An answer of the console. -/
def consult (ask : Console → α × Console) : Eval β α := do
  let (answer, console) := ask (← look).console
  alter fun scene => { scene with console }
  return answer

theorem consult_apply (ask : Console → α × Console) (scene : Scene β) :
    consult ask scene = .done (ask scene.console).1 { scene with console := (ask scene.console).2 } := rfl

/-- Prints values between blanks, on a line of their own. -/
def print [Inhabited β] (values : List Value) : Eval β Value := do
  let line := String.intercalate " " (values.map (← look).heap.display)
  lift (← consult (·.print line))
  return .nil

/-- Reads a line of input. -/
def readLine : Eval β Value := do
  lift (← consult Console.readLine)

/-- Reads the file that the first argument names. -/
def readFile [Inhabited β] (arguments : List Value) : Eval β Value := do
  match arguments with
  | [] => fault (.missingArgument "f")
  | first :: _ =>
    let path := (← look).heap.display first
    lift (← consult (·.readFile path))

/-- The operation of this name. -/
def system [Inhabited β] (name : String) (arguments : List Value) : Eval β Value :=
  match name with
  | "o" => print arguments
  | "i" => readLine
  | "t" => raise (.string customError)
  | "f" => readFile arguments
  | _ => fault (.unknownSystemOperation name)

/-! ## Calls -/

/-- What a call leads to: a body to be entered with a meaning of `this`, or an ending without any. -/
inductive Callee (β : Type) where
  | body (b : β) (this : Option Value)
  | ending (ending : Ending β Value)

section Calls

variable [Inhabited β]

/-- What a call of a method of `receiver` leads to.  The body gets the receiver as `this`, or nothing
where the receiver is a class. -/
def callee (method : String) (receiver : Value) (arguments : List Value) (scene : Scene β) :
    Callee β :=
  match receiver with
  | .object address =>
    let image := (scene.heap.object address).image
    match scene.classes.resolveMethod image method scene.callerClass with
    | .ok body => .body body (some receiver)
    | .error f => .ending (.faulted f scene)
  | .classRef id =>
    match scene.classes.resolveStatic id method with
    | .ok body => .body body none
    | .error f => .ending (.faulted f scene)
  | .system => .ending (system method arguments scene)
  | _ => .ending (.faulted (.invalidReceiver method receiver.sort) scene)

/-- Calls a method of `receiver`. -/
def invoke (enter : β → Option Value → Eval β Value) (method : String) (receiver : Value)
    (arguments : List Value) : Eval β Value := fun scene =>
  match callee method receiver arguments scene with
  | .body body this => enter body this scene
  | .ending ending => ending

end Calls

end Eval

end Monogram
