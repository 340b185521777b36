import Monogram.Machine.System

/-! # One instruction

* `Action.raiseValue` — goes on in the innermost handler.
* `Action.call` — calls a method of an object, a class or the system object.
* `Action.step` — what an instruction does.
-/

namespace Monogram

/-- Whether the run goes on behind an instruction. -/
inductive Flow where
  | next
  | halt
deriving DecidableEq, Repr

namespace Action

/-- The handler installed last in the innermost frame that has one: what is left of that frame and
the frames below it. -/
def findHandler : List Frame → Option (Handler × Frame × List Frame)
  | [] => none
  | frame :: below =>
    match frame.handlers with
    | handler :: others => some (handler, { frame with handlers := others }, below)
    | [] => findHandler below

/-- Raises a value: frames without a handler end, and the handler finds the operands that were there
when it was installed, and the value.  Without any handler the run fails. -/
def raiseValue (v : Value) : Action Unit := do
  let m ← get
  match findHandler m.frames with
  | some (handler, frame, below) =>
    set { m with
      frames := { frame with next := handler.address } :: below
      operands := (m.operands.truncate handler.depth).push v }
  | none =>
    set { m with frames := [] }
    throw (.uncaught (m.heap.display v))

/-- Calls a method of `receiver`. -/
def call (method : String) (receiver : Value) (arguments : List Value) : Action Unit := do
  let m ← get
  match receiver with
  | .object address =>
    let code ← lift (m.classes.resolveMethod (m.heap.object address).image method m.callerClass)
    pushFrame (.start code .method (some receiver))
  | .classRef id =>
    let code ← lift (m.classes.resolveStatic id method)
    pushFrame (.start code .staticMethod none)
  | .system =>
    match ← system method arguments with
    | .value v => push v
    | .raised v => raiseValue v
  | _ => fault (.invalidReceiver method receiver.sort)

/-- The value of a name: of the frame, else of the named globals, else zero. -/
def lookup (name : String) : Action Value := do
  let m ← get
  let ofFrame :=
    match m.frames with
    | frame :: _ => if name = "this" then frame.this else none
    | [] => none
  return (ofFrame.or (m.globals.find? name)).getD .zero

/-- Gives a name a value: in the frame if it has the name, else in the named globals. -/
def assign (name : String) (v : Value) : Action Unit :=
  modify fun m =>
    match m.frames with
    | frame :: below =>
      if name = "this" ∧ frame.this.isSome then
        { m with frames := { frame with this := some v } :: below }
      else { m with globals := m.globals.insert name v }
    | [] => { m with globals := m.globals.insert name v }

/-- The object behind `v`, whose field is to be used. -/
def expectObject (v : Value) (field : String) : Action Address :=
  match v with
  | .object address => return address
  | v => fault (.notAnObject field v.sort)

/-- The class behind `v`, whose static field is to be used. -/
def expectClass (v : Value) (field : String) : Action ClassId :=
  match v with
  | .classRef id => return id
  | v => fault (.notAClass field v.sort)

/-- Refuses to use a hidden field outside of its class. -/
def checkField (address : Address) (field : String) : Action Unit := do
  let m ← get
  lift (m.classes.checkField (m.heap.object address).image field m.callerClass)

/-- What an instruction does. -/
def step (i : Instruction) : Action Flow := do
  match i with
  | .halt => return .halt
  | .push c => push (.ofConstant c)
  | .pop => let _ ← pop
  | .loadSlot slot => push ((← get).slots.getD slot .zero)
  | .storeSlot slot =>
    let v ← peek
    modify fun m =>
      let missing := slot + 1 - m.slots.size
      let slots := m.slots ++ Array.replicate missing Value.zero
      { m with slots := slots.setIfInBounds slot v }
  | .loadName name => push (← lookup name)
  | .storeName name => assign name (← peek)
  | .loadField field =>
    let address ← expectObject (← pop) field
    checkField address field
    push (((← get).heap.object address).get field)
  | .storeField field =>
    let v ← pop
    let address ← expectObject (← pop) field
    checkField address field
    modifyHeap fun heap => heap.modifyObject address fun o => o.set field v
    push v
  | .loadStatic field =>
    let id ← expectClass (← pop) field
    push (← lift ((← get).classes.getStatic id field))
  | .storeStatic field =>
    let v ← pop
    let id ← expectClass (← pop) field
    let classes ← lift ((← get).classes.setStatic id field v)
    modify fun m => { m with classes }
    push v
  | .loadIndex =>
    let index ← pop
    let container ← pop
    push (← lift ((← get).heap.load container index))
  | .storeIndex =>
    let v ← pop
    let index ← pop
    let container ← pop
    modifyHeap (← lift ((← get).heap.storing container index v))
    push v
  | .arithmetic op =>
    let b ← pop
    let a ← pop
    match ← lift ((← get).heap.arithmetic op a b) with
    | .value v => push v
    | .newList items => push (← alloc fun heap => heap.allocList items)
  | .compare op =>
    let b ← pop
    let a ← pop
    push (.bool (← lift ((← get).heap.compare op a b)))
  | .and =>
    let b ← pop
    let a ← pop
    push (if (← get).heap.truthy a then b else a)
  | .or =>
    let b ← pop
    let a ← pop
    push (if (← get).heap.truthy a then a else b)
  | .not =>
    let a ← pop
    push (.bool !((← get).heap.truthy a))
  | .negate =>
    let a ← pop
    push (← lift (Heap.negate a))
  | .jump target => jump target
  | .jumpIfFalse target =>
    let condition ← pop
    if !(← get).heap.truthy condition then jump target
  | .call method argc =>
    let arguments ← popArguments argc
    let receiver ← pop
    call method receiver arguments
  | .giveBack =>
    let v ← pop
    modify fun m => { m with frames := m.frames.tail }
    if !(← get).frames.isEmpty then push v
  | .construct className argc =>
    let _ ← popArguments argc
    match (← get).classes.byName? className with
    | some image => push (← alloc fun heap => heap.allocObject ⟨image, ∅⟩)
    | none => fault (.unknownClass className)
  | .print argc =>
    let arguments ← popArguments argc
    let _ ← pop
    print arguments
    push .nil
  | .openHandler target =>
    let depth := (← get).operands.size
    modifyFrame fun frame => { frame with handlers := ⟨target, depth⟩ :: frame.handlers }
  | .closeHandler => modifyFrame fun frame => { frame with handlers := frame.handlers.tail }
  | .raise => raiseValue (← pop)
  | .buildList count =>
    let items ← popMany count
    push (← alloc fun heap => heap.allocList items.toArray)
  | .buildMap count =>
    let items ← popMany (2 * count)
    let contents ← lift (Dict.ofEntries (pairs items))
    push (← alloc fun heap => heap.allocMap contents)
  return .next
where
  /-- Items two by two. -/
  pairs : List Value → List (Value × Value)
    | a :: b :: rest => (a, b) :: pairs rest
    | _ => []

end Action

end Monogram
