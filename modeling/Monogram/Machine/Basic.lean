import Monogram.Classes.Registry
import Monogram.Machine.Operands
import Monogram.Value.Operation
import Monogram.World.Console

/-! # Machines

A machine runs code.  Its classes, globals and heap outlive a run; its frames do not.

* `Frame` — one running piece of code.
* `Failure` — how a run can fail.
* `Action` — what changes a machine and may fail; a failure keeps the changes made before it.
-/

namespace Monogram

/-- A handler that has been installed: where it starts, and how many operands there were. -/
structure Handler where
  address : Nat
  depth : Nat
deriving DecidableEq, Repr, Inhabited

/-- What a frame runs. -/
inductive FrameKind where
  | main
  | staticInit
  | method
  | staticMethod
deriving DecidableEq, Repr, Inhabited

/-- Whether a frame that runs off its end has a caller waiting for a value. -/
def FrameKind.givesValue : FrameKind → Bool
  | .main | .staticInit => false
  | .method | .staticMethod => true

/-- A running piece of code. -/
structure Frame where
  code : Code
  /-- The address of the next instruction. -/
  next : Nat
  /-- What the name `this` stands for, in a method. -/
  this : Option Value
  /-- The handler installed last comes first. -/
  handlers : List Handler
  kind : FrameKind
deriving Inhabited

/-- A frame about to start. -/
def Frame.start (code : Code) (kind : FrameKind) (this : Option Value) : Frame :=
  ⟨code, 0, this, [], kind⟩

/-- How much a run may use. -/
structure Limits where
  /-- Frames at a time. -/
  maxDepth : Nat
  /-- Instructions of one run.  They are counted without end; a count in 64 bits comes to the same for
  every limit below 2^64 - 1, which it passes before it overflows. -/
  maxInstructions : Option Nat
deriving DecidableEq, Repr

/-- A thousand frames and no limit on instructions. -/
def Limits.usual : Limits := ⟨1024, none⟩

/-- How a run fails. -/
inductive Failure where
  | fault (f : Fault)
  | callDepth (depth maxDepth : Nat)
  | instructions (limit : Nat)
  /-- A raised value that nothing handled, as text. -/
  | uncaught (shown : String)
deriving DecidableEq, Repr

/-- A failure in words. -/
def Failure.message : Failure → String
  | .fault f => f.message
  | .callDepth depth maxDepth => s!"call depth {depth} exceeds maximum of {maxDepth}"
  | .instructions limit => s!"instruction budget of {limit} exhausted"
  | .uncaught shown => s!"Unhandled exception: {shown}"

/-- A machine. -/
structure Machine where
  limits : Limits
  console : Console
  classes : Registry
  heap : Heap
  /-- The frame that runs comes first. -/
  frames : List Frame
  operands : Operands Value
  /-- Declared globals by slot. -/
  slots : Array Value
  /-- Globals that were stored into by name. -/
  globals : Table Value
  /-- Instructions of the present run so far, however many. -/
  executed : Nat

/-- A machine on which nothing has run. -/
def Machine.new (limits : Limits) (console : Console) : Machine :=
  { limits, console, classes := .empty, heap := .empty, frames := [], operands := .empty
    slots := #[], globals := ∅, executed := 0 }

instance : Inhabited Machine := ⟨.new .usual default⟩

/-- What changes a machine and may fail. -/
abbrev Action := EStateM Failure Machine

namespace Action

/-- Fails with a fault. -/
def fault {α : Type} (f : Fault) : Action α := throw (.fault f)

/-- The result of an operation on values, or its fault. -/
def lift {α : Type} (result : Except Fault α) : Action α :=
  match result with
  | .ok a => pure a
  | .error f => fault f

/-- Puts an operand on top. -/
def push (v : Value) : Action Unit :=
  modify fun m => { m with operands := m.operands.push v }

/-- Takes the top operand. -/
def pop : Action Value := do
  match (← get).operands.pop? with
  | some (v, below) =>
    modify fun m => { m with operands := below }
    return v
  | none => fault .operandUnderflow

/-- The top operand, which stays. -/
def peek : Action Value := do
  match (← get).operands.peek? with
  | some v => return v
  | none => fault .operandUnderflow

/-- Takes arguments one by one, the last one first; they come back in the order of the source. -/
def popArguments : Nat → Action (List Value)
  | 0 => return []
  | argc + 1 => do
    let last ← pop
    let others ← popArguments argc
    return others ++ [last]

/-- Takes `n` operands at once, or none of them. -/
def popMany (n : Nat) : Action (List Value) := do
  match (← get).operands.popMany? n with
  | some (items, below) =>
    modify fun m => { m with operands := below }
    return items
  | none => fault .operandUnderflow

/-- Changes the frame that runs. -/
def modifyFrame (change : Frame → Frame) : Action Unit :=
  modify fun m =>
    match m.frames with
    | frame :: below => { m with frames := change frame :: below }
    | [] => m

/-- Goes on at an address. -/
def jump (target : Nat) : Action Unit :=
  modifyFrame fun frame => { frame with next := target }

/-- Starts a frame, unless there are too many. -/
def pushFrame (frame : Frame) : Action Unit := do
  let m ← get
  if m.limits.maxDepth ≤ m.frames.length then
    throw (.callDepth (m.frames.length + 1) m.limits.maxDepth)
  else
    modify fun m => { m with frames := frame :: m.frames }

/-- Makes something new in the heap. -/
def alloc (make : Heap → Value × Heap) : Action Value :=
  modifyGet fun m =>
    let (v, heap) := make m.heap
    (v, { m with heap })

/-- Changes the heap. -/
def modifyHeap (change : Heap → Heap) : Action Unit :=
  modify fun m => { m with heap := change m.heap }

end Action

/-- The name of the class of the object whose method runs. -/
def Machine.callerClass (m : Machine) : Option String :=
  match m.frames with
  | frame :: _ =>
    match frame.this with
    | some (.object address) => some (m.heap.object address).image.name
    | _ => none
  | [] => none

end Monogram
