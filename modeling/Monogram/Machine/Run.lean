import Monogram.Machine.Step

/-! # Runs

* `Action.cycle` — one instruction, or the end of a frame that has run off its code.
* `Action.cycles` — until no frame is left, at most so many times.
* `Action.execute` — one piece of code as the only frame; a failure leaves no frame behind, and only
  the operands that were there before.
* `Action.run`, `Action.runCode` — a program, and code alone.

Runs tell whether they came to an end within the given number of cycles.
-/

namespace Monogram

namespace Action

/-- Counts an instruction against the limit. -/
def countInstruction : Action Unit := do
  modify fun m => { m with executed := m.executed + 1 }
  let m ← get
  match m.limits.maxInstructions with
  | some limit => if limit < m.executed then throw (.instructions limit) else return ()
  | none => return ()

/-- Ends the frame that has run off its code.  Its caller gets nil. -/
def endFrame (frame : Frame) (below : List Frame) : Action Unit := do
  modify fun m => { m with frames := below }
  if frame.kind.givesValue && !below.isEmpty then push .nil

/-- Carries out the next instruction.  Tells whether anything was left to do. -/
def cycle : Action Bool := do
  match (← get).frames with
  | [] => return false
  | frame :: below =>
    match frame.code.instructions[frame.next]? with
    | none =>
      endFrame frame below
      return true
    | some i =>
      modify fun m => { m with frames := { frame with next := frame.next + 1 } :: below }
      countInstruction
      match ← step i with
      | .next => return true
      | .halt =>
        modify fun m => { m with frames := [] }
        return true

/-- Cycles until no frame is left.  Tells whether that happened within the given number. -/
def cycles : Nat → Action Bool
  | 0 => return false
  | bound + 1 => do
    if ← cycle then cycles bound else return true

/-- Runs a frame, and what it calls, to its end. -/
def execute (bound : Nat) (frame : Frame) : Action Bool := fun m =>
  let before := m.operands.size
  match (do pushFrame frame; cycles bound : Action Bool) m with
  | .ok ended m => .ok ended m
  | .error failure m =>
    .error failure { m with frames := [], operands := m.operands.truncate before }

/-- Runs the code that stores the initial values of static fields, class by class. -/
def runStaticInits (bound : Nat) : List ClassImage → Action Bool
  | [] => return true
  | image :: rest => do
    if image.staticInit.size = 0 then runStaticInits bound rest
    else if ← execute bound (.start image.staticInit .staticInit none) then runStaticInits bound rest
    else return false

/-- Starts to count instructions anew. -/
def resetCount : Action Unit :=
  modify fun m => { m with executed := 0 }

/-- Loads the classes of a program, all of them before the first static initializer runs. -/
def loadClasses (classes : List ClassImage) : Action Unit :=
  modify fun m => { m with classes := classes.foldl Registry.register m.classes }

/-- Runs a program: static initializers in the order of the classes, then its statements. -/
def run (bound : Nat) (program : Program) : Action Bool := do
  resetCount
  let images := program.classes.values
  loadClasses images
  if ← runStaticInits bound images then execute bound (.start program.main .main none)
  else return false

/-- Runs code alone. -/
def runCode (bound : Nat) (code : Code) : Action Bool := do
  resetCount
  execute bound (.start code .main none)

end Action

namespace Machine

/-- A number of cycles that no run reaches in practice. -/
def ampleBound : Nat := Nat.pow 2 62

/-- The value of a slot, once one at least as high has been stored into. -/
def slot? (m : Machine) (slot : Nat) : Option Value := m.slots[slot]?

/-- The value of a global that was stored into by name. -/
def global? (m : Machine) (name : String) : Option Value := m.globals.find? name

/-- The value of a static field of the class of this name. -/
def static? (m : Machine) (className field : String) : Option Value :=
  (m.classes.byName? className).bind fun image => (m.classes.getStatic image.id field).toOption

end Machine

end Monogram
