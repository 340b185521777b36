import Monogram.Lowering.Program
import Monogram.Machine.Run
import Monogram.Reading.Source

/-! # Sessions

A session takes one text after the other.  What a text declares is known to the texts after it, and
the machine keeps its globals, classes and statics.

* `Session.compile` — a text becomes a program; a text that has no code leaves the session alone.
* `Session.run` — runs a program.
* `Session.eval` — both.
-/

namespace Monogram

/-- Why a text did not run to its end. -/
inductive Session.Error where
  | compilation (e : LoweringError)
  | execution (f : Failure)
  /-- The text itself could not be read. -/
  | unreadable (path : String) (problem : IoProblem)
deriving DecidableEq, Repr

namespace Session.Error

/-- The error in words. -/
def message : Error → String
  | .compilation e =>
    let reason := e.message
    s!"Compile error: {reason}"
  | .execution f =>
    let reason := f.message
    match f with
    | .fault _ => s!"Runtime error: {reason}"
    | .uncaught _ => reason
    | .callDepth _ _ | .instructions _ => s!"Resource limit exceeded: {reason}"
  | .unreadable path problem =>
    let reason := problem.message
    s!"Cannot read '{path}': {reason}"

/-- The exit status of a process that ends with the error. -/
def exitCode : Error → Nat
  | .compilation _ => 65
  | .execution _ => 1
  | .unreadable _ _ => 66

end Session.Error

/-- A program and what was left out of its text. -/
structure Compiled where
  program : Program
  diagnostics : List Diagnostic

/-- The program of a text under known names, and the names known behind it. -/
def Names.compile (names : Names) (text : String) : Except LoweringError (Compiled × Names) := do
  let source := Source.read text
  let (program, names) ← names.lowerProgram source.statements
  return (⟨program, source.diagnostics⟩, names)

/-- The names that are known, and the machine. -/
structure Session where
  names : Names
  machine : Machine

namespace Session

/-- A session in which nothing has been said. -/
def new (limits : Limits) (console : Console) : Session :=
  ⟨.empty, .new limits console⟩

/-- The program of a text.  A text without code leaves the session as it was. -/
def compile (s : Session) (text : String) : Except Error Compiled × Session :=
  match s.names.compile text with
  | .ok (compiled, names) => (.ok compiled, { s with names })
  | .error e => (.error (.compilation e), s)

/-- Carries out an action of the machine. -/
def act {α : Type} (s : Session) (action : Action α) : Except Failure α × Session :=
  match action s.machine with
  | .ok a machine => (.ok a, { s with machine })
  | .error f machine => (.error f, { s with machine })

/-- Runs a program for at most so many cycles of each piece of code.  Tells whether it came to an
end. -/
def run (s : Session) (bound : Nat) (program : Program) : Except Error Bool × Session :=
  let (result, s) := s.act (Action.run bound program)
  (result.mapError .execution, s)

/-- Compiles and runs a text.  What it declares stays known when the run fails. -/
def eval (s : Session) (bound : Nat) (text : String) : Except Error Compiled × Session :=
  match s.compile text with
  | (.error e, s) => (.error e, s)
  | (.ok compiled, s) =>
    let (result, s) := s.run bound compiled.program
    (result.map fun _ => compiled, s)

/-- The value of a global: of its slot when it was declared, else under its name. -/
def global? (s : Session) (name : String) : Option Value :=
  match s.names.slot? name with
  | some slot => s.machine.slot? slot
  | none => s.machine.global? name

end Session

end Monogram
