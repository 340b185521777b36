import Monogram.Code.Listing
import Monogram.CommandLine.Arguments
import Monogram.Report.Drawing
import Monogram.Session

/-! # The command

The command runs a program from a file or from its input, or shows what it was made into.

* `Options.perform` — what a run of the command prints, and its exit status.
* `performArguments` — the same from the arguments.
-/

namespace Monogram

/-- What a run of the command leaves behind. -/
structure Outcome where
  /-- What it prints. -/
  output : String
  /-- What it tells beside the output. -/
  complaints : String
  exitCode : Nat
  /-- What ended it early. -/
  problem : Option Session.Error

namespace Outcome

/-- An end without a problem. -/
def finished (output complaints : String) (exitCode : Nat) : Outcome :=
  { output, complaints, exitCode, problem := none }

/-- An end by a problem. -/
def failed (output complaints : String) (problem : Session.Error) : Outcome :=
  { output, complaints := complaints ++ problem.message ++ "\n", exitCode := problem.exitCode
    problem := some problem }

end Outcome

/-- The name of the program that comes from the input. -/
def inputName : String := "<stdin>"

/-- The exit status of a check that finds diagnostics. -/
def checkFailed : Nat := 65

/-- The exit status for arguments that cannot be read. -/
def usageFailed : Nat := 2

/-- The answer to a question for the version. -/
def versionLine : String := "alphabet 0.1.0\n"

/-- How the command is used. -/
def usageLine : String :=
  "Usage: alphabet [--check] [--disassemble] [--repl] [--max-call-depth N] [--max-instructions N] "
    ++ "[FILE]\n"

/-- The counts that a check reports. -/
def Compiled.summary (c : Compiled) (name : String) : String :=
  let classes := c.program.classes.size
  let instructions := c.program.instructionCount
  let errors := c.diagnostics.length
  s!"{name}: {classes} classes, {instructions} instructions, {errors} parse errors\n"

/-- A program to run: its name, its text, and the input that is left for it. -/
structure Job where
  name : String
  text : String
  input : List Arrival

namespace Options

/-- The program that the options name, none when all entries come from a terminal. -/
def job? (o : Options) (input : List Arrival) (readFile : String → Except IoProblem String) :
    Except Session.Error (Option Job) :=
  match o.file with
  | some path =>
    match readFile path with
    | .ok text => .ok (some ⟨path, text, input⟩)
    | .error problem => .error (.unreadable path problem)
  | none =>
    if o.repl then .ok none
    else
      let (bytes, later) := Arrival.take (fun _ => false) .empty input
      match bytes.bind Folder.decode with
      | .ok text => .ok (some ⟨inputName, text, later⟩)
      | .error problem => .error (.unreadable inputName problem)

/-- Shows a program instead of running it. -/
def inspect (o : Options) (name complaints : String) (c : Compiled) : Outcome :=
  let code := if o.disassemble then c.program.listing ++ "\n" else ""
  let counts := if o.check then c.summary name else ""
  let exitCode := if o.check && !c.diagnostics.isEmpty then checkFailed else 0
  .finished (code ++ counts) complaints exitCode

/-- Compiles a program and runs it, or shows it. -/
def performJob (o : Options) (job : Job) (readFile : String → Except IoProblem String) : Outcome :=
  let console := { Console.ofInput job.input with fileText := fun _ => readFile }
  match (Session.new o.limits console).compile job.text with
  | (.error e, _) => .failed "" "" e
  | (.ok compiled, session) =>
    let complaints := reportText true job.name job.text compiled.diagnostics
    if o.check || o.disassemble then o.inspect job.name complaints compiled
    else
      let (result, session) := session.run Machine.ampleBound compiled.program
      let output := session.machine.console.output
      match result with
      | .ok _ => .finished output complaints 0
      | .error e => .failed output complaints e

/-- Does what the options ask for. -/
def perform (o : Options) (input : List Arrival) (readFile : String → Except IoProblem String) :
    Outcome :=
  match o.job? input readFile with
  | .ok (some job) => o.performJob job readFile
  | .ok none => .finished "" "" 0
  | .error e => .failed "" "" e

end Options

/-- Does what the arguments ask for. -/
def performArguments (arguments : List String) (input : List Arrival)
    (readFile : String → Except IoProblem String) : Outcome :=
  match Options.ofArguments arguments with
  | .ok o => o.perform input readFile
  | .error .version => .finished versionLine "" 0
  | .error .help => .finished usageLine "" 0
  | .error (.invalid reason) => .finished "" ("error: " ++ reason ++ "\n" ++ usageLine) usageFailed

end Monogram
