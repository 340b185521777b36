import Monogram.CommandLine.Command
import Monogram.Editor.Brackets

/-! # The program

The command is a function of its arguments, its input and the files.  Here it meets the real ones: a
file, or more input, is fetched when an attempt has asked for it, and the attempt is made again with
what is known by then.  It prints again what it has printed before, so only the rest is shown.
-/

namespace Monogram

/-- What is known of the outside. -/
structure Known where
  /-- Input that no program has taken yet. -/
  input : List Arrival
  /-- Whether no more input will come. -/
  inputEnded : Bool
  files : List (String × Except IoProblem String)

/-- What an attempt has asked for in vain. -/
inductive Wish where
  | file (path : String)
  | input

/-- What came of an attempt. -/
structure Attempt (α : Type) where
  value : α
  output : String
  problem : Option Session.Error

namespace Known

/-- The text of a file that is known. -/
def readFile (k : Known) (path : String) : Except IoProblem String :=
  (k.files.lookup path).getD (.error .notFound)

/-- What would let an attempt go on that has ended with a problem. -/
def wish? (k : Known) : Option Session.Error → Option Wish
  | some (.execution (.fault (.fileRead path _))) =>
    if (k.files.lookup path).isSome then none else some (.file path)
  | some (.execution (.fault .endOfInput)) => if k.inputEnded then none else some .input
  | _ => none

/-- Adds all the input, or on a terminal one line of it. -/
partial def fetchInput (k : Known) (whole : Bool) : IO Known := do
  let stdin ← IO.getStdin
  if !whole && (← stdin.isTty) then
    let line := (← stdin.getLine).toUTF8
    return { k with input := k.input ++ line.toList.map .byte, inputEnded := line.isEmpty }
  else
    let chunk ← stdin.read 65536
    if chunk.isEmpty then return { k with inputEnded := true }
    else fetchInput { k with input := k.input ++ chunk.toList.map .byte } whole

/-- Adds a file. -/
def fetchFile (k : Known) (path : String) : IO Known := do
  let found : Except IoProblem String ←
    if path.toList.contains '\x00' then pure (.error .nulInName)
    else
      try
        pure (Folder.decode (← IO.FS.readBinFile path))
      catch
        | .noFileOrDirectory _ _ _ => pure (.error .notFound)
        | .inappropriateType none _ _ => pure (.error .isDirectory)
        | .inappropriateType (some _) _ _ => pure (.error .notDirectory)
        | problem => pure (.error (.other (toString problem)))
  return { k with files := (path, found) :: k.files }

/-- Adds what was wished for. -/
def fetch (k : Known) : Wish → IO Known
  | .file path => k.fetchFile path
  | .input => k.fetchInput false

/-- Makes an attempt until it wishes for nothing more, and shows its output but for the first
`shown` characters. -/
partial def settle {α : Type} (k : Known) (shown : Nat) (attempt : Known → Attempt α) :
    IO (α × Known) := do
  let a := attempt k
  IO.print (String.ofList (a.output.toList.drop shown))
  (← IO.getStdout).flush
  match k.wish? a.problem with
  | some wish => (← k.fetch wish).settle a.output.length attempt
  | none => return (a.value, k)

end Known

/-- Carries out the command. -/
def Options.carryOut (o : Options) (k : Known) : IO UInt32 := do
  let k ← match o.file with
    | some path => k.fetchFile path
    | none => k.fetchInput true
  let (outcome, _) ← k.settle 0 fun k =>
    let outcome := o.perform k.input k.readFile
    ⟨outcome, outcome.output, outcome.problem⟩
  IO.eprint outcome.complaints
  return outcome.exitCode.toUInt32

/-- Reads lines up to the end of an entry, in which nothing is left open. -/
partial def readEntry (soFar : String) : IO (Option String) := do
  IO.print (if soFar.isEmpty then "alphabet> " else "::: ")
  (← IO.getStdout).flush
  let line ← (← IO.getStdin).getLine
  if line.isEmpty then return none
  let entry := soFar ++ line
  if openBrackets? entry = some 0 then return some entry else readEntry entry

/-- Takes entries from a terminal, each in the session that the ones before it have left. -/
partial def converse (session : Session) (k : Known) : IO Unit := do
  match ← readEntry "" with
  | none => IO.println "\nGoodbye!"
  | some lines =>
    let entry := String.ofList (trimBlank lines.toList)
    if entry = "q" then return
    if entry = "" then converse session k
    else
      let ((result, session), k) ← k.settle 0 fun k =>
        let console : Console :=
          { session.machine.console with
            input := k.input, output := "", fileText := fun _ => k.readFile }
        let (result, after) :=
          { session with machine := { session.machine with console } }.eval Machine.ampleBound entry
        let problem := match result with
          | .ok _ => none
          | .error e => some e
        ⟨(result, after), after.machine.console.output, problem⟩
      match result with
      | .ok compiled => IO.eprint (reportText true "<repl>" entry compiled.diagnostics)
      | .error e => IO.eprintln e.message
      -- A later entry reads its files anew.
      converse session { k with input := session.machine.console.input, files := [] }

end Monogram

/-- The program: takes entries from a terminal when no program is given, else runs the command. -/
def main (arguments : List String) : IO UInt32 := do
  let nothing : Monogram.Known := ⟨[], false, []⟩
  match Monogram.Options.ofArguments arguments with
  | .ok o =>
    if o.file.isNone && (o.repl || (← (← IO.getStdin).isTty)) then
      IO.println "Alphabet REPL - type 'q' or press Ctrl+D to exit"
      Monogram.converse (.new o.limits (.ofInput [])) nothing
      return 0
    else o.carryOut nothing
  | .error _ =>
    let outcome := Monogram.performArguments arguments [] nothing.readFile
    IO.print outcome.output
    IO.eprint outcome.complaints
    return outcome.exitCode.toUInt32
