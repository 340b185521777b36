import Monogram.Machine.Basic

/-! # The system object

Its four operations print, read a line, raise an exception, and read a file.

* `Action.consult` — an answer of the console.
* `Action.system` — one operation: a value, or a value to raise.
-/

namespace Monogram

/-- What the operation that raises raises. -/
def customError : String := "Custom Error 15"

/-- What came of an operation of the system object. -/
inductive SystemOutcome where
  | value (v : Value)
  | raised (v : Value)

namespace Action

/-- An answer of the console. -/
def consult {α : Type} (ask : Console → α × Console) : Action α :=
  modifyGet fun m =>
    let (answer, console) := ask m.console
    (answer, { m with console })

/-- Prints values between blanks, on a line of their own. -/
def print (values : List Value) : Action Unit := do
  let line := String.intercalate " " (values.map (← get).heap.display)
  lift (← consult (·.print line))

/-- Reads a line of input. -/
def readLine : Action Value := do
  lift (← consult Console.readLine)

/-- Reads the file that the first argument names. -/
def readFile (arguments : List Value) : Action Value := do
  match arguments with
  | [] => fault (.missingArgument "f")
  | first :: _ =>
    let path := (← get).heap.display first
    lift (← consult (·.readFile path))

/-- The operation of this name. -/
def system (name : String) (arguments : List Value) : Action SystemOutcome := do
  match name with
  | "o" =>
    print arguments
    return .value .nil
  | "i" => return .value (← readLine)
  | "t" => return .raised (.string customError)
  | "f" => return .value (← readFile arguments)
  | _ => fault (.unknownSystemOperation name)

end Action

end Monogram
