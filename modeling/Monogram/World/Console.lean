import Monogram.Number.Reading
import Monogram.Text.Blank
import Monogram.Value.Heap
import Monogram.World.Folder

/-! # The console

What a program reads and writes: lines of input, the printed text, and files.  Input may end for a
while and go on, and may fail between any two bytes.  A line that is to be printed may get through in
part only, and a file may have another text each time: such an answer depends on all requests before.

* `Console.print` — one line, or what of it gets through.
* `Console.readLine` — one line of input as a value.
* `Console.readFile` — the text of a file as a value.
* `Console.Appends` — what was printed before stays, whatever is asked.
-/

namespace Monogram

/-- What comes in. -/
inductive Arrival where
  | byte (b : UInt8)
  /-- Nothing more comes for now. -/
  | pause
  | failure (problem : IoProblem)
deriving DecidableEq, Repr

/-- The bytes behind `taken`, up to one that ends them and belongs to them, or up to a pause; and what
comes in later.  A failure loses the bytes in front of it. -/
def Arrival.take (ends : UInt8 → Bool) (taken : ByteArray) :
    List Arrival → Except IoProblem ByteArray × List Arrival
  | [] => (.ok taken, [])
  | .pause :: later => (.ok taken, later)
  | .failure problem :: later => (.error problem, later)
  | .byte b :: later =>
    if ends b then (.ok (taken.push b), later) else take ends (taken.push b) later

namespace Console

/-- What a program asks for. -/
inductive Request where
  | print (line : String)
  | file (path : String)
deriving DecidableEq, Repr

/-- How a line is not printed whole: what of it gets through, and why no more does. -/
structure Hindrance where
  printed : String
  problem : IoProblem
deriving DecidableEq, Repr

end Console

/-- The outside of a program. -/
structure Console where
  /-- What comes in from now on. -/
  input : List Arrival
  /-- Everything printed. -/
  output : String
  /-- The requests so far.  The last one comes first. -/
  requests : List Console.Request
  /-- What hinders a line after these requests. -/
  hindrance? : List Console.Request → String → Option Console.Hindrance
  /-- The text of the file at a path after these requests. -/
  fileText : List Console.Request → String → Except IoProblem String

namespace Console

/-- A console with this input and no files, on which every line gets through. -/
def ofInput (input : List Arrival) : Console :=
  { input, output := "", requests := [], hindrance? := fun _ _ => none
    fileText := fun _ _ => .error .notFound }

instance : Inhabited Console := ⟨ofInput []⟩

/-- Prints a line. -/
def print (c : Console) (line : String) : Except Fault Unit × Console :=
  let requests := .print line :: c.requests
  match c.hindrance? c.requests line with
  | none => (.ok (), { c with output := c.output ++ line ++ "\n", requests })
  | some h => (.error (.io h.problem), { c with output := c.output ++ h.printed, requests })

/-- `text` without `last` at its end. -/
def dropLast (last : Char) (text : List Char) : List Char :=
  if text.getLast? = some last then text.dropLast else text

/-- A line of input as a value: a number when it spells one, blanks around it aside. -/
def lineValue (line : String) : Value :=
  let text := dropLast '\r' (dropLast '\n' line.toList)
  match readNumber? (trimBlank text) with
  | some x => .number x
  | none => .string (String.ofList text)

/-- The value of the bytes of a line; there is no line without a byte. -/
def bytesValue (line : ByteArray) : Except Fault Value :=
  if line.isEmpty then .error .endOfInput
  else
    match Folder.decode line with
    | .ok text => .ok (lineValue text)
    | .error problem => .error (.io problem)

/-- Takes a line of input.  The line is taken also when it is no text. -/
def readLine (c : Console) : Except Fault Value × Console :=
  let (line, input) := Arrival.take (· == 10) .empty c.input
  ((line.mapError .io).bind bytesValue, { c with input })

/-- Reads the file at a path. -/
def readFile (c : Console) (path : String) : Except Fault Value × Console :=
  (((c.fileText c.requests path).map .string).mapError (.fileRead path),
    { c with requests := .file path :: c.requests })

/-! ## What the console answers -/

theorem print_answer (c : Console) (line : String) :
    (c.print line).1 = .ok () ∨ ∃ problem, (c.print line).1 = .error (.io problem) := by
  unfold print
  cases c.hindrance? c.requests line with
  | none => exact .inl rfl
  | some h => exact .inr ⟨h.problem, rfl⟩

theorem readLine_answer (c : Console) :
    (∃ line, c.readLine.1 = bytesValue line) ∨ ∃ problem, c.readLine.1 = .error (.io problem) := by
  unfold readLine
  cases Arrival.take (· == 10) .empty c.input with
  | mk taken later =>
    cases taken with
    | ok line => exact .inl ⟨line, rfl⟩
    | error problem => exact .inr ⟨problem, rfl⟩

theorem readFile_answer (c : Console) (path : String) :
    (∃ text, (c.readFile path).1 = .ok (.string text))
      ∨ ∃ problem, (c.readFile path).1 = .error (.fileRead path problem) := by
  unfold readFile
  cases c.fileText c.requests path with
  | ok text => exact .inl ⟨text, rfl⟩
  | error problem => exact .inr ⟨problem, rfl⟩

/-! ## What was printed before stays -/

/-- The answer only adds to what is printed. -/
def Appends {α : Type} (ask : Console → α × Console) : Prop :=
  ∀ c, ∃ more, (ask c).2.output = c.output ++ more

theorem appends_print (line : String) : Appends (·.print line) := by
  intro c
  show ∃ more, (c.print line).2.output = c.output ++ more
  unfold print
  cases c.hindrance? c.requests line with
  | none => exact ⟨line ++ "\n", String.append_assoc⟩
  | some h => exact ⟨h.printed, rfl⟩

theorem appends_readLine : Appends readLine := fun _ => ⟨"", String.append_empty.symm⟩

theorem appends_readFile (path : String) : Appends (·.readFile path) :=
  fun _ => ⟨"", String.append_empty.symm⟩

end Console

end Monogram
