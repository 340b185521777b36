import Monogram.Machine.Basic

/-! # Arguments of the command

Arguments are read from left to right; the first one that ends the reading decides.  An option is
given at most once, and so is the file.

* `Options.ofArguments` — the options, or why there are none.
-/

namespace Monogram

/-- What the command is to do. -/
structure Options where
  /-- The file with the program, else the program is all of the input. -/
  file : Option String
  /-- Take entries from a terminal. -/
  repl : Bool
  /-- Report counts instead of running. -/
  check : Bool
  /-- Print the code instead of running. -/
  disassemble : Bool
  maxCallDepth : Option Nat
  maxInstructions : Option Nat
deriving DecidableEq, Repr

/-- Why the arguments give no options. -/
inductive Options.Refusal where
  | version
  | help
  | invalid (reason : String)
deriving DecidableEq, Repr

/-- Options that take a number. -/
inductive Options.Limit where
  | callDepth
  | instructions
deriving DecidableEq, Repr

/-- What the next argument may be. -/
inductive Options.Expected where
  | anything
  | numberFor (limit : Options.Limit)
  | onlyFile
deriving DecidableEq, Repr

namespace Options

/-- No arguments. -/
def empty : Options := ⟨none, false, false, false, none, none⟩

/-- The largest number that an option takes. -/
def numberLimit : Nat := Nat.pow 2 64 - 1

/-- A whole number of decimal digits, a plus sign in front allowed. -/
def number? (text : String) : Option Nat :=
  let digits :=
    match text.toList with
    | '+' :: rest => rest
    | all => all
  if digits.isEmpty || !digits.all Char.isDigit then none
  else
    let n := digits.foldl (fun n c => 10 * n + (c.toNat - 48)) 0
    if n ≤ numberLimit then some n else none

/-- Refuses an argument. -/
def refuse {α : Type} (argument : String) : Except Refusal α :=
  .error (.invalid s!"unexpected argument '{argument}'")

/-- Takes the file. -/
def addFile (o : Options) (path : String) : Except Refusal Options :=
  if o.file.isSome ∨ path = "" then refuse path else .ok { o with file := some path }

/-- Takes the number of a limit. -/
def addLimit (o : Options) (limit : Limit) (text : String) : Except Refusal Options :=
  match number? text, limit with
  | some n, .callDepth =>
    if o.maxCallDepth.isSome then refuse text else .ok { o with maxCallDepth := some n }
  | some n, .instructions =>
    if o.maxInstructions.isSome then refuse text else .ok { o with maxInstructions := some n }
  | none, _ => refuse text

/-- Takes `check`. -/
def addCheck (o : Options) : Except Refusal Options :=
  if o.check then refuse "--check" else .ok { o with check := true }

/-- Takes one-letter options behind one dash. -/
def addLetters (o : Options) : List Char → Except Refusal Options
  | [] => .ok o
  | 'c' :: rest => o.addCheck >>= fun o => o.addLetters rest
  | 'V' :: _ => .error .version
  | 'h' :: _ => .error .help
  | c :: _ => refuse (String.ofList ['-', c])

/-- Takes an option behind two dashes, and tells what comes next. -/
def addWord (o : Options) (word : String) : Except Refusal (Expected × Options) :=
  match word with
  | "check" => o.addCheck.map (.anything, ·)
  | "repl" => if o.repl then refuse "--repl" else .ok (.anything, { o with repl := true })
  | "disassemble" =>
    if o.disassemble then refuse "--disassemble"
    else .ok (.anything, { o with disassemble := true })
  | "version" => .error .version
  | "help" => .error .help
  | "max-call-depth" => .ok (.numberFor .callDepth, o)
  | "max-instructions" => .ok (.numberFor .instructions, o)
  | _ => refuse ("--" ++ word)

/-- Takes an option behind two dashes with its value behind an equals sign. -/
def addAssigned (o : Options) (word value : String) : Except Refusal Options :=
  match word with
  | "max-call-depth" => o.addLimit .callDepth value
  | "max-instructions" => o.addLimit .instructions value
  | _ => refuse ("--" ++ word)

/-- Takes an argument, and tells what comes next. -/
def add (o : Options) (argument : String) : Except Refusal (Expected × Options) :=
  match argument.toList with
  | ['-', '-'] => .ok (.onlyFile, o)
  | '-' :: '-' :: word =>
    let name := String.ofList (word.takeWhile (· != '='))
    match word.dropWhile (· != '=') with
    | [] => o.addWord name
    | _ :: value => (o.addAssigned name (String.ofList value)).map (.anything, ·)
  | '-' :: c :: letters => (o.addLetters (c :: letters)).map (.anything, ·)
  | _ => (o.addFile argument).map (.anything, ·)

/-- Whether an argument looks like an option. -/
def isDashed (argument : String) : Bool :=
  match argument.toList with
  | '-' :: _ :: _ => true
  | _ => false

/-- Takes the arguments that are left. -/
def addAll : Expected → Options → List String → Except Refusal Options
  | .numberFor _, _, [] => .error (.invalid "a value is required")
  | _, o, [] => .ok o
  | .onlyFile, o, a :: rest => o.addFile a >>= fun o => addAll .onlyFile o rest
  | .numberFor limit, o, a :: rest =>
    if isDashed a then refuse a else o.addLimit limit a >>= fun o => addAll .anything o rest
  | .anything, o, a :: rest => o.add a >>= fun (expected, o) => addAll expected o rest

/-- The options that the arguments give. -/
def ofArguments (arguments : List String) : Except Refusal Options :=
  addAll .anything empty arguments

/-- The limits of a run. -/
def limits (o : Options) : Limits :=
  ⟨o.maxCallDepth.getD Limits.usual.maxDepth, o.maxInstructions⟩

end Options

end Monogram
