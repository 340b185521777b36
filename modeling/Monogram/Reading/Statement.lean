import Monogram.Reading.Expression

/-! # Reading statements and declarations

A declaration that is malformed is left out: the complaint is noted and reading resumes at the next
likely start of a statement.  Readers that contain declarations therefore return, beside what came
of reading, the complaints noted on the way.

* `NotingReader` — readers that note complaints.
* `resume` — where reading goes on after a complaint.
* `statementAt`, `declarationAt` — the two recursive readers, bounded in depth.
-/

namespace Monogram

/-- A reader that also notes complaints about what it left out. -/
def NotingReader (α : Type) : Type := List Token → Reading α × List Refusal

namespace NotingReader

instance : Monad NotingReader where
  pure value := fun tokens => (.done value tokens, [])
  bind reader next := fun tokens =>
    match reader tokens with
    | (.done value rest, notes) =>
      let (reading, more) := next value rest
      (reading, notes ++ more)
    | (.refused refusal, notes) => (.refused refusal, notes)
    | (.exhausted, notes) => (.exhausted, notes)

instance : MonadLift Reader NotingReader where
  monadLift reader := fun tokens => (reader tokens, [])

/-- The reader whose bound was too small. -/
def exhausted {α : Type} : NotingReader α := fun _ => (.exhausted, [])

/-- A repetition bounded by the number of tokens left: each round takes at least one. -/
def bounded {α : Type} (repetition : Nat → NotingReader α) : NotingReader α := fun tokens =>
  repetition (tokens.length + 1) tokens

end NotingReader

namespace Reader

/-- Whether reading may go on before this token. -/
def startsStatement : Token.Kind → Bool
  | .keyword .classWord | .keyword .methodWord | .keyword .ifWord | .keyword .loopWord
  | .keyword .returnWord | .keyword .tryWord | .keyword .interfaceWord => true
  | _ => false

/-- The tokens from the next likely start of a statement.  A closing brace ends the search: it stays
when it closes the block around, and is taken when there is none. -/
def resume (inBlock : Bool) : List Token → List Token
  | [] => []
  | t :: rest =>
    if startsStatement t.kind then t :: rest
    else if t.kind = .symbol .closeBrace then (if inBlock then t :: rest else rest)
    else resume inBlock rest

/-- The tokens after a malformed declaration that began at `start`, at least one of them passed. -/
def resumeAfter (inBlock : Bool) (start : List Token) (r : Refusal) : List Token :=
  resume inBlock (if r.rest.length = start.length then r.rest.tail else r.rest)

/-- A variable or a field. -/
def varDecl (visibility : Option Visibility) (isStatic : Bool) : Reader VarDecl := do
  let code ← typeCode "Expect type code"
  let ident ← name "Expect variable name"
  if ← accept (.symbol .equal) then
    return ⟨code, ident, some (← expression), visibility, isStatic⟩
  else
    return ⟨code, ident, none, visibility, isStatic⟩

/-- A parameter of a method. -/
def parameter : Reader VarDecl := do
  let code ← typeCode "Expect parameter type code"
  let ident ← name "Expect parameter name"
  return ⟨code, ident, none, none, false⟩

/-- Result type, name and parameters of a method. -/
def signature : Reader (TypeCode × String × List VarDecl) := do
  let returnType ← typeCode "Expect return type code"
  let method ← name "Expect method name"
  expect .openParen "Expect '(' after method name"
  let parameters ← commaList parameter .closeParen "Expect ')' after parameters"
  return (returnType, method, parameters)

/-- Modifiers of a member in any order, each at most once. -/
def modifiers (visibility : Option Visibility) (isStatic : Bool) :
    Reader (Option Visibility × Bool)
  | [] => .done (visibility, isStatic) []
  | t :: rest =>
    match t.kind, visibility, isStatic with
    | .keyword .publicWord, none, _ => modifiers (some .shown) isStatic rest
    | .keyword .privateWord, none, _ => modifiers (some .hidden) isStatic rest
    | .keyword .staticWord, _, false => modifiers visibility true rest
    | _, _, _ => .done (visibility, isStatic) (t :: rest)

/-- Members of an interface, up to its closing brace. -/
def interfaceMembers : Nat → Reader (List MethodDecl)
  | 0 => exhausted
  | bound + 1 => do
    if (← check (.symbol .closeBrace)) || (← atEnd) then
      return []
    else if ← accept (.keyword .methodWord) then
      let (returnType, method, parameters) ← signature
      let others ← interfaceMembers bound
      return ⟨method, parameters, [], returnType, none, false⟩ :: others
    else
      refuse "Interfaces can only contain methods"

/-- An interface, behind its keyword. -/
def interfaceDecl : Reader Stmt := do
  let interface ← name "Expect interface name"
  expect .openBrace "Expect '\x7b' before interface body"
  let methods ← bounded interfaceMembers
  expect .closeBrace "Expect '\x7d' after interface body"
  return .classDecl ⟨interface, none, methods, [], [], true⟩

/-- The superclass and the interfaces of a class. -/
def ancestors : Reader (Option String × List String) := do
  if ← accept (.symbol .caret) then
    let superclass ← name "Expect superclass or interface name"
    if ← accept (.symbol .comma) then
      let interfaces ← bounded (commaItems (name "Expect interface name"))
      return (some superclass, interfaces)
    else
      return (some superclass, [])
  else
    return (none, [])

/-- The value to give back: none before a closing brace or where no expression can be read. -/
def giveBack : Reader Stmt := do
  if ← check (.symbol .closeBrace) then
    return .giveBack none
  else
    return .giveBack (← optional expression)

/-- Declarations up to a closing brace or the end. -/
def blockBody (declaration : NotingReader (Option Stmt)) : Nat → NotingReader (List Stmt)
  | 0 => NotingReader.exhausted
  | bound + 1 => do
    if (← check (.symbol .closeBrace)) || (← atEnd) then
      return []
    else
      let first ← declaration
      let others ← blockBody declaration bound
      return first.toList ++ others

/-- A block behind its opening brace, its closing brace included. -/
def block (declaration : NotingReader (Option Stmt)) : NotingReader (List Stmt) := do
  let body ← NotingReader.bounded (blockBody declaration)
  expect .closeBrace "Expect '\x7d' after block"
  return body

/-- A conditional statement, behind its keyword. -/
def conditional (statement : NotingReader Stmt) : NotingReader Stmt := do
  expect .openParen "Expect '(' after 'i'"
  let condition ← expression
  expect .closeParen "Expect ')' after if condition"
  let yes ← statement
  if ← accept (.keyword .elseWord) then
    return .ifElse condition yes (← statement)
  else
    return .ifThen condition yes

/-- A loop, behind its keyword. -/
def loop (statement : NotingReader Stmt) : NotingReader Stmt := do
  expect .openParen "Expect '(' after 'l'"
  let condition ← expression
  expect .closeParen "Expect ')' after loop condition"
  return .loop condition (← statement)

/-- A block with a handler, behind its keyword. -/
def tryHandle (declaration : NotingReader (Option Stmt)) : NotingReader Stmt := do
  expect .openBrace "Expect '\x7b' before try block"
  let body ← block declaration
  let _ ← expectToken (.keyword .handleWord) "Expect 'h' after try block"
  expect .openParen "Expect '(' after 'h'"
  let code ← typeCode "Expect exception type code"
  let binding ← name "Expect exception variable name"
  expect .closeParen "Expect ')' after exception binding"
  expect .openBrace "Expect '\x7b' before handle block"
  let handler ← block declaration
  return .tryHandle body code binding handler

/-- A statement, given the readers for what it contains. -/
def statement (inner : NotingReader Stmt) (declaration : NotingReader (Option Stmt)) :
    NotingReader Stmt := do
  match (← peek).map Token.kind with
  | some (.keyword .ifWord) => do
    advance
    conditional inner
  | some (.keyword .returnWord) => do
    advance
    giveBack
  | some (.keyword .loopWord) => do
    advance
    loop inner
  | some (.keyword .tryWord) => do
    advance
    tryHandle declaration
  | some (.symbol .openBrace) => do
    advance
    return .block (← block declaration)
  | some .number => return .declare (← varDecl none false)
  | _ => return .expression (← expression)

/-- A member of a class. -/
inductive Member where
  | method (decl : MethodDecl)
  | field (decl : VarDecl)

/-- The method of a member. -/
def Member.method? : Member → Option MethodDecl
  | .method decl => some decl
  | .field _ => none

/-- The field of a member. -/
def Member.field? : Member → Option VarDecl
  | .method _ => none
  | .field decl => some decl

/-- A method, behind its keyword. -/
def method (declaration : NotingReader (Option Stmt)) (visibility : Option Visibility)
    (isStatic : Bool) : NotingReader MethodDecl := do
  let (returnType, method, parameters) ← signature
  expect .openBrace "Expect '\x7b' before method body"
  let body ← block declaration
  return ⟨method, parameters, body, returnType, visibility, isStatic⟩

/-- Members of a class, up to its closing brace. -/
def members (declaration : NotingReader (Option Stmt)) : Nat → NotingReader (List Member)
  | 0 => NotingReader.exhausted
  | bound + 1 => do
    if (← check (.symbol .closeBrace)) || (← atEnd) then
      return []
    else
      let (visibility, isStatic) ← (modifiers none false : Reader _)
      if ← accept (.keyword .methodWord) then
        let first ← method declaration visibility isStatic
        return .method first :: (← members declaration bound)
      else if ← check .number then
        let first ← varDecl visibility isStatic
        return .field first :: (← members declaration bound)
      else
        (refuse "Expect method or field declaration" : Reader _)

/-- A class, behind its keyword. -/
def classDecl (declaration : NotingReader (Option Stmt)) : NotingReader Stmt := do
  let className ← name "Expect class name"
  let (superclass, interfaces) ← ancestors
  expect .openBrace "Expect '\x7b' before class body"
  let body ← NotingReader.bounded (members declaration)
  expect .closeBrace "Expect '\x7d' after class body"
  return .classDecl ⟨className, superclass, body.filterMap Member.method?,
    body.filterMap Member.field?, interfaces, false⟩

/-- Whether a class starts here: its keyword may also be a name. -/
def startsClass : List Token → Bool
  | t :: next :: _ => t.kind == .keyword .classWord && next.isName
  | _ => false

/-- An interface, a class or a statement. -/
def anyDeclaration (inner : NotingReader Stmt) (declaration : NotingReader (Option Stmt)) :
    NotingReader Stmt := fun tokens =>
  if startsClass tokens then classDecl declaration tokens.tail
  else if tokens.head?.any fun t => t.kind == .keyword .interfaceWord then
    (interfaceDecl tokens.tail, [])
  else statement inner declaration tokens

/-- A declaration, or nothing and a note when it is malformed. -/
def recovering (inBlock : Bool) (reader : NotingReader Stmt) : NotingReader (Option Stmt) :=
  fun tokens =>
    match reader tokens with
    | (.done s rest, notes) => (.done (some s) rest, notes)
    | (.refused r, notes) => (.done none (resumeAfter inBlock tokens r), notes ++ [r])
    | (.exhausted, notes) => (.exhausted, notes)

mutual

/-- A statement with statements nested less deep than the number. -/
def statementAt : Nat → NotingReader Stmt
  | 0 => NotingReader.exhausted
  | depth + 1 => statement (statementAt depth) (declarationAt depth true)

/-- A declaration with statements nested less deep than the number, in a block or outside. -/
def declarationAt : Nat → Bool → NotingReader (Option Stmt)
  | 0, _ => NotingReader.exhausted
  | depth + 1, inBlock =>
    recovering inBlock (anyDeclaration (statementAt depth) (declarationAt depth true))

end

/-- A declaration outside of every block. -/
def topDeclaration : NotingReader (Option Stmt) :=
  NotingReader.bounded fun depth => declarationAt depth false

/-- Declarations up to the end. -/
def program : Nat → NotingReader (List Stmt)
  | 0 => NotingReader.exhausted
  | bound + 1 => do
    if ← atEnd then
      return []
    else
      let first ← topDeclaration
      let others ← program bound
      return first.toList ++ others

end Reader

end Monogram
