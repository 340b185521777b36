import Monogram.Proofs.Reading.Confinement
import Monogram.Proofs.Reading.Recovery

/-! # Reading that counts blocks

The readers of statements know only whether a block is around them.  Here they count the blocks that
are open, as a number that a block raises when it begins and lowers when its declarations are over,
and that is looked at where reading resumes.  The two ways to read agree, since the number is the same
again whenever a declaration is over, whether it is well-formed or left out.

* `CountingReader` — readers that carry the number of open blocks along.
* `CountingReader.declarationAt_counts` — reading with and without the number is the same.
* `Source.reading_advances_and_ends` — every declaration takes a token and leaves the number as
  it was; all repetitions end.
-/

namespace Monogram

/-- A reader that notes complaints and carries the number of open blocks along. -/
def CountingReader (α : Type) : Type := Nat → List Token → (Reading α × List Refusal) × Nat

namespace CountingReader

instance : Monad CountingReader where
  pure value := fun blocks tokens => ((.done value tokens, []), blocks)
  bind reader next := fun blocks tokens =>
    match reader blocks tokens with
    | ((.done value rest, notes), blocks) =>
      let ((reading, more), blocks) := next value blocks rest
      ((reading, notes ++ more), blocks)
    | ((.refused refusal, notes), blocks) => ((.refused refusal, notes), blocks)
    | ((.exhausted, notes), blocks) => ((.exhausted, notes), blocks)

instance : MonadLift Reader CountingReader where
  monadLift reader := fun blocks tokens => ((reader tokens, []), blocks)

/-- The reader whose bound was too small. -/
def exhausted {α : Type} : CountingReader α := fun blocks _ => ((.exhausted, []), blocks)

/-- A repetition bounded by the number of tokens left. -/
def bounded {α : Type} (repetition : Nat → CountingReader α) : CountingReader α :=
  fun blocks tokens => repetition (tokens.length + 1) blocks tokens

/-- Reads one block deeper: the number is raised before and lowered after, whatever comes of it. -/
def deeper {α : Type} (reader : CountingReader α) : CountingReader α := fun blocks tokens =>
  let (outcome, inside) := reader (blocks + 1) tokens
  (outcome, inside - 1)

open Reader (check atEnd expect expression accept expectToken typeCode name peek advance giveBack varDecl
  signature modifiers ancestors interfaceDecl startsClass resumeAfter refuse Member)

/-! ## Statements and declarations -/

/-- Declarations up to a closing brace or the end. -/
def blockBody (declaration : CountingReader (Option Stmt)) : Nat → CountingReader (List Stmt)
  | 0 => exhausted
  | bound + 1 => do
    if (← check (.symbol .closeBrace)) || (← atEnd) then
      return []
    else
      let first ← declaration
      let others ← blockBody declaration bound
      return first.toList ++ others

/-- A block behind its opening brace: its declarations are one deeper than what is around it. -/
def block (declaration : CountingReader (Option Stmt)) : CountingReader (List Stmt) := do
  let body ← deeper (bounded (blockBody declaration))
  expect .closeBrace "Expect '\x7d' after block"
  return body

/-- A conditional statement, behind its keyword. -/
def conditional (statement : CountingReader Stmt) : CountingReader Stmt := do
  expect .openParen "Expect '(' after 'i'"
  let condition ← expression
  expect .closeParen "Expect ')' after if condition"
  let yes ← statement
  if ← accept (.keyword .elseWord) then
    return .ifElse condition yes (← statement)
  else
    return .ifThen condition yes

/-- A loop, behind its keyword. -/
def loop (statement : CountingReader Stmt) : CountingReader Stmt := do
  expect .openParen "Expect '(' after 'l'"
  let condition ← expression
  expect .closeParen "Expect ')' after loop condition"
  return .loop condition (← statement)

/-- A block with a handler, behind its keyword. -/
def tryHandle (declaration : CountingReader (Option Stmt)) : CountingReader Stmt := do
  expect .openBrace "Expect '\x7b' before try block"
  let body ← block declaration
  let _ ← expectToken (.keyword .handleWord) "Expect 'h' after try block"
  expect .openParen "Expect '(' after 'h'"
  let code ← typeCode "Expect exception type code"
  let binding ← name "Expect exception variable name"
  expect .closeParen "Expect ')' after exception binding"
  expect .openBrace "Expect '\x7b' before handle block"
  let handler ← block declaration
  return .tryHandle body code binding handler

/-- A statement, given the readers for what it contains. -/
def statement (inner : CountingReader Stmt) (declaration : CountingReader (Option Stmt)) :
    CountingReader Stmt := do
  match (← peek).map Token.kind with
  | some (.keyword .ifWord) => do
    advance
    conditional inner
  | some (.keyword .returnWord) => do
    advance
    giveBack
  | some (.keyword .loopWord) => do
    advance
    loop inner
  | some (.keyword .tryWord) => do
    advance
    tryHandle declaration
  | some (.symbol .openBrace) => do
    advance
    return .block (← block declaration)
  | some .number => return .declare (← varDecl none false)
  | _ => return .expression (← expression)

/-- A method, behind its keyword. -/
def method (declaration : CountingReader (Option Stmt)) (visibility : Option Visibility)
    (isStatic : Bool) : CountingReader MethodDecl := do
  let (returnType, method, parameters) ← signature
  expect .openBrace "Expect '\x7b' before method body"
  let body ← block declaration
  return ⟨method, parameters, body, returnType, visibility, isStatic⟩

/-- Members of a class, up to its closing brace. -/
def members (declaration : CountingReader (Option Stmt)) : Nat → CountingReader (List Member)
  | 0 => exhausted
  | bound + 1 => do
    if (← check (.symbol .closeBrace)) || (← atEnd) then
      return []
    else
      let (visibility, isStatic) ← (modifiers none false : Reader _)
      if ← accept (.keyword .methodWord) then
        let first ← method declaration visibility isStatic
        return .method first :: (← members declaration bound)
      else if ← check .number then
        let first ← varDecl visibility isStatic
        return .field first :: (← members declaration bound)
      else
        (refuse "Expect method or field declaration" : Reader _)

/-- A class, behind its keyword. -/
def classDecl (declaration : CountingReader (Option Stmt)) : CountingReader Stmt := do
  let className ← name "Expect class name"
  let (superclass, interfaces) ← ancestors
  expect .openBrace "Expect '\x7b' before class body"
  let body ← bounded (members declaration)
  expect .closeBrace "Expect '\x7d' after class body"
  return .classDecl ⟨className, superclass, body.filterMap Member.method?,
    body.filterMap Member.field?, interfaces, false⟩

/-- An interface, a class or a statement. -/
def anyDeclaration (inner : CountingReader Stmt) (declaration : CountingReader (Option Stmt)) :
    CountingReader Stmt := fun blocks tokens =>
  if startsClass tokens then classDecl declaration blocks tokens.tail
  else if tokens.head?.any fun t => t.kind == .keyword .interfaceWord then
    ((interfaceDecl tokens.tail, []), blocks)
  else statement inner declaration blocks tokens

/-- A declaration, or nothing and a note when it is malformed: reading resumes as the number of open
blocks says. -/
def recovering (reader : CountingReader Stmt) : CountingReader (Option Stmt) := fun blocks tokens =>
  match reader blocks tokens with
  | ((.done s rest, notes), blocks) => ((.done (some s) rest, notes), blocks)
  | ((.refused r, notes), blocks) =>
    ((.done none (resumeAfter (0 < blocks) tokens r), notes ++ [r]), blocks)
  | ((.exhausted, notes), blocks) => ((.exhausted, notes), blocks)

mutual

/-- A statement with statements nested less deep than the number. -/
def statementAt : Nat → CountingReader Stmt
  | 0 => exhausted
  | depth + 1 => statement (statementAt depth) (declarationAt depth)

/-- A declaration with statements nested less deep than the number. -/
def declarationAt : Nat → CountingReader (Option Stmt)
  | 0 => exhausted
  | depth + 1 => recovering (anyDeclaration (statementAt depth) (declarationAt depth))

end

/-! ## The number stays -/

theorem bind_apply {α γ : Type} {reader : CountingReader α} {next : α → CountingReader γ} {blocks : Nat}
    {tokens : List Token} : (reader >>= next) blocks tokens =
      match reader blocks tokens with
      | ((.done value rest, notes), blocks) =>
        let ((reading, more), blocks) := next value blocks rest
        ((reading, notes ++ more), blocks)
      | ((.refused refusal, notes), blocks) => ((.refused refusal, notes), blocks)
      | ((.exhausted, notes), blocks) => ((.exhausted, notes), blocks) := rfl

/-- Inside of `blocks` blocks the reader does what `noting` does, and the number stays. -/
def Counts {α : Type} (blocks : Nat) (reader : CountingReader α) (noting : NotingReader α) : Prop :=
  ∀ tokens, reader blocks tokens = (noting tokens, blocks)

namespace Counts

variable {α γ : Type} {blocks : Nat} {reader : CountingReader α} {noting : NotingReader α}

theorem lift (reader : Reader α) : Counts blocks (liftM reader) (liftM reader) := fun _ => rfl

protected theorem pure (a : α) : Counts blocks (pure a) (pure a) := fun _ => rfl

protected theorem bind {next : α → CountingReader γ} {next' : α → NotingReader γ}
    (counts : Counts blocks reader noting) (then_counts : ∀ a, Counts blocks (next a) (next' a)) :
    Counts blocks (reader >>= next) (noting >>= next') := by
  intro tokens
  rw [bind_apply, counts, NotingReader.bind_apply]
  rcases noting tokens with ⟨⟨a, mid⟩ | _ | _, notes⟩
  · simp only [then_counts a mid]
  · rfl
  · rfl

theorem map {f : α → γ} (counts : Counts blocks reader noting) :
    Counts blocks (do return f (← reader)) (do return f (← noting)) :=
  counts.bind fun _ => .pure _

theorem after {reader : Reader α} {next : α → CountingReader γ} {next' : α → NotingReader γ}
    (then_counts : ∀ a, Counts blocks (next a) (next' a)) :
    Counts blocks (liftM reader >>= next) (liftM reader >>= next') :=
  (lift reader).bind then_counts

theorem bounded {repetition : Nat → CountingReader α} {repetition' : Nat → NotingReader α}
    (counts : ∀ n, Counts blocks (repetition n) (repetition' n)) :
    Counts blocks (bounded repetition) (NotingReader.bounded repetition') :=
  fun tokens => counts _ tokens

theorem deeper (counts : Counts (blocks + 1) reader noting) : Counts blocks (deeper reader) noting := by
  intro tokens
  rw [CountingReader.deeper, counts]
  rfl

end Counts

variable {blocks : Nat} {inner : CountingReader Stmt} {inner' : NotingReader Stmt}
  {declaration : CountingReader (Option Stmt)} {declaration' : NotingReader (Option Stmt)}

theorem blockBody_counts (counts : Counts blocks declaration declaration') (n : Nat) :
    Counts blocks (blockBody declaration n) (Reader.blockBody declaration' n) := by
  induction n with
  | zero => exact fun _ => rfl
  | succ n ih =>
    refine .after fun closes => .after fun ends => ?_
    split
    · exact .pure _
    · exact counts.bind fun first => ih.map

/-- A block is one deeper, and what is around it as deep as before. -/
theorem block_counts (counts : Counts (blocks + 1) declaration declaration') :
    Counts blocks (block declaration) (Reader.block declaration') :=
  (Counts.deeper (.bounded (blockBody_counts counts))).bind fun _ => .after fun _ => .pure _

theorem conditional_counts (counts : Counts blocks inner inner') :
    Counts blocks (conditional inner) (Reader.conditional inner') := by
  refine .after fun _ => .after fun condition => .after fun _ => counts.bind fun yes => .after fun more => ?_
  split
  · exact counts.map
  · exact .pure _

theorem loop_counts (counts : Counts blocks inner inner') :
    Counts blocks (loop inner) (Reader.loop inner') :=
  .after fun _ => .after fun _ => .after fun _ => counts.map

theorem tryHandle_counts (counts : Counts (blocks + 1) declaration declaration') :
    Counts blocks (tryHandle declaration) (Reader.tryHandle declaration') :=
  .after fun _ => (block_counts counts).bind fun _ => .after fun _ => .after fun _ => .after fun _ =>
    .after fun _ => .after fun _ => .after fun _ => (block_counts counts).map

theorem statement_counts (counts : Counts blocks inner inner')
    (declaration_counts : Counts (blocks + 1) declaration declaration') :
    Counts blocks (statement inner declaration) (Reader.statement inner' declaration') := by
  refine .after fun next => ?_
  have other : Counts blocks (do return Stmt.expression (← expression))
      (do return Stmt.expression (← expression)) := .after fun _ => .pure _
  rcases next.map Token.kind with _ | ⟨s | k | _ | _ | _⟩
  · exact other
  · cases s with
    | openBrace => exact .after fun _ => (block_counts declaration_counts).map
    | _ => exact other
  · cases k with
    | ifWord => exact .after fun _ => conditional_counts counts
    | returnWord => exact .after fun _ => .lift _
    | loopWord => exact .after fun _ => loop_counts counts
    | tryWord => exact .after fun _ => tryHandle_counts declaration_counts
    | _ => exact other
  · exact other
  · exact .after fun _ => .pure _
  · exact other

theorem method_counts {visibility : Option Visibility} {isStatic : Bool}
    (counts : Counts (blocks + 1) declaration declaration') :
    Counts blocks (method declaration visibility isStatic)
      (Reader.method declaration' visibility isStatic) :=
  .after fun _ => .after fun _ => (block_counts counts).map

theorem members_counts (counts : Counts (blocks + 1) declaration declaration') (n : Nat) :
    Counts blocks (members declaration n) (Reader.members declaration' n) := by
  induction n with
  | zero => exact fun _ => rfl
  | succ n ih =>
    refine .after fun closes => .after fun ends => ?_
    split
    · exact .pure _
    · refine .after fun modified => .after fun method => ?_
      split
      · exact (method_counts counts).bind fun first => ih.map
      · refine .after fun field => ?_
        split
        · exact .after fun first => ih.map
        · exact .lift _

theorem classDecl_counts (counts : Counts (blocks + 1) declaration declaration') :
    Counts blocks (classDecl declaration) (Reader.classDecl declaration') :=
  .after fun _ => .after fun _ => .after fun _ => (Counts.bounded (members_counts counts)).bind fun _ =>
    .after fun _ => .pure _

theorem anyDeclaration_counts (counts : Counts blocks inner inner')
    (declaration_counts : Counts (blocks + 1) declaration declaration') :
    Counts blocks (anyDeclaration inner declaration) (Reader.anyDeclaration inner' declaration') := by
  intro tokens
  rw [anyDeclaration, Reader.anyDeclaration]
  split
  · exact classDecl_counts declaration_counts _
  · split
    · rfl
    · exact statement_counts counts declaration_counts tokens

theorem recovering_counts {reader : CountingReader Stmt} {noting : NotingReader Stmt}
    (counts : Counts blocks reader noting) :
    Counts blocks (recovering reader) (Reader.recovering (0 < blocks) noting) := by
  intro tokens
  rw [recovering, Reader.recovering, counts]
  rcases noting tokens with ⟨_ | _ | _, notes⟩ <;> rfl

/-- Counting the blocks changes nothing, and behind every statement and every declaration, read or left
out, the number is what it was. -/
theorem declarationAt_counts (depth blocks : Nat) :
    Counts blocks (statementAt depth) (Reader.statementAt depth)
      ∧ Counts blocks (declarationAt depth) (Reader.declarationAt depth (0 < blocks)) := by
  induction depth generalizing blocks with
  | zero => exact ⟨fun _ => rfl, fun _ => rfl⟩
  | succ depth ih =>
    -- One block more is around what a block contains, so there are some, however many are outside.
    have inside : Counts (blocks + 1) (declarationAt depth) (Reader.declarationAt depth true) := by
      simpa using (ih (blocks + 1)).2
    rw [statementAt, Reader.statementAt, declarationAt, Reader.declarationAt]
    exact ⟨statement_counts (ih blocks).1 inside,
      recovering_counts (anyDeclaration_counts (ih blocks).1 inside)⟩

end CountingReader

/-! ## Every declaration takes a token -/

variable {α : Type} {tokens : List Token} {taken n : Nat}

/-- At the end of the text two readings that are alike are the same. -/
theorem NotingReader.Alike.eq_of_ending {read read' : Reading α × List Refusal}
    (alike : NotingReader.Alike tokens [] [] taken read read') : read = read' := by
  obtain ⟨r, notes⟩ := read
  obtain ⟨r', notes'⟩ := read'
  obtain ⟨reading, same⟩ := alike
  refine Prod.ext ?_ ?_
  · cases reading with
    | done => rfl
    | refused alike => cases alike; rfl
  · refine List.forall₂_eq_eq_eq ▸ same.imp fun r r' alike => ?_
    cases alike
    rfl

namespace Reader

theorem resumeAfter_suffix {r : Refusal} (inBlock : Bool) (behind : r.rest <:+ tokens) :
    resumeAfter inBlock tokens r <:+ tokens := by
  unfold resumeAfter
  split
  · exact ((resume_suffix inBlock _).trans (List.tail_suffix r.rest)).trans behind
  · exact (resume_suffix inBlock _).trans behind

/-- However malformed it is, a declaration comes to an end behind its first token, and the bound on its
depth does not matter once it is as large as the tokens are many. -/
theorem declarationAt_advances (some_ : tokens ≠ []) (inBlock : Bool) :
    ∃ declared rest notes, rest <:+ tokens ∧ rest.length < tokens.length
      ∧ ∀ n, tokens.length < n → declarationAt n inBlock tokens = (.done declared rest, notes) := by
  have alike (m : Nat) (enough : tokens.length ≤ m) :=
    have both := confined_statementAt (Nat.le_refl tokens.length) enough
    confined_anyDeclaration both.1 both.2 tokens [] [] .ending (Nat.lt_succ_self _)
  simp only [List.append_nil] at alike
  have reading := (alike _ (Nat.le_refl _)).reading
  have same (m : Nat) (enough : tokens.length ≤ m) := (alike m enough).eq_of_ending
  generalize anyDeclaration (statementAt tokens.length) (declarationAt tokens.length true) tokens = read
    at reading same
  -- any bound that is large enough leads to what this one leads to
  have recovered (n : Nat) (enough : tokens.length < n) : declarationAt n inBlock tokens =
      recovering inBlock (fun _ => read) tokens := by
    obtain ⟨m, rfl, room⟩ := exists_round enough
    simp only [declarationAt, recovering, ← same m room]
  obtain ⟨r, notes⟩ := read
  cases r with
  | exhausted => exact absurd reading Reading.Alike.not_exhausted
  | done s rest =>
    obtain ⟨front, behind, fewer, rfl, -⟩ := reading.of_done
    exact ⟨some s, front ++ [], notes, by simpa using behind, by rw [List.append_nil]; omega, recovered⟩
  | refused r =>
    obtain ⟨q, -, about⟩ := reading.of_refused
    obtain @⟨front, cause, behind⟩ := about
    refine ⟨none, _, _, ?_, ?_, recovered⟩
    · exact resumeAfter_suffix inBlock (by simpa using behind)
    · exact length_resumeAfter_lt inBlock some_ (by simpa using behind.length_le)

/-! ## Every repetition ends -/

/-- No bound inside is too small, whatever the tokens are. -/
def Terminates (reader : Reader α) : Prop := ∀ tokens, reader tokens ≠ .exhausted

theorem Settles.terminates {reader : Reader α} (settles : ∀ bound, Settles bound taken reader) :
    Terminates reader := by
  intro tokens exhausted
  have within := settles (tokens.length + 1) tokens (Nat.lt_succ_self _)
  rwa [exhausted] at within

theorem proceeds_innerDeclaration {bound : Nat} : NotingReader.Proceeds bound innerDeclaration := by
  intro tokens some_ short
  rw [NotingReader.reading, innerDeclaration_apply]
  exact (settles_statementAt (tokens.length + 1)).2 true tokens some_ (Nat.lt_succ_self _)

/-- The repetitions of the readers end on every list of tokens: members of interfaces and classes,
declarations in blocks, parameters, arguments, modifiers, and everything in an expression. -/
theorem repetitions_terminate :
    Terminates innerBody.reading
      ∧ Terminates (NotingReader.bounded (members innerDeclaration)).reading
      ∧ Terminates (bounded interfaceMembers)
      ∧ (∀ close what, Terminates (commaList parameter close what))
      ∧ Terminates (arguments expression) ∧ Terminates expression
      ∧ (∀ visibility isStatic, Terminates (modifiers visibility isStatic)) := by
  have body {bound : Nat} : NotingReader.Settles bound 0 innerBody :=
    .bounded fun n => settles_blockBody proceeds_innerDeclaration n
  have members_ {bound : Nat} : NotingReader.Settles bound 0
      (NotingReader.bounded (members innerDeclaration)) :=
    .bounded fun n => settles_members proceeds_innerDeclaration n
  have interface_ {bound : Nat} : Settles bound 0 (bounded interfaceMembers) :=
    .bounded fun n => settles_interfaceMembers n
  have parameter_ {bound : Nat} : Settles bound 1 parameter :=
    (settles_typeCode _).andThen fun _ => (Settles.name _).map.zero
  exact ⟨Settles.terminates fun _ => body, Settles.terminates fun _ => members_,
    Settles.terminates fun _ => interface_,
    fun close what => Settles.terminates fun _ => parameter_.commaList close what,
    Settles.terminates fun _ => settles_expression.commaList _ _,
    Settles.terminates fun _ => settles_expression,
    fun visibility isStatic => Settles.terminates fun _ => settles_modifiers visibility isStatic⟩

end Reader

open Reader (Terminates innerBody innerDeclaration)

/-- Reading always takes a token and always ends.  A declaration that is read where a token is left, with
any number of blocks around it, leaves a proper end of the tokens and the number of blocks as it was,
whether it is well-formed or left out, and no bound on its depth matters that is as large as the tokens
are many; every repetition ends; and every text is read to its end. -/
theorem Source.reading_advances_and_ends :
    (∀ tokens : List Token, tokens ≠ [] → ∀ blocks, ∃ declared rest notes,
        rest <:+ tokens ∧ rest.length < tokens.length ∧ ∀ depth, tokens.length < depth →
          CountingReader.declarationAt depth blocks tokens = ((.done declared rest, notes), blocks)
            ∧ Reader.declarationAt depth (0 < blocks) tokens = (.done declared rest, notes))
      ∧ (Terminates innerBody.reading
        ∧ Terminates (NotingReader.bounded (Reader.members innerDeclaration)).reading
        ∧ Terminates (Reader.bounded Reader.interfaceMembers)
        ∧ (∀ close what, Terminates (Reader.commaList Reader.parameter close what))
        ∧ Terminates (Reader.arguments Reader.expression) ∧ Terminates Reader.expression
        ∧ ∀ visibility isStatic, Terminates (Reader.modifiers visibility isStatic))
      ∧ ∀ text, ∃ statements,
        (NotingReader.bounded Reader.program (Scan.ofText text).tokens).1 = .done statements []
          ∧ (Source.read text).statements = statements := by
  refine ⟨fun tokens some_ blocks => ?_, Reader.repetitions_terminate, fun text => ?_⟩
  · obtain ⟨declared, rest, notes, behind, fewer, read⟩ := Reader.declarationAt_advances some_ (0 < blocks)
    refine ⟨declared, rest, notes, behind, fewer, fun depth enough => ⟨?_, read depth enough⟩⟩
    rw [(CountingReader.declarationAt_counts depth blocks).2 tokens, read depth enough]
  · obtain ⟨statements, done⟩ := Reader.program_done (Scan.ofText text).tokens
    exact ⟨statements, done, by simp only [Source.read, done]⟩

/-- A parenthesis that nothing can begin with, inside of two blocks. -/
theorem Source.reading_advances_stray : ∃ declared rest notes,
    rest <:+ [Reader.parenToken, Reader.closeToken] ∧ rest.length < 2
      ∧ CountingReader.declarationAt 3 2 [Reader.parenToken, Reader.closeToken]
        = ((.done declared rest, notes), 2) := by
  obtain ⟨declared, rest, notes, behind, fewer, read⟩ :=
    Source.reading_advances_and_ends.1 [Reader.parenToken, Reader.closeToken] (by simp) 2
  exact ⟨declared, rest, notes, behind, fewer, (read 3 (by decide)).1⟩

end Monogram
