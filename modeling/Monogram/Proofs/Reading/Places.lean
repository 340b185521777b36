import Monogram.Proofs.Reading.Statements
import Monogram.Proofs.Token.Tiling
import Monogram.Reading.Source

/-! # Where complaints stand

A reader leaves no tokens but those that it was given, and complains about one of them, or about the
end of the text when none is left.  So every diagnostic of a text stands somewhere in it.

* `Refusal.Among` — a complaint about a list of tokens.
* `Reader.Keeps`, `NotingReader.Keeps` — readers that stay among the tokens given to them.
* `Source.read_located` — the tokens and diagnostics of a text and where they stand.
-/

namespace Monogram

variable {α γ : Type}

/-! ## Readers that stay among their tokens -/

/-- Neither goes on elsewhere than among `tokens` nor complains about another token. -/
def Refusal.Among (tokens : List Token) (r : Refusal) : Prop :=
  r.rest ⊆ tokens ∧
    match r.cause with
    | .expected _ => True
    | .typeCode t | .target t => t ∈ tokens

theorem Refusal.Among.mono {r : Refusal} {front tokens : List Token} (among : r.Among front)
    (fewer : front ⊆ tokens) : r.Among tokens := by
  obtain ⟨cause, rest⟩ := r
  refine ⟨List.Subset.trans among.1 fewer, ?_⟩
  cases cause with
  | expected => trivial
  | typeCode t | target t => exact fewer among.2

/-- What is left is among `tokens`, and so is what is refused. -/
def Reading.Among (tokens : List Token) : Reading α → Prop
  | .done _ rest => rest ⊆ tokens
  | .refused r => r.Among tokens
  | .exhausted => True

theorem Reading.Among.mono {r : Reading α} {front tokens : List Token} (among : r.Among front)
    (fewer : front ⊆ tokens) : r.Among tokens := by
  cases r with
  | done v rest => exact List.Subset.trans among fewer
  | refused r => exact Refusal.Among.mono among fewer
  | exhausted => trivial

theorem Reading.Among.andThen {r : Reading α} {next : α → List Token → Reading γ}
    {tokens : List Token} (among : r.Among tokens)
    (later : ∀ a mid, mid ⊆ tokens → (next a mid).Among tokens) : (r.andThen next).Among tokens := by
  cases r with
  | done a mid => exact later a mid among
  | refused r => exact among
  | exhausted => trivial

namespace Reader

/-- Leaves no other tokens than those given, and complains about no others. -/
def Keeps (reader : Reader α) : Prop := ∀ tokens, (reader tokens).Among tokens

namespace Keeps

variable {reader : Reader α} {next : α → Reader γ}

protected theorem pure (a : α) : Keeps (pure a : Reader α) := fun _ => List.Subset.refl _

protected theorem bind (keeps : Keeps reader) (then_keeps : ∀ a, Keeps (next a)) :
    Keeps (reader >>= next) :=
  fun tokens => (keeps tokens).andThen fun a mid fewer => (then_keeps a mid).mono fewer

theorem map {f : α → γ} (keeps : Keeps reader) : Keeps (do return f (← reader) : Reader γ) :=
  keeps.bind fun _ => .pure _

theorem exhausted : Keeps (exhausted : Reader α) := fun _ => trivial

theorem refuse (what : String) : Keeps (refuse what : Reader α) :=
  fun _ => ⟨List.Subset.refl _, trivial⟩

theorem peek : Keeps peek := fun _ => List.Subset.refl _

theorem check (kind : Token.Kind) : Keeps (check kind) := fun _ => List.Subset.refl _

theorem atEnd : Keeps atEnd := fun _ => List.Subset.refl _

theorem advance : Keeps advance := fun tokens => (List.tail_sublist tokens).subset

theorem accept (kind : Token.Kind) : Keeps (accept kind) := by
  intro tokens
  unfold Reader.accept
  split
  · split
    · exact List.subset_cons_self _ _
    · exact List.Subset.refl _
  · exact List.Subset.refl _

theorem expectToken (kind : Token.Kind) (what : String) : Keeps (expectToken kind what) := by
  intro tokens
  unfold Reader.expectToken
  split
  · split
    · exact List.subset_cons_self _ _
    · exact refuse (α := Token) what _
  · exact refuse (α := Token) what _

theorem expect (s : Symbol) (what : String) : Keeps (expect s what) := (expectToken _ what).map

theorem name (what : String) : Keeps (name what) := by
  intro tokens
  unfold Reader.name
  split
  · split
    · exact List.subset_cons_self _ _
    · exact refuse (α := String) what _
  · exact refuse (α := String) what _

/-- A number that is no type annotation is itself complained about. -/
theorem typeCode (what : String) : Keeps (typeCode what) := by
  intro tokens
  have among := expectToken .number what tokens
  unfold Reader.typeCode
  cases taken : Reader.expectToken .number what tokens with
  | done t rest =>
    obtain ⟨rfl, -⟩ := expectToken_eq_done.1 taken
    rw [Reading.andThen]
    split
    · exact List.subset_cons_self _ _
    · exact ⟨List.subset_cons_self _ _, List.mem_cons_self⟩
  | refused r =>
    rw [taken] at among
    exact among
  | exhausted => trivial

theorem optional (keeps : Keeps reader) : Keeps (optional reader) := by
  intro tokens
  have among := keeps tokens
  unfold Reader.optional
  split
  · next taken =>
    rw [taken] at among
    exact among
  · exact List.Subset.refl _
  · trivial

theorem bounded {repetition : Nat → Reader α} (keeps : ∀ n, Keeps (repetition n)) :
    Keeps (bounded repetition) := fun tokens => keeps _ tokens

theorem acceptThen {kind : Token.Kind} {yes no : Reader α} (yes_keeps : Keeps yes)
    (no_keeps : Keeps no) : Keeps (do if ← Reader.accept kind then yes else no : Reader α) :=
  (accept kind).bind fun taken => by cases taken <;> assumption

theorem commaItems (keeps : Keeps reader) (n : Nat) : Keeps (commaItems reader n) := by
  induction n with
  | zero => exact exhausted
  | succ n ih => exact keeps.bind fun first => acceptThen ih.map (.pure _)

theorem commaList (keeps : Keeps reader) (close : Symbol) (what : String) :
    Keeps (commaList reader close what) := by
  refine (check _).bind fun closes => ?_
  have closing (items : List α) : Keeps (do Reader.expect close what; return items : Reader _) :=
    (expect close what).bind fun _ => .pure _
  cases closes with
  | true => exact closing []
  | false => exact (bounded fun n => keeps.commaItems n).bind closing

end Keeps

/-! ## Expressions -/

variable {whole operand : Reader Expr}

theorem keeps_mapEntry (keeps : Keeps whole) : Keeps (mapEntry whole) :=
  keeps.bind fun _ => (Keeps.expect _ _).bind fun _ => keeps.map

theorem keeps_primary (keeps : Keeps whole) : Keeps (primary whole) := by
  refine Keeps.peek.bind fun next => ?_
  split
  · exact .refuse _
  · split
    · split
      · exact Keeps.advance.bind fun _ => .pure _
      · exact .refuse _
    · exact Keeps.advance.bind fun _ => .pure _
    · refine Keeps.advance.bind fun _ => (Keeps.name _).bind fun className => ?_
      exact .acceptThen (keeps.commaList _ _).map (.pure _)
    · exact Keeps.advance.bind fun _ => .pure _
    · exact Keeps.advance.bind fun _ => .pure _
    · exact Keeps.advance.bind fun _ => (keeps.commaList _ _).map
    · exact Keeps.advance.bind fun _ => ((keeps_mapEntry keeps).commaList _ _).map
    · exact Keeps.advance.bind fun _ => keeps.bind fun _ => (Keeps.expect _ _).bind fun _ => .pure _
    · exact .refuse _

theorem keeps_suffixes (keeps : Keeps whole) (n : Nat) (e : Expr) :
    Keeps (suffixes whole n e) := by
  induction n generalizing e with
  | zero => exact .exhausted
  | succ n ih =>
    refine .acceptThen ((keeps.commaList _ _).bind fun args => ih _) ?_
    refine .acceptThen ((Keeps.name _).bind fun member => ih _) ?_
    refine .acceptThen (keeps.bind fun index => ?_) (.pure e)
    exact (Keeps.expect _ _).bind fun _ => ih _

theorem keeps_suffixed (keeps : Keeps whole) : Keeps (suffixed whole) :=
  (keeps_primary keeps).bind fun e => .bounded fun n => keeps_suffixes keeps n e

theorem keeps_prefixed (keeps : Keeps operand) : Keeps (prefixed operand) := by
  intro tokens
  induction tokens with
  | nil => exact keeps []
  | cons t tokens ih =>
    unfold prefixed
    split
    · exact (ih.mono (List.subset_cons_self _ _)).andThen fun e rest fewer => fewer
    · exact keeps (t :: tokens)

theorem keeps_chain (level : Connective) (keeps : Keeps operand) (n : Nat) (e : Expr) :
    Keeps (chain level operand n e) := by
  induction n generalizing e with
  | zero => exact .exhausted
  | succ n ih =>
    refine Keeps.peek.bind fun next => ?_
    split
    · exact .pure _
    · exact Keeps.advance.bind fun _ => keeps.bind fun right => ih _

theorem keeps_leftAssoc (level : Connective) (keeps : Keeps operand) :
    Keeps (leftAssoc level operand) :=
  keeps.bind fun e => .bounded fun n => keeps_chain level keeps n e

theorem keeps_operation (keeps : Keeps whole) : Keeps (operation whole) := by
  unfold operation
  generalize levels = ls
  induction ls with
  | nil => exact keeps_prefixed (keeps_suffixed keeps)
  | cons level ls ih => exact keeps_leftAssoc level ih

/-- A target that nothing can be assigned to is complained about at the equals sign behind it. -/
theorem keeps_assignment (keeps : Keeps operand) (n : Nat) : Keeps (assignment operand n) := by
  induction n with
  | zero => exact .exhausted
  | succ n ih =>
    intro tokens
    rw [assignment_succ]
    refine (keeps tokens).andThen fun target mid fewer => ?_
    split
    · next heads =>
      obtain ⟨t, mid, rfl, -⟩ := heads
      have value : (assignment operand n mid).Among (t :: mid) :=
        (ih mid).mono (List.subset_cons_self _ _)
      refine (value.mono fewer).andThen fun value rest left => ?_
      split
      · exact left
      · exact ⟨left, fewer List.mem_cons_self⟩
    · exact fewer

theorem keeps_expressionAt (depth : Nat) : Keeps (expressionAt depth) := by
  induction depth with
  | zero => exact .exhausted
  | succ depth ih => exact .bounded fun n => keeps_assignment (keeps_operation ih) n

theorem keeps_expression : Keeps expression := .bounded keeps_expressionAt

/-! ## Declarations without statements in them -/

theorem keeps_varDecl (visibility : Option Visibility) (isStatic : Bool) :
    Keeps (varDecl visibility isStatic) :=
  (Keeps.typeCode _).bind fun _ => (Keeps.name _).bind fun _ =>
    .acceptThen keeps_expression.map (.pure _)

theorem keeps_parameter : Keeps parameter :=
  (Keeps.typeCode _).bind fun _ => (Keeps.name _).map

theorem keeps_signature : Keeps signature :=
  (Keeps.typeCode _).bind fun _ => (Keeps.name _).bind fun _ => (Keeps.expect _ _).bind fun _ =>
    (keeps_parameter.commaList _ _).map

theorem keeps_modifiers (visibility : Option Visibility) (isStatic : Bool) :
    Keeps (modifiers visibility isStatic) := by
  intro tokens
  induction tokens generalizing visibility isStatic with
  | nil => exact List.Subset.refl _
  | cons t tokens ih =>
    unfold modifiers
    split
    · exact (ih _ _).mono (List.subset_cons_self _ _)
    · exact (ih _ _).mono (List.subset_cons_self _ _)
    · exact (ih _ _).mono (List.subset_cons_self _ _)
    · exact List.Subset.refl _

theorem keeps_interfaceMembers (n : Nat) : Keeps (interfaceMembers n) := by
  induction n with
  | zero => exact .exhausted
  | succ n ih =>
    refine (Keeps.check _).bind fun closes => Keeps.atEnd.bind fun ends => ?_
    split
    · exact .pure _
    · refine .acceptThen (keeps_signature.bind fun (returnType, method, parameters) => ?_) (.refuse _)
      exact ih.map

theorem keeps_interfaceDecl : Keeps interfaceDecl :=
  (Keeps.name _).bind fun _ => (Keeps.expect _ _).bind fun _ =>
    (Keeps.bounded keeps_interfaceMembers).bind fun _ => (Keeps.expect _ _).map

theorem keeps_ancestors : Keeps ancestors := by
  refine .acceptThen ((Keeps.name _).bind fun superclass => ?_) (.pure _)
  exact .acceptThen (Keeps.bounded fun n => (Keeps.name _).commaItems n).map (.pure _)

theorem keeps_giveBack : Keeps giveBack := by
  refine (Keeps.check _).bind fun closes => ?_
  split
  · exact .pure _
  · exact keeps_expression.optional.map

end Reader

/-! ## Statements -/

namespace NotingReader

/-- Leaves no other tokens than those given, and complains and notes about no others. -/
def Keeps (reader : NotingReader α) : Prop :=
  ∀ tokens, (reader tokens).1.Among tokens ∧ ∀ note ∈ (reader tokens).2, note.Among tokens

namespace Keeps

variable {reader : NotingReader α} {next : α → NotingReader γ}

theorem lift {reader : Reader α} (keeps : reader.Keeps) : Keeps (liftM reader : NotingReader α) :=
  fun tokens => ⟨keeps tokens, nofun⟩

protected theorem pure (a : α) : Keeps (pure a : NotingReader α) := lift (.pure a)

theorem exhausted : Keeps (exhausted : NotingReader α) := lift .exhausted

protected theorem bind (keeps : Keeps reader) (then_keeps : ∀ a, Keeps (next a)) :
    Keeps (reader >>= next) := by
  intro tokens
  have first := keeps tokens
  rw [bind_apply]
  rcases read : reader tokens with ⟨⟨a, mid⟩ | r | _, notes⟩
  · rw [read] at first
    have later := then_keeps a mid
    refine ⟨later.1.mono first.1, fun note member => ?_⟩
    rcases List.mem_append.1 member with early | late
    · exact first.2 note early
    · exact (later.2 note late).mono first.1
  · rwa [read] at first
  · rwa [read] at first

theorem map {f : α → γ} (keeps : Keeps reader) : Keeps (do return f (← reader) : NotingReader γ) :=
  keeps.bind fun _ => .pure _

theorem bounded {repetition : Nat → NotingReader α} (keeps : ∀ n, Keeps (repetition n)) :
    Keeps (bounded repetition) := fun tokens => keeps _ tokens

/-- A reader, and what its result leads to. -/
theorem after {reader : Reader α} (keeps : reader.Keeps) (then_keeps : ∀ a, Keeps (next a)) :
    Keeps (liftM reader >>= next) := (lift keeps).bind then_keeps

theorem acceptThen {kind : Token.Kind} {yes no : NotingReader α} (yes_keeps : Keeps yes)
    (no_keeps : Keeps no) : Keeps (do if ← Reader.accept kind then yes else no : NotingReader α) :=
  after (.accept kind) fun taken => by cases taken <;> assumption

/-- A choice by whether a closing brace or the end comes next. -/
theorem untilClosed {yes no : NotingReader α} (yes_keeps : Keeps yes) (no_keeps : Keeps no) :
    Keeps (do if (← Reader.check (.symbol .closeBrace)) || (← Reader.atEnd) then yes else no :
      NotingReader α) := by
  intro tokens
  rw [untilClosed_eq]
  split
  · exact yes_keeps tokens
  · exact no_keeps tokens

end Keeps

open Reader

variable {inner : NotingReader Stmt} {declaration : NotingReader (Option Stmt)}

theorem keeps_blockBody (keeps : Keeps declaration) (n : Nat) : Keeps (blockBody declaration n) := by
  induction n with
  | zero => exact .exhausted
  | succ n ih => exact .untilClosed (.pure _) (keeps.bind fun first => ih.map)

theorem keeps_block (keeps : Keeps declaration) : Keeps (block declaration) :=
  (Keeps.bounded (keeps_blockBody keeps)).bind fun _ => (Keeps.lift (.expect _ _)).map

theorem keeps_conditional (keeps : Keeps inner) : Keeps (conditional inner) :=
  Keeps.after (.expect _ _) fun _ => .after keeps_expression fun _ => .after (.expect _ _) fun _ =>
    keeps.bind fun _ => .acceptThen keeps.map (.pure _)

theorem keeps_loop (keeps : Keeps inner) : Keeps (loop inner) :=
  Keeps.after (.expect _ _) fun _ => .after keeps_expression fun _ => .after (.expect _ _) fun _ =>
    keeps.map

theorem keeps_tryHandle (keeps : Keeps declaration) : Keeps (tryHandle declaration) :=
  Keeps.after (.expect _ _) fun _ => (keeps_block keeps).bind fun _ =>
    .after (.expectToken _ _) fun _ => .after (.expect _ _) fun _ => .after (.typeCode _) fun _ =>
    .after (.name _) fun _ => .after (.expect _ _) fun _ => .after (.expect _ _) fun _ =>
    (keeps_block keeps).map

theorem keeps_statement (keeps : Keeps inner) (keeps_declaration : Keeps declaration) :
    Keeps (statement inner declaration) := by
  refine .after .peek fun next => ?_
  split
  · exact .after .advance fun _ => keeps_conditional keeps
  · exact .after .advance fun _ => .lift keeps_giveBack
  · exact .after .advance fun _ => keeps_loop keeps
  · exact .after .advance fun _ => keeps_tryHandle keeps_declaration
  · exact .after .advance fun _ => (keeps_block keeps_declaration).map
  · exact (Keeps.lift (keeps_varDecl _ _)).map
  · exact (Keeps.lift keeps_expression).map

theorem keeps_method (keeps : Keeps declaration) (visibility : Option Visibility) (isStatic : Bool) :
    Keeps (method declaration visibility isStatic) :=
  Keeps.after keeps_signature fun (_, _, _) => .after (.expect _ _) fun _ => (keeps_block keeps).map

theorem keeps_members (keeps : Keeps declaration) (n : Nat) : Keeps (members declaration n) := by
  induction n with
  | zero => exact .exhausted
  | succ n ih =>
    refine .untilClosed (.pure _) (.after (keeps_modifiers _ _) fun (visibility, isStatic) => ?_)
    refine .acceptThen ((keeps_method keeps _ _).bind fun first => ih.map) ?_
    refine .after (.check _) fun number => ?_
    split
    · exact .after (keeps_varDecl _ _) fun first => ih.map
    · exact .lift (.refuse _)

theorem keeps_classDecl (keeps : Keeps declaration) : Keeps (classDecl declaration) :=
  Keeps.after (.name _) fun _ => .after keeps_ancestors fun (_, _) => .after (.expect _ _) fun _ =>
    (Keeps.bounded (keeps_members keeps)).bind fun _ => (Keeps.lift (.expect _ _)).map

theorem keeps_anyDeclaration (keeps : Keeps inner) (keeps_declaration : Keeps declaration) :
    Keeps (anyDeclaration inner declaration) := by
  intro tokens
  have behind {reader : NotingReader Stmt} (keeps : Keeps reader) :
      (reader tokens.tail).1.Among tokens ∧ ∀ note ∈ (reader tokens.tail).2, note.Among tokens :=
    have fewer := (List.tail_sublist tokens).subset
    ⟨(keeps _).1.mono fewer, fun note member => ((keeps _).2 note member).mono fewer⟩
  unfold anyDeclaration
  split
  · exact behind (keeps_classDecl keeps_declaration)
  · split
    · exact behind (.lift keeps_interfaceDecl)
    · exact keeps_statement keeps keeps_declaration tokens

theorem resume_subset (inBlock : Bool) (tokens : List Token) : resume inBlock tokens ⊆ tokens := by
  induction tokens with
  | nil => exact List.Subset.refl _
  | cons t tokens ih =>
    rw [resume]
    split
    · exact List.Subset.refl _
    · split
      · split
        · exact List.Subset.refl _
        · exact List.subset_cons_self _ _
      · exact List.Subset.trans ih (List.subset_cons_self _ _)

theorem resumeAfter_subset (inBlock : Bool) (start : List Token) (r : Refusal) :
    resumeAfter inBlock start r ⊆ r.rest := by
  refine List.Subset.trans (resume_subset _ _) ?_
  split
  · exact (List.tail_sublist _).subset
  · exact List.Subset.refl _

theorem keeps_recovering {reader : NotingReader Stmt} (keeps : Keeps reader) (inBlock : Bool) :
    Keeps (recovering inBlock reader) := by
  intro tokens
  have read := keeps tokens
  unfold recovering
  split
  · next taken => rwa [taken] at read
  · next r notes refused =>
    rw [refused] at read
    refine ⟨List.Subset.trans (resumeAfter_subset _ _ r) read.1.1, fun note member => ?_⟩
    rcases List.mem_append.1 member with early | last
    · exact read.2 note early
    · exact List.mem_singleton.1 last ▸ read.1
  · next spent => rwa [spent] at read

theorem keeps_declarationAt (depth : Nat) :
    Keeps (statementAt depth) ∧ ∀ inBlock, Keeps (declarationAt depth inBlock) := by
  induction depth with
  | zero => exact ⟨.exhausted, fun _ => .exhausted⟩
  | succ depth ih =>
    constructor
    · rw [statementAt]
      exact keeps_statement ih.1 (ih.2 true)
    · intro inBlock
      rw [declarationAt]
      exact keeps_recovering (keeps_anyDeclaration ih.1 (ih.2 true)) inBlock

theorem keeps_topDeclaration : Keeps topDeclaration :=
  .bounded fun depth => (keeps_declarationAt depth).2 false

theorem keeps_program (n : Nat) : Keeps (program n) := by
  induction n with
  | zero => exact .exhausted
  | succ n ih =>
    refine .after .atEnd fun ends => ?_
    split
    · exact .pure _
    · exact keeps_topDeclaration.bind fun first => ih.map

end NotingReader

/-! ## A whole text -/

/-- What is complained about stands where a token stands, or at the end. -/
theorem Refusal.Among.diagnostic {tokens : List Token} {r : Refusal} (among : r.Among tokens)
    (stop : Place) :
    (∃ t ∈ tokens, (r.diagnostic stop).span = t.span ∧ (r.diagnostic stop).line = t.line)
      ∨ (r.diagnostic stop).span = ⟨stop.offset, stop.offset⟩
        ∧ (r.diagnostic stop).line = stop.line := by
  obtain ⟨cause, rest⟩ := r
  obtain ⟨fewer, about⟩ := among
  cases cause with
  | expected what =>
    cases rest with
    | nil => exact .inr ⟨rfl, rfl⟩
    | cons t rest => exact .inl ⟨t, fewer List.mem_cons_self, rfl, rfl⟩
  | typeCode t | target t => exact .inl ⟨t, about, rfl, rfl⟩

theorem stands_end (source : String) :
    Stands source "" ⟨source.utf8ByteSize, source.utf8ByteSize⟩ (1 + newlineCount source.toList) :=
  ⟨source, "", by simp, by simp, rfl⟩

namespace Scan.Covers

variable {scan : Scan} {source preamble : String} {items : List Scan.Item}

theorem token_stands (covers : scan.Covers source preamble items) :
    ∀ t ∈ scan.tokens, Stands source t.lexeme t.span t.line := by
  intro t member
  rw [covers.tokens] at member
  obtain ⟨item, listed, same⟩ := List.mem_filterMap.1 member
  cases item with
  | token u =>
    obtain rfl := Option.some.inj same
    exact (covers.stands _ listed).2
  | diagnostic d => cases same

theorem diagnostic_stands (covers : scan.Covers source preamble items) :
    ∀ d ∈ scan.diagnostics, ∃ lexeme, Stands source lexeme d.span d.line := by
  intro d member
  rw [covers.diagnostics] at member
  obtain ⟨item, listed, same⟩ := List.mem_filterMap.1 member
  have stands := covers.stands _ listed
  cases item with
  | token t => cases same
  | diagnostic e =>
    obtain rfl := Option.some.inj same
    obtain ⟨cause, span, line⟩ := e
    cases cause with
    | unexpectedCharacter text => exact ⟨text, stands.2⟩
    | unterminatedString =>
      obtain ⟨body, -, -, stands⟩ := stands
      exact ⟨_, stands⟩
    | unexpectedToken | invalidTypeCode | invalidAssignmentTarget => exact stands.elim

theorem diagnostics_ordered (covers : scan.Covers source preamble items) :
    scan.diagnostics.Pairwise fun a b => a.span.start ≤ b.span.start := by
  rw [covers.diagnostics, List.pairwise_filterMap]
  refine covers.ordered.imp_of_mem fun {a b} first _ before d left e right => ?_
  have := covers.nonempty a first
  cases a <;> cases b <;> cases left <;> cases right
  exact Nat.le_trans (Nat.le_of_lt this) before

/-- A complaint about the tokens of a text stands in it. -/
theorem complaint_stands (covers : scan.Covers source preamble items) {r : Refusal}
    (among : r.Among scan.tokens) :
    ∃ lexeme, Stands source lexeme (r.diagnostic scan.stop).span (r.diagnostic scan.stop).line := by
  obtain ⟨t, member, span, line⟩ | ⟨span, line⟩ := among.diagnostic scan.stop
  · rw [span, line]
    exact ⟨_, covers.token_stands t member⟩
  · rw [span, line, covers.stop]
    exact ⟨"", stands_end source⟩

end Scan.Covers

theorem mem_sortDiagnostics {d : Diagnostic} {diagnostics : List Diagnostic} :
    d ∈ sortDiagnostics diagnostics ↔ d ∈ diagnostics :=
  List.mem_mergeSort

theorem sortDiagnostics_ordered (diagnostics : List Diagnostic) :
    (sortDiagnostics diagnostics).Pairwise fun a b => a.span.start ≤ b.span.start := by
  have sorted : (sortDiagnostics diagnostics).Pairwise fun a b =>
      decide (a.span.start ≤ b.span.start) = true :=
    List.pairwise_mergeSort (by simp; omega) (by simp; omega) diagnostics
  simpa only [decide_eq_true_eq] using sorted

/-- What is in order already stays in order. -/
theorem sublist_sortDiagnostics {front diagnostics : List Diagnostic}
    (ordered : front.Pairwise fun a b => a.span.start ≤ b.span.start)
    (sublist : front.Sublist diagnostics) : front.Sublist (sortDiagnostics diagnostics) :=
  List.sublist_mergeSort (by simp; omega) (by simp; omega) (by simpa using ordered) sublist

/-- The tokens and diagnostics of a text cover it, and each stands in it with whole characters, on its
line: those found while cutting tokens and those of the grammar, which come in the order of the
text. -/
theorem Source.read_located (source : String) :
    (∃ preamble items, (Scan.ofText source).Covers source preamble items)
      ∧ (Scan.ofText source).diagnostics.Sublist (Source.read source).diagnostics
      ∧ (∀ d ∈ (Source.read source).diagnostics, ∃ lexeme, Stands source lexeme d.span d.line)
      ∧ (Source.read source).diagnostics.Pairwise fun a b => a.span.start ≤ b.span.start := by
  obtain ⟨preamble, items, covers⟩ := Scan.ofText_covers source
  have keeps := NotingReader.Keeps.bounded NotingReader.keeps_program (Scan.ofText source).tokens
  refine ⟨⟨preamble, items, covers⟩, ?_, ?_, sortDiagnostics_ordered _⟩
  · exact sublist_sortDiagnostics covers.diagnostics_ordered (List.sublist_append_left _ _)
  · intro d member
    rcases List.mem_append.1 (mem_sortDiagnostics.1 member) with lexical | syntactic
    · exact covers.diagnostic_stands d lexical
    · obtain ⟨r, noted, rfl⟩ := List.mem_map.1 syntactic
      exact covers.complaint_stands (keeps.2 r noted)

end Monogram
