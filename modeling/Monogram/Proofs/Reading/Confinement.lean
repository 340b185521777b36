import Mathlib.Data.List.Forall2
import Monogram.Proofs.Reading.Walls

/-! # Statements behind a wall

What is read of a block depends on the tokens up to its closing brace alone: statements, declarations
and the complaints about them are the same whatever stands behind the brace.  A complaint inside of
the block does not change that, since what is left out ends in front of the brace at the latest.

* `NotingReader.Alike`, `NotingReader.Confined` — the notes of two readings included.
* `Reader.confined_statementAt` — statements and declarations in a block are confined.
-/

namespace Monogram

open Grammar (Heads)

variable {α γ : Type} {ts front mid us us' : List Token} {t : Token} {bound bound' taken taken' n n' : Nat}

namespace NotingReader

/-! ## Two readings and their notes -/

/-- The same of two readings, and the same complaints noted. -/
structure Alike (ts us us' : List Token) (taken : Nat) (read read' : Reading α × List Refusal) : Prop where
  reading : read.1.Alike ts us us' taken read'.1
  notes : List.Forall₂ (Refusal.Alike ts us us') read.2 read'.2

namespace Alike

theorem lift {r r' : Reading α} (alike : r.Alike ts us us' taken r') :
    Alike ts us us' taken (r, []) (r', []) :=
  ⟨alike, .nil⟩

theorem widen {read read' : Reading α × List Refusal} (alike : Alike front us us' taken read read')
    (behind : front <:+ ts) (fewer : front.length + taken' ≤ ts.length + taken) :
    Alike ts us us' taken' read read' :=
  ⟨alike.reading.widen behind fewer, alike.notes.imp fun _ _ alike => alike.widen behind⟩

theorem succ {read read' : Reading α × List Refusal} (alike : Alike ts us us' taken read read')
    (less : taken' ≤ taken + 1) : Alike (t :: ts) us us' taken' read read' :=
  alike.widen (List.suffix_cons t ts) (by simp only [List.length_cons]; omega)

theorem andThen {reader reader' : NotingReader α} {next next' : α → NotingReader γ}
    {tokens tokens' : List Token} (alike : Alike ts us us' taken (reader tokens) (reader' tokens'))
    (later : ∀ a front, front <:+ ts → front.length + taken ≤ ts.length →
      Alike ts us us' taken' (next a (front ++ us)) (next' a (front ++ us'))) :
    Alike ts us us' taken' ((reader >>= next) tokens) ((reader' >>= next') tokens') := by
  obtain ⟨reading, notes⟩ := alike
  rw [bind_apply, bind_apply]
  generalize reader tokens = read, reader' tokens' = read' at reading notes
  obtain ⟨r, more⟩ := read
  obtain ⟨r', more'⟩ := read'
  cases reading with
  | done a behind fewer =>
    have after := later a _ behind fewer
    exact ⟨after.reading, List.rel_append notes after.notes⟩
  | refused alike => exact ⟨.refused alike, notes⟩

end Alike

/-! ## Confined readers -/

theorem expectThen_eq {s : Symbol} {what : String} {reader : NotingReader α} {tokens : List Token} :
    (do Reader.expect s what; reader : NotingReader α) tokens
      = if Heads (.symbol s) tokens then reader tokens.tail
        else (.refused ⟨.expected what, tokens⟩, []) := by
  rw [lift_bind_apply]
  cases tokens with
  | nil => rfl
  | cons t tokens =>
    by_cases same : t.kind = .symbol s
    · simp [Reader.expect_of_kind same, heads_cons, same]
    · simp [Reader.expect, Reader.expectToken, heads_cons, same, Reading.andThen]

/-- A closing brace is taken without notes. -/
theorem closing_apply {reader : NotingReader α} {f : α → γ} {what : String} {tokens : List Token} :
    (do let a ← reader; Reader.expect .closeBrace what; return f a : NotingReader γ) tokens
      = ((reader tokens).1.andThen fun a => (do Reader.expect .closeBrace what; return f a : Reader γ),
        (reader tokens).2) := by
  rw [bind_apply]
  rcases reader tokens with ⟨⟨a, rest⟩ | _ | _, notes⟩
  · simp only [lift_bind_apply, Reading.andThen, Reader.bind_apply]
    cases Reader.expect .closeBrace what rest <;> exact congrArg (Prod.mk _) (List.append_nil notes)
  · rfl
  · rfl

/-- The two readers read less than `bound` tokens in front of a wall alike, of which they take at least
`taken`. -/
def Confined (bound taken : Nat) (reader reader' : NotingReader α) : Prop :=
  ∀ ts us us', Wall ts us us' → ts.length < bound →
    Alike ts us us' taken (reader (ts ++ us)) (reader' (ts ++ us'))

/-- The two readers read less than `bound` tokens in front of a wall alike, and take one if there is
one. -/
def Advancing (bound : Nat) (reader reader' : NotingReader α) : Prop :=
  ∀ ts us us', Wall ts us us' → ts ≠ [] → ts.length < bound →
    Alike ts us us' 1 (reader (ts ++ us)) (reader' (ts ++ us'))

/-- The two readers read less than `bound` tokens behind an opening brace alike. -/
def Enclosed (bound : Nat) (reader reader' : NotingReader α) : Prop :=
  ∀ t ts us us', t.kind = .symbol .openBrace → Wall (t :: ts) us us' → ts.length < bound →
    Alike ts us us' 0 (reader (ts ++ us)) (reader' (ts ++ us'))

variable {reader reader' : NotingReader α} {next next' : α → NotingReader γ}

theorem Advancing.mono (advancing : Advancing bound reader reader') (fewer : bound' ≤ bound) :
    Advancing bound' reader reader' :=
  fun ts us us' wall some_ short => advancing ts us us' wall some_ (Nat.lt_of_lt_of_le short fewer)

namespace Confined

theorem lift {reader reader' : Reader α} (confined : reader.Confined bound taken reader') :
    Confined bound taken (liftM reader : NotingReader α) (liftM reader' : NotingReader α) :=
  fun ts us us' wall short => .lift (confined ts us us' wall short)

theorem mono (confined : Confined bound taken reader reader') (fewer : bound' ≤ bound)
    (less : taken' ≤ taken) : Confined bound' taken' reader reader' :=
  fun ts us us' wall short => (confined ts us us' wall (Nat.lt_of_lt_of_le short fewer)).widen
    (List.suffix_refl ts) (by omega)

theorem zero (confined : Confined bound taken reader reader') : Confined bound 0 reader reader' :=
  confined.mono (Nat.le_refl bound) (Nat.zero_le taken)

theorem of_bound_zero : Confined 0 taken reader reader' :=
  fun _ _ _ _ short => absurd short (Nat.not_lt_zero _)

protected theorem pure (a : α) : Confined bound 0 (pure a : NotingReader α) (pure a) :=
  fun _ _ _ _ _ => .lift (.here _ a)

theorem andThen (confined : Confined bound taken reader reader')
    (then_confined : ∀ a, Confined (bound - taken) 0 (next a) (next' a)) :
    Confined bound taken (reader >>= next) (reader' >>= next') := by
  intro ts us us' wall short
  refine (confined ts us us' wall short).andThen fun a front behind fewer => ?_
  exact (then_confined a front us us' (wall.suffix behind) (by omega)).widen behind (by omega)

theorem map {f : α → γ} (confined : Confined bound taken reader reader') :
    Confined bound taken (do return f (← reader) : NotingReader γ)
      (do return f (← reader') : NotingReader γ) :=
  confined.andThen fun _ => .pure _

theorem acceptThen {kind : Token.Kind} {yes no yes' no' : NotingReader α}
    (other : kind ≠ .symbol .closeBrace) (yes_confined : Confined (bound - 1) (taken - 1) yes yes')
    (no_confined : Confined bound taken no no') :
    Confined bound taken (do if ← Reader.accept kind then yes else no : NotingReader α)
      (do if ← Reader.accept kind then yes' else no' : NotingReader α) := by
  intro ts us us' wall short
  simp only [acceptThen_eq, wall.heads_iff other, wall.flip.heads_iff other]
  split
  · next heads =>
    obtain ⟨t, ts, rfl, -⟩ := heads
    simp only [List.length_cons] at short
    exact (yes_confined ts us us' wall.tail (by omega)).succ (by omega)
  · exact no_confined ts us us' wall short

theorem bounded {repetition repetition' : Nat → NotingReader α}
    (confined : ∀ b n n', b ≤ bound → b ≤ n → b ≤ n' →
      Confined b taken (repetition n) (repetition' n')) :
    Confined bound taken (bounded repetition) (bounded repetition') := by
  intro ts us us' wall short
  have enough (us : List Token) : ts.length + 1 ≤ (ts ++ us).length + 1 := by
    rw [List.length_append]
    omega
  exact confined _ _ _ short (enough us) (enough us') ts us us' wall (Nat.lt_succ_self _)

/-- What stands between an opening brace, which has been taken, and a closing one. -/
theorem braced {f : α → γ} {what : String} (inside : Confined bound 0 reader reader') :
    Enclosed bound (do let a ← reader; Reader.expect .closeBrace what; return f a)
      (do let a ← reader'; Reader.expect .closeBrace what; return f a) := by
  intro t ts us us' opens wall short
  obtain ⟨inner, mid, rfl, own, wall'⟩ := wall.opened opens
  rw [List.length_append] at short
  have read := inside inner (mid ++ us) (mid ++ us') wall' (by omega)
  simp only [List.append_assoc, closing_apply]
  exact ⟨Reader.Confined.closing f what read.reading own, read.notes.imp fun _ _ alike => alike.behind⟩

theorem behindBrace (enclosed : Enclosed (bound - 1) reader reader') (what : String) :
    Confined bound 1 (do Reader.expect .openBrace what; reader)
      (do Reader.expect .openBrace what; reader') := by
  intro ts us us' wall short
  simp (disch := decide) only [expectThen_eq, wall.heads_iff, wall.flip.heads_iff]
  split
  · next heads =>
    obtain ⟨t, ts, rfl, opens⟩ := heads
    simp only [List.length_cons] at short
    exact (enclosed t ts us us' opens wall (by omega)).succ (Nat.le_refl 1)
  · exact .lift (.refuse _ _)

end Confined

theorem Enclosed.andThen (enclosed : Enclosed bound reader reader')
    (then_confined : ∀ a, Confined bound 0 (next a) (next' a)) :
    Enclosed bound (reader >>= next) (reader' >>= next') := by
  intro t ts us us' opens wall short
  refine (enclosed t ts us us' opens wall short).andThen fun a front behind fewer => ?_
  exact (then_confined a front us us' (wall.tail.suffix behind) (by omega)).widen behind fewer

theorem Enclosed.map {f : α → γ} (enclosed : Enclosed bound reader reader') :
    Enclosed bound (do return f (← reader)) (do return f (← reader')) :=
  enclosed.andThen fun _ => .pure _

theorem Enclosed.mono (enclosed : Enclosed bound reader reader') (fewer : bound' ≤ bound) :
    Enclosed bound' reader reader' :=
  fun t ts us us' opens wall short =>
    enclosed t ts us us' opens wall (Nat.lt_of_lt_of_le short fewer)

/-- Behind a token of the kind that was looked for. -/
theorem alike_tail {kind : Token.Kind} (heads : Heads kind ts) (wall : Wall ts us us')
    (short : ts.length < bound + 1) (confined : Confined bound 0 reader reader') :
    Alike ts us us' 0 (reader (ts ++ us).tail) (reader' (ts ++ us').tail) := by
  obtain ⟨t, ts, rfl, -⟩ := heads
  exact (confined ts us us' wall.tail (Nat.lt_of_succ_lt_succ short)).succ (Nat.zero_le _)

end NotingReader

namespace Reader

open NotingReader (Advancing)

variable {declaration declaration' : NotingReader (Option Stmt)} {inner inner' : NotingReader Stmt}

/-! ## Blocks -/

theorem confined_blockBody (advancing : Advancing bound declaration declaration') (enough : bound ≤ n)
    (enough' : bound ≤ n') :
    NotingReader.Confined bound 0 (blockBody declaration n) (blockBody declaration' n') := by
  -- a declaration takes a token even where it is left out, so every round has fewer tokens
  induction bound generalizing n n' with
  | zero => exact .of_bound_zero
  | succ b ih =>
    obtain ⟨n, rfl, room⟩ := exists_round enough
    obtain ⟨n', rfl, room'⟩ := exists_round enough'
    intro ts us us' wall short
    simp only [blockBody_succ, wall.closed_iff, wall.flip.closed_iff]
    split
    · exact .lift (.here _ _)
    · next opened =>
      have later := ih (advancing.mono (Nat.le_succ b)) room room'
      refine (advancing ts us us' wall (ne_nil_of_not_closed opened) short).andThen ?_
      intro first front behind fewer
      exact (later.map front us us' (wall.suffix behind) (by omega)).widen behind (by omega)

theorem enclosed_block (advancing : Advancing bound declaration declaration') :
    NotingReader.Enclosed bound (block declaration) (block declaration') :=
  (NotingReader.Confined.bounded fun _ _ _ le enough enough' =>
    confined_blockBody (advancing.mono le) enough enough').braced

/-! ## Statements -/

/-- A condition between parentheses. -/
theorem confined_conditioned {next next' : Expr → NotingReader Stmt} {opens closes : String}
    (confined : ∀ condition, NotingReader.Confined (bound - 1) 0 (next condition) (next' condition)) :
    NotingReader.Confined bound 1
      (do
        expect .openParen opens
        let condition ← expression
        expect .closeParen closes
        next condition)
      (do
        expect .openParen opens
        let condition ← expression
        expect .closeParen closes
        next' condition) := by
  refine (NotingReader.Confined.lift (.expect (by decide) _)).andThen fun _ => ?_
  refine ((NotingReader.Confined.lift confined_expression).andThen fun condition => ?_).zero
  refine ((NotingReader.Confined.lift (.expect (by decide) _)).andThen fun _ => ?_).zero
  exact (confined condition).mono (by omega) (Nat.le_refl 0)

theorem confined_conditional (confined : NotingReader.Confined bound 1 inner inner') :
    NotingReader.Confined bound 1 (conditional inner) (conditional inner') := by
  refine confined_conditioned fun condition => ?_
  refine ((confined.mono (Nat.sub_le bound 1) (Nat.le_refl 1)).andThen fun yes => ?_).zero
  exact .acceptThen (by decide) (confined.mono (by omega) (Nat.zero_le 1)).map (.pure _)

theorem confined_loop (confined : NotingReader.Confined bound 1 inner inner') :
    NotingReader.Confined bound 1 (loop inner) (loop inner') :=
  confined_conditioned fun _ => (confined.mono (Nat.sub_le bound 1) (Nat.zero_le 1)).map

theorem confined_tryHandle (advancing : Advancing bound declaration declaration') :
    NotingReader.Confined bound 1 (tryHandle declaration) (tryHandle declaration') := by
  have block {b : Nat} (fewer : b ≤ bound) :
      NotingReader.Enclosed b (block declaration) (block declaration') :=
    enclosed_block (advancing.mono fewer)
  refine .behindBrace ((block (by omega)).andThen fun body => ?_) _
  refine ((NotingReader.Confined.lift (.expectToken (by decide) _)).andThen fun _ => ?_).zero
  refine ((NotingReader.Confined.lift (.expect (by decide) _)).andThen fun _ => ?_).zero
  refine ((NotingReader.Confined.lift (.typeCode _)).andThen fun code => ?_).zero
  refine ((NotingReader.Confined.lift (.name _)).andThen fun binding => ?_).zero
  refine ((NotingReader.Confined.lift (.expect (by decide) _)).andThen fun _ => ?_).zero
  exact (NotingReader.Confined.behindBrace (block (by omega)).map _).zero

/-- A closing brace begins no statement. -/
theorem confined_statement (confined : NotingReader.Confined bound 1 inner inner')
    (advancing : Advancing bound declaration declaration') :
    NotingReader.Confined (bound + 1) 1 (statement inner declaration) (statement inner' declaration') := by
  have expression_ : NotingReader.Confined (bound + 1) 1 (do return Stmt.expression (← expression))
      (do return Stmt.expression (← expression)) :=
    (NotingReader.Confined.lift confined_expression).map
  intro ts us us' wall short
  cases ts with
  | nil =>
    cases wall with
    | ending => exact expression_ [] [] [] .ending short
    | @brace c us us' closes sheltered =>
      simp only [List.nil_append, statement_cons, closes]
      exact expression_ [] (c :: us) (c :: us') (.brace closes sheltered) short
  | cons t ts =>
    have short' : ts.length < bound := Nat.lt_of_succ_lt_succ short
    simp only [List.cons_append, statement_cons]
    split
    · exact (confined_conditional confined ts us us' wall.tail short').succ (by omega)
    · exact NotingReader.Alike.succ (.lift (confined_giveBack ts us us' wall.tail short')) (Nat.le_refl 1)
    · exact (confined_loop confined ts us us' wall.tail short').succ (by omega)
    · exact (confined_tryHandle advancing ts us us' wall.tail short').succ (by omega)
    · next opens =>
      exact ((enclosed_block advancing).map t ts us us' opens wall short').succ (by omega)
    · exact (NotingReader.Confined.lift confined_varDecl).map (t :: ts) us us' wall short
    · exact expression_ (t :: ts) us us' wall short

/-! ## Declarations -/

theorem confined_method {visibility : Option Visibility} {isStatic : Bool}
    (advancing : Advancing bound declaration declaration') :
    NotingReader.Confined bound 1 (method declaration visibility isStatic)
      (method declaration' visibility isStatic) := by
  refine (NotingReader.Confined.lift confined_signature).andThen ?_
  rintro ⟨returnType, method, parameters⟩
  exact (NotingReader.Confined.behindBrace (enclosed_block (advancing.mono (by omega))).map _).zero

theorem confined_members (advancing : Advancing bound declaration declaration') (enough : bound ≤ n)
    (enough' : bound ≤ n') :
    NotingReader.Confined bound 0 (members declaration n) (members declaration' n') := by
  induction bound generalizing n n' with
  | zero => exact .of_bound_zero
  | succ b ih =>
    obtain ⟨n, rfl, room⟩ := exists_round enough
    obtain ⟨n', rfl, room'⟩ := exists_round enough'
    have advancing' : Advancing b declaration declaration' := advancing.mono (Nat.le_succ b)
    have later := ih advancing' room room'
    intro ts us us' wall short
    simp only [members_succ, wall.closed_iff, wall.flip.closed_iff]
    split
    · exact .lift (.here _ _)
    · refine (NotingReader.Confined.lift confined_modifiers).andThen (fun modified => ?_) ts us us' wall
        short
      intro ts us us' wall short
      simp (disch := decide) only [membersFrom, wall.heads_iff, wall.flip.heads_iff]
      split
      · next heads =>
        refine NotingReader.alike_tail heads wall short ?_
        refine ((confined_method advancing').andThen fun first => ?_).zero
        exact (later.mono (Nat.sub_le b 1) (Nat.le_refl 0)).map
      · split
        · refine ((NotingReader.Confined.lift confined_varDecl).andThen fun first => ?_).zero ts us us'
            wall short
          exact later.map
        · exact .lift (.refuse _ _)

theorem confined_classDecl (advancing : Advancing bound declaration declaration') :
    NotingReader.Confined bound 1 (classDecl declaration) (classDecl declaration') := by
  refine (NotingReader.Confined.lift (.name _)).andThen fun className => ?_
  refine (NotingReader.Confined.lift confined_ancestors).andThen fun (superclass, interfaces) => ?_
  refine (NotingReader.Confined.behindBrace ?_ _).zero
  exact (NotingReader.Confined.bounded fun _ _ _ le enough enough' =>
    confined_members (advancing.mono (by omega)) enough enough').braced

/-- Whether a class starts here is settled in front of the wall. -/
theorem startsClass_append (wall : Wall ts us us') : startsClass (ts ++ us) = startsClass ts := by
  match ts with
  | [] =>
    cases wall with
    | ending => rfl
    | @brace c us us' closes _ => cases us <;> simp [startsClass, closes]
  | [t] =>
    cases wall with
    | ending => rfl
    | brace closes _ => simp [startsClass, Token.isName, closes]
  | t :: next :: ts => rfl

theorem confined_anyDeclaration (confined : NotingReader.Confined bound 1 inner inner')
    (advancing : Advancing bound declaration declaration') :
    NotingReader.Confined (bound + 1) 1 (anyDeclaration inner declaration)
      (anyDeclaration inner' declaration') := by
  intro ts us us' wall short
  have statement := confined_statement confined advancing ts us us' wall short
  simp only [anyDeclaration, startsClass_append wall, startsClass_append wall.flip]
  cases ts with
  | nil =>
    cases wall with
    | ending => exact statement
    | brace closes _ => simpa [closes, startsClass] using statement
  | cons t ts =>
    have short' : ts.length < bound := Nat.lt_of_succ_lt_succ short
    simp only [List.cons_append, List.tail_cons, List.head?_cons, Option.any_some, beq_iff_eq]
    split
    · exact (confined_classDecl advancing ts us us' wall.tail short').succ (by omega)
    · split
      · exact NotingReader.Alike.succ (.lift (confined_interfaceDecl ts us us' wall.tail short')) (by omega)
      · exact statement

/-! ## Recovering -/

theorem resume_suffix (inBlock : Bool) (tokens : List Token) : resume inBlock tokens <:+ tokens := by
  induction tokens with
  | nil => exact List.suffix_refl []
  | cons t tokens ih =>
    rw [resume]
    split
    · exact List.suffix_refl _
    · split
      · split
        · exact List.suffix_refl _
        · exact List.suffix_cons t tokens
      · exact ih.trans (List.suffix_cons t tokens)

/-- In a block reading resumes in front of the wall. -/
theorem resume_append (wall : Wall ts us us') : resume true (ts ++ us) = resume true ts ++ us := by
  induction ts with
  | nil =>
    cases wall with
    | ending => rfl
    | brace closes _ => simp [resume, startsStatement, closes]
  | cons t ts ih =>
    rw [List.cons_append, resume, resume]
    split
    · rfl
    · split
      · rfl
      · exact ih wall.tail

theorem alike_resumeAfter {r r' : Refusal} (wall : Wall ts us us') (some_ : ts ≠ [])
    (alike : r.Alike ts us us' r') :
    ∃ front, front <:+ ts ∧ front.length < ts.length ∧ resumeAfter true (ts ++ us) r = front ++ us
      ∧ resumeAfter true (ts ++ us') r' = front ++ us' := by
  obtain @⟨front, cause, behind⟩ := alike
  have positive := List.length_pos_iff.2 some_
  have wall := wall.suffix behind
  unfold resumeAfter
  simp only [List.length_append, Nat.add_right_cancel_iff]
  by_cases stuck : front.length = ts.length
  -- Nothing has been taken: the search begins behind the first token, which is none of the wall.
  · have some_' : front ≠ [] := List.length_pos_iff.1 (by omega)
    obtain ⟨t, front, rfl⟩ := List.exists_cons_of_ne_nil some_'
    simp only [stuck, if_true, List.cons_append, List.tail_cons, resume_append wall.tail,
      resume_append wall.tail.flip]
    refine ⟨resume true front, ?_, ?_, rfl, rfl⟩
    · exact ((resume_suffix true front).trans (List.suffix_cons t front)).trans behind
    · have := (resume_suffix true front).length_le
      simp only [List.length_cons] at stuck
      omega
  · simp only [stuck, if_false, resume_append wall, resume_append wall.flip]
    refine ⟨resume true front, (resume_suffix true front).trans behind, ?_, rfl, rfl⟩
    have := (resume_suffix true front).length_le
    have := behind.length_le
    omega

theorem advancing_recovering {reader reader' : NotingReader Stmt}
    (confined : NotingReader.Confined bound 1 reader reader') :
    Advancing bound (recovering true reader) (recovering true reader') := by
  intro ts us us' wall some_ short
  obtain ⟨reading, notes⟩ := confined ts us us' wall short
  simp only [recovering]
  generalize reader (ts ++ us) = read, reader' (ts ++ us') = read' at reading notes
  obtain ⟨r, notes'⟩ := read
  obtain ⟨r', notes''⟩ := read'
  cases reading with
  | done s behind fewer => exact ⟨.done _ behind fewer, notes⟩
  | refused alike =>
    obtain ⟨front, behind, shorter, resumed, resumed'⟩ := alike_resumeAfter wall some_ alike
    simp only [resumed, resumed']
    exact ⟨.done none behind shorter, List.rel_append notes (.cons alike .nil)⟩

/-- Statements and declarations in a block are confined, however deep either reader may go. -/
theorem confined_statementAt (enough : bound ≤ n) (enough' : bound ≤ n') :
    NotingReader.Confined bound 1 (statementAt n) (statementAt n')
      ∧ Advancing bound (declarationAt n true) (declarationAt n' true) := by
  -- what a statement contains is nested one level less deep
  induction bound generalizing n n' with
  | zero => exact ⟨.of_bound_zero, fun _ _ _ _ _ short => absurd short (Nat.not_lt_zero _)⟩
  | succ b ih =>
    obtain ⟨n, rfl, room⟩ := exists_round enough
    obtain ⟨n', rfl, room'⟩ := exists_round enough'
    obtain ⟨confined, advancing⟩ := ih room room'
    rw [statementAt, statementAt, declarationAt, declarationAt]
    exact ⟨confined_statement confined advancing,
      advancing_recovering (confined_anyDeclaration confined advancing)⟩

end Reader

end Monogram
