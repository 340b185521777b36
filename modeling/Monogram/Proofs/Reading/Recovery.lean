import Monogram.Proofs.Reading.Confinement
import Monogram.Proofs.Reading.Places
import Monogram.Proofs.Reading.Program

/-! # Where reading goes on after a complaint

A loop whose body is malformed keeps its complaints to itself when its body is read up to the brace
that closes it, which is a matter of the body alone.  A malformed declaration outside of every block
that a closing brace ends keeps its complaint to itself unless that brace is the very token that
cannot be read.

* `Reader.innerBody` — what is recovered from a block.
* `Reader.innerBody_reaches` — a body without braces is read up to the brace that closes it.
* `Reader.loop_contains_complaints` — the statements behind a loop whose body is malformed.
* `Reader.brace_ends_recovery` — the statements behind a malformed declaration.
-/

namespace Monogram

open Grammar (Heads Bracketed Assignment)

variable {α γ : Type} {ts front us us' tokens rest : List Token} {t c : Token} {bound n m : Nat}

/-! ## Tokens behind a complaint -/

/-- The same complaint, with more tokens behind what is left. -/
def Refusal.followedBy (us : List Token) (r : Refusal) : Refusal := ⟨r.cause, r.rest ++ us⟩

theorem Refusal.Alike.followedBy {r r' : Refusal} (alike : r.Alike ts [c] (c :: us) r') :
    r' = r.followedBy us := by
  obtain @⟨front, cause, behind⟩ := alike
  simp [Refusal.followedBy]

/-- The complaint is about a token in front of the wall or about the brace. -/
theorem Refusal.Alike.some_rest {r r' : Refusal} (alike : r.Alike ts [c] us' r') : r.rest ≠ [] := by
  cases alike
  simp

theorem followedBy_of_alike {notes notes' : List Refusal}
    (alike : List.Forall₂ (Refusal.Alike ts [c] (c :: us)) notes notes') :
    notes' = notes.map (Refusal.followedBy us) := by
  induction alike with
  | nil => rfl
  | cons first _ ih => rw [first.followedBy, ih, List.map_cons]

namespace NotingReader

variable {reader : NotingReader α} {a : α} {notes : List Refusal}

theorem bind_of_done {next : α → NotingReader γ} (read : reader tokens = (.done a rest, notes)) :
    (reader >>= next) tokens = ((next a rest).1, notes ++ (next a rest).2) := by
  rw [bind_apply, read]

theorem map_of_done {f : α → γ} (read : reader tokens = (.done a rest, notes)) :
    (do return f (← reader) : NotingReader γ) tokens = (.done (f a) rest, notes) := by
  rw [bind_of_done read]
  exact congrArg (Prod.mk _) (List.append_nil notes)

end NotingReader

namespace Reader

/-! ## What is recovered from a block -/

/-- A declaration in a block. -/
def innerDeclaration : NotingReader (Option Stmt) :=
  NotingReader.bounded fun depth => declarationAt depth true

theorem innerDeclaration_apply (tokens : List Token) :
    innerDeclaration tokens = declarationAt (tokens.length + 1) true tokens := rfl

/-- What is recovered from inside a block. -/
def innerBody : NotingReader (List Stmt) := NotingReader.bounded (blockBody innerDeclaration)

theorem advancing_innerDeclaration (enough : bound ≤ n) :
    NotingReader.Advancing bound innerDeclaration (declarationAt n true) := by
  intro ts us us' wall some_ short
  have enough' : ts.length + 1 ≤ (ts ++ us).length + 1 := by
    rw [List.length_append]
    omega
  have short' : ts.length + 1 ≤ n := Nat.lt_of_lt_of_le short enough
  exact (confined_statementAt enough' short').2 ts us us' wall some_ (Nat.lt_succ_self _)

theorem confined_innerBody (enough : bound ≤ n) : NotingReader.Confined bound 0 innerBody
    (NotingReader.bounded (blockBody (declarationAt n true))) :=
  .bounded fun _ _ _ le room room' =>
    confined_blockBody (advancing_innerDeclaration (Nat.le_trans le enough)) room room'

/-- The body of a block ends in front of a closing brace or at the end. -/
theorem closed_of_blockBody {declaration : NotingReader (Option Stmt)} {body : List Stmt}
    (read : (blockBody declaration n).reading tokens = .done body rest) : Closed rest := by
  induction n generalizing tokens body with
  | zero => nomatch read
  | succ n ih =>
    rw [NotingReader.reading, blockBody_succ] at read
    split at read
    · next closed =>
      obtain ⟨rfl, rfl⟩ := Reading.done.inj read
      exact closed
    · rw [← NotingReader.reading, NotingReader.reading_bind] at read
      obtain ⟨first, mid, -, later⟩ := bind_eq_done.1 read
      rw [NotingReader.reading_bind] at later
      obtain ⟨others, mid', taken, final⟩ := bind_eq_done.1 later
      obtain ⟨-, rfl⟩ := pure_eq_done.1 final
      exact ih taken

theorem innerDeclaration_ne_refused {r : Refusal} : innerDeclaration.reading tokens ≠ .refused r := by
  rw [NotingReader.reading, innerDeclaration_apply, declarationAt, recovering]
  split <;> simp

theorem blockBody_ne_refused {declaration : NotingReader (Option Stmt)}
    (never : ∀ tokens r, declaration.reading tokens ≠ .refused r) {r : Refusal} :
    (blockBody declaration n).reading tokens ≠ .refused r := by
  intro same
  induction n generalizing tokens r with
  | zero => cases same
  | succ n ih =>
    rw [NotingReader.reading, blockBody_succ] at same
    split at same
    · cases same
    · rw [← NotingReader.reading, NotingReader.reading_bind, bind_apply] at same
      cases read : declaration.reading tokens with
      | refused r => exact never tokens r read
      | exhausted =>
        rw [read] at same
        cases same
      | done first mid =>
        simp only [read, Reading.andThen, NotingReader.reading_bind, bind_apply] at same
        cases read' : (blockBody declaration n).reading mid with
        | refused r => exact ih read'
        | exhausted | done =>
          rw [read'] at same
          cases same

/-- A block is closed by the brace that comes next where its body ends. -/
theorem block_of_body {declaration : NotingReader (Option Stmt)} {body : List Stmt}
    {notes : List Refusal} (closed : Heads (.symbol .closeBrace) rest)
    (read : NotingReader.bounded (blockBody declaration) tokens = (.done body rest, notes)) :
    block declaration tokens = (.done body rest.tail, notes) := by
  obtain ⟨c, rest, rfl, closes⟩ := closed
  refine (NotingReader.closing_apply (f := id)).trans ?_
  simp only [read, Reading.andThen, bind_apply, expect_of_kind closes]
  rfl

/-- Whatever stands behind the brace that closes a block, the same is recovered from inside it; the
block ends with that brace or with an earlier one. -/
theorem innerBody_confined (sheltered : Sheltered ts) (closes : c.kind = .symbol .closeBrace) :
    ∃ body front notes, innerBody (ts ++ [c]) = (.done body (front ++ [c]), notes)
      ∧ front <:+ ts ∧ (front = [] ∨ Heads (.symbol .closeBrace) front)
      ∧ ∀ us m, ts.length < m → block (declarationAt m true) (ts ++ c :: us)
        = (.done body (front ++ c :: us).tail, notes.map (Refusal.followedBy us)) := by
  have alike (us : List Token) {m : Nat} (enough : ts.length < m) :=
    confined_innerBody enough ts [c] (c :: us) (.brace closes sheltered) (Nat.lt_succ_self _)
  obtain ⟨reading, -⟩ := alike [] (Nat.lt_succ_self _)
  cases read : innerBody (ts ++ [c]) with
  | mk r notes =>
    simp only [read] at alike reading
    have same : innerBody.reading (ts ++ [c]) = r := congrArg Prod.fst read
    cases r with
    | refused r => exact absurd same (blockBody_ne_refused fun _ _ => innerDeclaration_ne_refused)
    | exhausted => exact absurd reading Reading.Alike.not_exhausted
    | done body rest =>
      obtain ⟨front, behind, -, rfl, -⟩ := reading.of_done
      -- The wall is behind what is left, so the body has not ended for want of tokens.
      have closed : Heads (.symbol .closeBrace) (front ++ [c]) :=
        (closed_of_blockBody same).resolve_left (by simp)
      have ends : front = [] ∨ Heads (.symbol .closeBrace) front := by
        cases front with
        | nil => exact .inl rfl
        | cons t front => exact .inr (heads_cons.2 (heads_cons.1 closed))
      refine ⟨body, front, notes, rfl, behind, ends, fun us m enough => ?_⟩
      obtain ⟨reading', notes'⟩ := alike us enough
      obtain ⟨front', -, -, split, done⟩ := reading'.of_done
      obtain rfl : front = front' := List.append_cancel_right split
      -- Behind any other tokens it ends in front of the same brace, which closes the block.
      refine block_of_body ?_ (Prod.ext done (followedBy_of_alike notes'))
      cases front with
      | nil => exact heads_cons.2 closes
      | cons t front => exact heads_cons.2 (heads_cons.1 closed)

/-- Up to its own brace where the tokens in front of it close no other. -/
theorem innerBody_reaches (none : ∀ t ∈ ts, t.kind ≠ .symbol .openBrace ∧ t.kind ≠ .symbol .closeBrace)
    (closes : c.kind = .symbol .closeBrace) :
    ∃ body notes, innerBody (ts ++ [c]) = (.done body [c], notes) := by
  have sheltered : Sheltered ts := sheltered_of_no_opening fun t mem => (none t mem).1
  obtain ⟨body, front, notes, read, behind, ends, -⟩ := innerBody_confined sheltered closes
  rcases ends with rfl | ⟨t, rest, rfl, kind⟩
  · exact ⟨body, notes, read⟩
  · exact absurd kind (none t (behind.subset List.mem_cons_self)).2

/-- Every complaint about what is inside a block stands at one of its tokens or at its closing brace,
whatever stands behind it. -/
theorem innerBody_complaints (sheltered : Sheltered ts) (closes : c.kind = .symbol .closeBrace)
    {r : Refusal} (noted : r ∈ (innerBody (ts ++ [c])).2) :
    ∃ t ∈ ts ++ [c], ∀ us stop, ((r.followedBy us).diagnostic stop).span = t.span := by
  have alike := (confined_innerBody (Nat.lt_succ_self ts.length) ts [c] [c] (.brace closes sheltered)
    (Nat.lt_succ_self _)).notes
  have some_rest : ∀ r ∈ (innerBody (ts ++ [c])).2, r.rest ≠ [] :=
    ((List.forall₂_and_left _ _).1 (alike.imp fun _ _ alike => ⟨alike.some_rest, alike⟩)).1
  have keeps : NotingReader.Keeps innerBody := .bounded fun n => NotingReader.keeps_blockBody
    (.bounded fun depth => (NotingReader.keeps_declarationAt depth).2 true) n
  have among := (keeps (ts ++ [c])).2 r noted
  -- the end of the text is never complained about, since the brace stands in front of it
  obtain ⟨cause, rest⟩ := r
  obtain ⟨first, rest, rfl⟩ := List.exists_cons_of_ne_nil (some_rest _ noted)
  obtain ⟨fewer, about⟩ := among
  cases cause with
  | expected what => exact ⟨first, fewer List.mem_cons_self, fun _ _ => rfl⟩
  | typeCode t | target t => exact ⟨t, about, fun _ _ => rfl⟩

/-! ## Programs -/

/-- More rounds than there are tokens change nothing. -/
theorem program_stable (enough : tokens.length < n) (enough' : tokens.length < m) :
    program n tokens = program m tokens := by
  -- a declaration takes a token, so one round less is enough for what is behind it
  induction n generalizing m tokens with
  | zero => exact absurd enough (Nat.not_lt_zero _)
  | succ n ih =>
    obtain ⟨m, rfl, room'⟩ := exists_round enough'
    rw [program_succ, program_succ]
    split
    · rfl
    · next some_ =>
      have taken : (topDeclaration.reading tokens).Within tokens.length 1 :=
        proceeds_topDeclaration tokens some_ (Nat.lt_succ_self _)
      rw [NotingReader.reading] at taken
      rw [NotingReader.bind_apply, NotingReader.bind_apply]
      generalize topDeclaration tokens = read at taken ⊢
      rcases read with ⟨⟨first, mid⟩ | _ | _, notes⟩
      · have shorter : mid.length < tokens.length := taken
        have later : program n mid = program m mid := ih (by omega) (by omega)
        simp only [NotingReader.bind_apply, later]
      · rfl
      · rfl

/-- A program is a declaration and the program behind it. -/
theorem program_of_declaration {first : Option Stmt} {statements : List Stmt} {notes more : List Refusal}
    (some_ : tokens ≠ []) (read : topDeclaration tokens = (.done first rest, notes))
    (others : NotingReader.bounded program rest = (.done statements [], more)) :
    NotingReader.bounded program tokens = (.done (first.toList ++ statements) [], notes ++ more) := by
  have taken : (topDeclaration.reading tokens).Within tokens.length 1 :=
    proceeds_topDeclaration tokens some_ (Nat.lt_succ_self _)
  rw [NotingReader.reading, read] at taken
  have shorter : rest.length < tokens.length := taken
  rw [NotingReader.bounded, program_stable (m := tokens.length) (Nat.lt_succ_self _) shorter] at others
  rw [NotingReader.bounded, program_succ, if_neg some_, NotingReader.bind_of_done read,
    NotingReader.map_of_done others]

/-! ## A loop -/

variable {l b : Token} {cs ts : List Token} {e : Expr}

theorem anyDeclaration_of_kind {inner : NotingReader Stmt} {declaration : NotingReader (Option Stmt)}
    (no_class : t.kind ≠ .keyword .classWord) (no_interface : t.kind ≠ .keyword .interfaceWord) :
    anyDeclaration inner declaration (t :: ts) = statement inner declaration (t :: ts) := by
  have no_start : startsClass (t :: ts) = false := by
    cases ts <;> simp [startsClass, no_class]
  simp [anyDeclaration, no_start, no_interface]

/-- The loop around a block is read up to where the block ends. -/
theorem topDeclaration_loop {body : List Stmt} {notes : List Refusal} (kind : l.kind = .keyword .loopWord)
    (condition : Bracketed .openParen .closeParen Assignment cs e) (opens : b.kind = .symbol .openBrace)
    (read : ∀ m, ts.length < m → block (declarationAt m true) (ts ++ us) = (.done body rest, notes)) :
    topDeclaration (l :: cs ++ b :: ts ++ us) = (.done (some (.loop e (.block body))) rest, notes) := by
  obtain @⟨first, last, es, e, opens', inner, closes'⟩ := condition
  have inside (n : Nat) (enough : ts.length + 1 < n) :
      (do return Stmt.loop e (← statementAt n) : NotingReader Stmt) (b :: (ts ++ us))
        = (.done (.loop e (.block body)) rest, notes) := by
    obtain ⟨m, rfl, room⟩ := exists_round enough
    refine NotingReader.map_of_done ?_
    rw [statementAt, statement_cons, opens]
    exact NotingReader.map_of_done (read m room)
  simp only [List.append_assoc, List.cons_append]
  rw [topDeclaration_apply, declarationAt, recovering,
    anyDeclaration_of_kind (by simp [kind]) (by simp [kind]), statement_cons, kind]
  simp only [loop, NotingReader.lift_bind_apply, expect_of_kind opens',
    expression_of_derives inner (Grammar.ends_cons closes' (by simp)), expect_of_kind closes']
  rw [List.nil_append, inside _ (by simp only [List.length_cons, List.length_append]; omega)]

/-- A loop around a block in front of anything: the block is read by itself, and reading goes on behind
the brace that closes it, which is the last one unless recovery has stopped at a brace inside. -/
theorem program_loop (kind : l.kind = .keyword .loopWord)
    (condition : Bracketed .openParen .closeParen Assignment cs e) (opens : b.kind = .symbol .openBrace)
    (balanced : Balanced ts) (closes : c.kind = .symbol .closeBrace) :
    ∃ body front notes, innerBody (ts ++ [c]) = (.done body (front ++ [c]), notes)
      ∧ front <:+ ts ∧ (front = [] ∨ Heads (.symbol .closeBrace) front)
      ∧ ∀ us statements more,
        NotingReader.bounded program (front ++ c :: us).tail = (.done statements [], more) →
        NotingReader.bounded program (l :: cs ++ b :: ts ++ c :: us)
          = (.done (.loop e (.block body) :: statements) [], notes.map (Refusal.followedBy us) ++ more) := by
  obtain ⟨body, front, notes, read, behind, ends, block_eq⟩ := innerBody_confined balanced.sheltered closes
  refine ⟨body, front, notes, read, behind, ends, fun us statements more others => ?_⟩
  have loop := topDeclaration_loop kind condition opens fun m enough => block_eq us m enough
  exact program_of_declaration (by simp) loop others

/-- Complaints about the body of a loop stay with it when the body is read up to its closing brace:
the statements behind are those that are read without the loop. -/
theorem loop_contains_complaints {body statements : List Stmt} {notes : List Refusal} {us : List Token}
    (kind : l.kind = .keyword .loopWord)
    (condition : Bracketed .openParen .closeParen Assignment cs e) (opens : b.kind = .symbol .openBrace)
    (balanced : Balanced ts) (closes : c.kind = .symbol .closeBrace)
    (reaches : innerBody (ts ++ [c]) = (.done body [c], notes))
    (clean : NotingReader.bounded program us = (.done statements [], [])) :
    NotingReader.bounded program (l :: cs ++ b :: ts ++ c :: us)
        = (.done (.loop e (.block body) :: statements) [], notes.map (Refusal.followedBy us))
      ∧ ∀ r ∈ notes, ∃ t ∈ ts ++ [c], ∀ stop, ((r.followedBy us).diagnostic stop).span = t.span := by
  obtain ⟨body', front, notes', read, -, -, program_eq⟩ := program_loop kind condition opens balanced closes
  obtain ⟨⟨rfl, short⟩, rfl⟩ : (body = body' ∧ [c] = front ++ [c]) ∧ notes = notes' := by
    simpa [reaches] using read
  obtain rfl : front = [] := by simpa using short
  refine ⟨by simpa using program_eq us statements [] clean, fun r noted => ?_⟩
  obtain ⟨t, mem, spans⟩ := innerBody_complaints balanced.sheltered closes (by rwa [reaches])
  exact ⟨t, mem, spans us⟩

/-! ### Short programs -/

/-- A token whose place does not matter. -/
def token (kind : Token.Kind) (lexeme : String) : Token := ⟨kind, lexeme, ⟨0, 0⟩, 1⟩

/-- The name `x`. -/
def nameToken : Token := token .identifier "x"

/-- An opening brace. -/
def openToken : Token := token (.symbol .openBrace) "\x7b"

/-- A closing brace. -/
def closeToken : Token := token (.symbol .closeBrace) "\x7d"

/-- A closing parenthesis. -/
def parenToken : Token := token (.symbol .closeParen) ")"

/-- The loop keyword. -/
def loopToken : Token := token (.keyword .loopWord) "l"

/-- How many statements have been read. -/
def statementCount : Reading (List Stmt) → Nat
  | .done statements _ => statements.length
  | _ => 0

/-- `(x)` -/
def conditionTokens : List Token := [token (.symbol .openParen) "(", nameToken, parenToken]

theorem conditionTokens_derives :
    Bracketed .openParen .closeParen Assignment conditionTokens (.variable "x") := by
  have name : Grammar.Primary [nameToken] (.variable "x") := .name (t := nameToken) rfl (by decide)
  have derives : Assignment [nameToken] (.variable "x") :=
    .operation (Grammar.Suffixed.operation (.primary name))
  exact .mk rfl derives rfl

/-- In `l(x){)r x}x` the parenthesis is complained about, and everything behind it is read. -/
theorem loop_contains_complaints_stray : ∃ body notes, body.length = 1 ∧ notes.length = 1
    ∧ NotingReader.bounded program (loopToken :: conditionTokens
        ++ openToken :: [parenToken, token (.keyword .returnWord) "r", nameToken]
        ++ closeToken :: [nameToken])
      = (.done [.loop (.variable "x") (.block body), .expression (.variable "x")] [], notes) := by
  have balanced : Balanced [parenToken, token (.keyword .returnWord) "r", nameToken] :=
    .cons (by decide) (by decide) (.cons (by decide) (by decide) (.cons (by decide) (by decide) .nil))
  exact ⟨[.giveBack (some (.variable "x"))], _, rfl, rfl,
    (loop_contains_complaints rfl conditionTokens_derives rfl balanced rfl rfl rfl).1⟩

/-- In `l(x){x={x x}}x` the complaint about the map ends the search at the brace of the map, which then
closes the block, and the statement behind the loop is lost with the brace that is left over. -/
theorem loop_complaints_escape : ¬ ∀ (l b c : Token) (cs ts us : List Token) (e : Expr)
    (statements : List Stmt), l.kind = .keyword .loopWord →
    Bracketed .openParen .closeParen Assignment cs e → b.kind = .symbol .openBrace → Balanced ts →
    c.kind = .symbol .closeBrace → NotingReader.bounded program us = (.done statements [], []) →
    ∃ body notes, NotingReader.bounded program (l :: cs ++ b :: ts ++ c :: us)
      = (.done (.loop e (.block body) :: statements) [], notes) := by
  intro contained
  have map : Balanced [nameToken, token (.symbol .equal) "=", openToken, nameToken, nameToken, closeToken] :=
    .cons (by decide) (by decide) (.cons (by decide) (by decide) (.nest rfl
      (.cons (by decide) (by decide) (.cons (by decide) (by decide) .nil)) rfl .nil))
  obtain ⟨body, notes, read⟩ := contained loopToken openToken closeToken conditionTokens _ [nameToken] _ _
    rfl conditionTokens_derives rfl map rfl rfl
  have lost : 1 = 2 := congrArg (statementCount ∘ Prod.fst) read
  exact absurd lost (by decide)

end Reader

namespace NotingReader

/-! ## Notes come from blocks -/

/-- Notes nothing as long as no brace is opened. -/
def Silent (bound : Nat) (reader : NotingReader α) : Prop :=
  ∀ ts us us', Wall ts us us' → ts.length < bound → (∀ t ∈ ts, t.kind ≠ .symbol .openBrace) →
    (reader (ts ++ us)).2 = []

namespace Silent

variable {reader : NotingReader α} {next : α → NotingReader γ} {bound' taken : Nat}

theorem mono (silent : Silent bound reader) (fewer : bound' ≤ bound) : Silent bound' reader :=
  fun ts us us' wall short => silent ts us us' wall (Nat.lt_of_lt_of_le short fewer)

theorem of_notes (none : ∀ tokens, (reader tokens).2 = []) : Silent bound reader :=
  fun _ _ _ _ _ _ => none _

theorem andThen (silent : Silent bound reader) (confined : Confined bound taken reader reader)
    (then_silent : ∀ a, Silent (bound - taken) (next a)) : Silent bound (reader >>= next) := by
  intro ts us us' wall short plain
  have none := silent ts us us' wall short plain
  have alike := (confined ts us us' wall short).reading
  rw [bind_apply]
  generalize reader (ts ++ us) = read at none alike
  obtain ⟨r, notes⟩ := read
  obtain rfl : notes = [] := none
  cases r with
  | refused r => rfl
  | exhausted => rfl
  | done a rest =>
    obtain ⟨front, behind, fewer, rfl, -⟩ := alike.of_done
    exact then_silent a front us us' (wall.suffix behind) (by omega)
      fun t mem => plain t (behind.subset mem)

theorem map {f : α → γ} (silent : Silent bound reader) :
    Silent bound (do return f (← reader) : NotingReader γ) := by
  intro ts us us' wall short plain
  have none := silent ts us us' wall short plain
  rw [bind_apply]
  generalize reader (ts ++ us) = read at none
  rcases read with ⟨_ | _ | _, notes⟩
  · exact (List.append_nil notes).trans none
  · exact none
  · exact none

/-- A reader that notes nothing at all, and what its result leads to. -/
theorem after {reader : Reader α} (confined : reader.Confined bound taken reader)
    (then_silent : ∀ a, Silent (bound - taken) (next a)) : Silent bound (liftM reader >>= next) :=
  andThen (of_notes fun _ => rfl) (.lift confined) then_silent

theorem acceptThen {kind : Token.Kind} {yes no : NotingReader α} (other : kind ≠ .symbol .closeBrace)
    (yes_silent : Silent (bound - 1) yes) (no_silent : Silent bound no) :
    Silent bound (do if ← Reader.accept kind then yes else no : NotingReader α) := by
  intro ts us us' wall short plain
  simp only [acceptThen_eq, wall.heads_iff other]
  split
  · next heads =>
    obtain ⟨t, ts, rfl, -⟩ := heads
    simp only [List.length_cons] at short
    exact yes_silent ts us us' wall.tail (by omega) fun t mem => plain t (List.mem_cons_of_mem _ mem)
  · exact no_silent ts us us' wall short plain

/-- Nothing is read behind an opening brace that is not there. -/
theorem behindBrace (what : String) : Silent bound (do Reader.expect .openBrace what; reader) := by
  intro ts us us' wall short plain
  have missing : ¬ Heads (.symbol .openBrace) ts := by
    rintro ⟨t, rest, rfl, opens⟩
    exact plain t List.mem_cons_self opens
  rw [expectThen_eq, if_neg (mt (wall.heads_iff (by decide)).1 missing)]

end Silent

end NotingReader

namespace Reader

open NotingReader (Silent)

variable {inner : NotingReader Stmt} {declaration : NotingReader (Option Stmt)}

theorem silent_conditioned {next : Expr → NotingReader Stmt} {opens closes : String}
    (silent : ∀ condition, Silent (bound - 1) (next condition)) :
    Silent bound (do
      expect .openParen opens
      let condition ← expression
      expect .closeParen closes
      next condition) := by
  refine .after (Confined.expect (by decide) _) fun _ => .after confined_expression fun condition => ?_
  refine .after (Confined.expect (by decide) _) fun _ => ?_
  exact (silent condition).mono (by omega)

theorem silent_conditional (silent : Silent bound inner)
    (confined : NotingReader.Confined bound 1 inner inner) : Silent bound (conditional inner) := by
  refine silent_conditioned fun condition => ?_
  refine (silent.mono (Nat.sub_le bound 1)).andThen (confined.mono (Nat.sub_le bound 1) (Nat.le_refl 1)) ?_
  intro yes
  exact .acceptThen (by decide) (silent.mono (by omega)).map (.of_notes fun _ => rfl)

theorem silent_statement (silent : Silent bound inner)
    (confined : NotingReader.Confined bound 1 inner inner) :
    Silent (bound + 1) (statement inner declaration) := by
  have lifted {β : Type} (reader : Reader β) (f : β → Stmt) (tokens : List Token) :
      ((do return f (← reader) : NotingReader Stmt) tokens).2 = [] := by
    rw [NotingReader.lift_bind_apply]
    cases reader tokens <;> rfl
  intro ts us us' wall short plain
  cases ts with
  | nil =>
    cases wall with
    | ending => exact lifted expression .expression []
    | @brace c us us' closes _ =>
      rw [List.nil_append, statement_cons, closes]
      exact lifted expression .expression (c :: us)
  | cons t ts =>
    have short' : ts.length < bound := Nat.lt_of_succ_lt_succ short
    have plain' : ∀ t ∈ ts, t.kind ≠ .symbol .openBrace :=
      fun t mem => plain t (List.mem_cons_of_mem _ mem)
    simp only [List.cons_append, statement_cons]
    split
    · exact silent_conditional silent confined ts us us' wall.tail short' plain'
    · rfl
    · exact silent_conditioned (fun _ => (silent.mono (Nat.sub_le bound 1)).map) ts us us' wall.tail
        short' plain'
    · exact Silent.behindBrace _ ts us us' wall.tail short' plain'
    · next opens => exact absurd opens (plain t List.mem_cons_self)
    · exact lifted _ _ _
    · exact lifted _ _ _

theorem silent_classDecl : Silent bound (classDecl declaration) :=
  .after (.name _) fun _ => .after confined_ancestors fun _ => .behindBrace _

theorem silent_anyDeclaration (silent : Silent bound inner)
    (confined : NotingReader.Confined bound 1 inner inner) :
    Silent (bound + 1) (anyDeclaration inner declaration) := by
  intro ts us us' wall short plain
  have statement : (statement inner declaration (ts ++ us)).2 = [] :=
    silent_statement silent confined ts us us' wall short plain
  rw [anyDeclaration, startsClass_append wall]
  cases ts with
  | nil =>
    cases wall with
    | ending => exact statement
    | brace closes _ => simpa [closes, startsClass] using statement
  | cons t ts =>
    split
    · exact silent_classDecl ts us us' wall.tail (Nat.lt_of_succ_lt_succ short)
        fun t mem => plain t (List.mem_cons_of_mem _ mem)
    · split
      · rfl
      · exact statement

theorem silent_statementAt (enough : bound ≤ n) : Silent bound (statementAt n) := by
  induction bound generalizing n with
  | zero => exact fun _ _ _ _ short => absurd short (Nat.not_lt_zero _)
  | succ b ih =>
    obtain ⟨n, rfl, room⟩ := exists_round enough
    rw [statementAt]
    exact silent_statement (ih room) (confined_statementAt room room).1

/-! ## A malformed declaration outside of every block -/

/-- Neither a brace nor a token that reading may go on before. -/
def Plain (t : Token) : Prop :=
  ¬ startsStatement t.kind ∧ t.kind ≠ .symbol .openBrace ∧ t.kind ≠ .symbol .closeBrace

instance {t : Token} : Decidable (Plain t) := inferInstanceAs (Decidable (_ ∧ _))

/-- Plain tokens are skipped, and the closing brace behind them ends the search. -/
theorem resume_of_plain (plain : ∀ t ∈ ts, Plain t) (closes : c.kind = .symbol .closeBrace) :
    resume false (ts ++ c :: us) = us := by
  induction ts with
  | nil => simp [resume, startsStatement, closes]
  | cons t ts ih =>
    obtain ⟨no_start, -, no_closing⟩ := plain t List.mem_cons_self
    rw [List.cons_append, resume, if_neg no_start, if_neg no_closing]
    exact ih fun t mem => plain t (List.mem_cons_of_mem _ mem)

/-- The first token of a malformed declaration is always passed: so is the closing brace when it is
the first one, and then it does not end the search. -/
theorem resumeAfter_of_plain {cause : Refusal.Cause} (plain : ∀ t ∈ ts, Plain t)
    (closes : c.kind = .symbol .closeBrace) (behind : front <:+ ts) :
    resumeAfter false (ts ++ c :: us) ⟨cause, front ++ c :: us⟩
      = if ts = [] then resume false us else us := by
  have plain' : ∀ t ∈ front, Plain t := fun t mem => plain t (behind.subset mem)
  unfold resumeAfter
  simp only [List.length_append, Nat.add_right_cancel_iff]
  -- Only where nothing is in front of the brace is the brace itself the first token.
  by_cases empty : ts = []
  · obtain rfl := List.suffix_nil.1 (empty ▸ behind)
    simp [empty]
  · rw [if_neg empty]
    split
    · next stuck =>
      obtain ⟨t, front, rfl⟩ : ∃ t rest, front = t :: rest :=
        List.exists_cons_of_length_pos (stuck ▸ List.length_pos_iff.2 empty)
      exact resume_of_plain (fun t mem => plain' t (List.mem_cons_of_mem _ mem)) closes
    · exact resume_of_plain plain' closes

/-- A declaration that opens no brace, in front of a closing one: it is done or refused in front of that
brace, whatever stands behind, and nothing is noted. -/
theorem anyDeclaration_confined (no_opening : ∀ t ∈ ts, t.kind ≠ .symbol .openBrace)
    (closes : c.kind = .symbol .closeBrace) :
    (∃ s front, ∀ n us, ts.length ≤ n →
        anyDeclaration (statementAt n) (declarationAt n true) (ts ++ c :: us)
          = (.done s (front ++ c :: us), []))
      ∨ ∃ cause front, front <:+ ts ∧ ∀ n us, ts.length ≤ n →
        anyDeclaration (statementAt n) (declarationAt n true) (ts ++ c :: us)
          = (.refused ⟨cause, front ++ c :: us⟩, []) := by
  have wall (us us' : List Token) : Wall ts (c :: us) (c :: us') :=
    .brace closes (sheltered_of_no_opening no_opening)
  -- Notes are made where a block is left only, and no block begins.
  have silent (n : Nat) (us : List Token) (enough : ts.length ≤ n) :
      (anyDeclaration (statementAt n) (declarationAt n true) (ts ++ c :: us)).2 = [] :=
    silent_anyDeclaration (silent_statementAt enough) (confined_statementAt enough enough).1 ts _ _
      (wall us us) (Nat.lt_succ_self _) no_opening
  have alike (n : Nat) (us : List Token) (enough : ts.length ≤ n) :=
    have both := confined_statementAt (Nat.le_refl ts.length) enough
    (confined_anyDeclaration both.1 both.2 ts _ _ (wall [] us) (Nat.lt_succ_self _)).reading
  generalize (anyDeclaration (statementAt ts.length) (declarationAt ts.length true) (ts ++ [c])).1 = r
    at alike
  cases r with
  | exhausted => exact absurd (alike _ [] (Nat.le_refl _)) Reading.Alike.not_exhausted
  | done s rest =>
    obtain ⟨front, -, -, rfl, -⟩ := (alike _ [] (Nat.le_refl _)).of_done
    refine .inl ⟨s, front, fun n us enough => Prod.ext ?_ (silent n us enough)⟩
    obtain ⟨front', -, -, same, done⟩ := (alike n us enough).of_done
    rwa [← List.append_cancel_right same] at done
  | refused r =>
    obtain ⟨q, -, about⟩ := (alike _ [] (Nat.le_refl _)).of_refused
    obtain @⟨front, cause, behind⟩ := about
    refine .inr ⟨cause, front, behind, fun n us enough => Prod.ext ?_ (silent n us enough)⟩
    obtain ⟨q, refused, about⟩ := (alike n us enough).of_refused
    rw [refused, about.followedBy]
    simp [Refusal.followedBy]

/-- A first declaration that is malformed in front of a closing brace is left out with one complaint,
whatever stands behind the brace. -/
theorem topDeclaration_malformed (plain : ∀ t ∈ ts, Plain t) (closes : c.kind = .symbol .closeBrace)
    (malformed : (topDeclaration (ts ++ [c])).2 ≠ []) :
    ∃ note, topDeclaration (ts ++ c :: us)
      = (.done none (if ts = [] then resume false us else us), [note]) := by
  have enough (us : List Token) : ts.length ≤ (ts ++ c :: us).length := by simp
  simp only [topDeclaration_apply, declarationAt, recovering] at malformed ⊢
  rcases anyDeclaration_confined (fun t mem => (plain t mem).2.1) closes with
    ⟨s, front, done⟩ | ⟨cause, front, behind, refused⟩
  · exact absurd (by rw [done _ [] (enough [])]) malformed
  · refine ⟨⟨cause, front ++ c :: us⟩, ?_⟩
    rw [refused _ us (enough us)]
    simp only [resumeAfter_of_plain plain closes behind, List.nil_append]

/-- A closing brace ends the recovery from a malformed declaration: what is behind the brace is read
as if nothing were in front of it, with one complaint.  When the brace itself is the token that cannot
be read, the search goes on behind it, so then a statement must begin there, or nothing come at all. -/
theorem brace_ends_recovery {statements : List Stmt} (plain : ∀ t ∈ ts, Plain t)
    (closes : c.kind = .symbol .closeBrace) (malformed : (topDeclaration (ts ++ [c])).2 ≠ [])
    (stays : ts = [] → resume false us = us)
    (clean : NotingReader.bounded program us = (.done statements [], [])) :
    ∃ note, NotingReader.bounded program (ts ++ c :: us) = (.done statements [], [note]) := by
  obtain ⟨note, read⟩ := topDeclaration_malformed plain closes malformed
  have goes_on : (if ts = [] then resume false us else us) = us := by
    split
    · next empty => exact stays empty
    · rfl
  rw [goes_on] at read
  exact ⟨note, program_of_declaration (by simp) read clean⟩

/-- In `x=)}x` the statement behind the brace is read. -/
theorem brace_ends_recovery_value : ∃ note,
    NotingReader.bounded program ([nameToken, token (.symbol .equal) "=", parenToken]
      ++ closeToken :: [nameToken]) = (.done [.expression (.variable "x")] [], [note]) := by
  have plain : ∀ t ∈ [nameToken, token (.symbol .equal) "=", parenToken], Plain t := by
    decide
  exact brace_ends_recovery plain rfl (by decide) nofun rfl

/-- In `}x` the brace is the token that cannot be read, and the statement behind it is lost. -/
theorem stray_brace_swallows : ¬ ∀ (ts us : List Token) (c : Token) (statements : List Stmt),
    (∀ t ∈ ts, Plain t) → c.kind = .symbol .closeBrace → (topDeclaration (ts ++ [c])).2 ≠ [] →
    NotingReader.bounded program us = (.done statements [], []) →
    ∃ note, NotingReader.bounded program (ts ++ c :: us) = (.done statements [], [note]) := by
  intro ended
  obtain ⟨note, read⟩ := ended [] [nameToken] closeToken _ nofun rfl (by decide) rfl
  have lost : 0 = 1 := congrArg (statementCount ∘ Prod.fst) read
  exact absurd lost (by decide)

end Reader

end Monogram
