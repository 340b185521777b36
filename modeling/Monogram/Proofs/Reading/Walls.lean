import Monogram.Proofs.Reading.Completeness
import Monogram.Proofs.Reading.Statements

/-! # Reading behind a wall

Two lists that begin with the same tokens are read alike as far as those tokens reach, when behind
them either nothing comes at all, or a closing brace that none of them opens.  For no reader goes
past such a brace: it is no part of an expression, and whatever takes a closing brace has taken an
opening one before.

* `Sheltered`, `Wall` — tokens with such an end behind them.
* `Reading.Alike`, `Reader.Confined` — what comes of two readings, and readers that go alike.
* `Reader.confined_expression` — expressions are confined.
-/

namespace Monogram

open Grammar (Heads)

variable {α γ : Type}

/-! ## Braces -/

/-- Every opening brace is closed; there may be closing braces besides. -/
inductive Sheltered : List Token → Prop where
  | nil : Sheltered []
  | cons {t : Token} {ts : List Token} (other : t.kind ≠ .symbol .openBrace) (rest : Sheltered ts) :
      Sheltered (t :: ts)
  | nest {first last : Token} {inner ts : List Token} (opens : first.kind = .symbol .openBrace)
      (inside : Sheltered inner) (closes : last.kind = .symbol .closeBrace) (rest : Sheltered ts) :
      Sheltered (first :: inner ++ last :: ts)

/-- Every opening brace is closed, and every closing brace opened. -/
inductive Balanced : List Token → Prop where
  | nil : Balanced []
  | cons {t : Token} {ts : List Token} (no_opening : t.kind ≠ .symbol .openBrace)
      (no_closing : t.kind ≠ .symbol .closeBrace) (rest : Balanced ts) : Balanced (t :: ts)
  | nest {first last : Token} {inner ts : List Token} (opens : first.kind = .symbol .openBrace)
      (inside : Balanced inner) (closes : last.kind = .symbol .closeBrace) (rest : Balanced ts) :
      Balanced (first :: inner ++ last :: ts)

theorem Balanced.sheltered {ts : List Token} (balanced : Balanced ts) : Sheltered ts := by
  induction balanced with
  | nil => exact .nil
  | cons no_opening _ _ rest => exact .cons no_opening rest
  | nest opens _ closes _ inside rest => exact .nest opens inside closes rest

theorem sheltered_of_no_opening {ts : List Token} (none : ∀ t ∈ ts, t.kind ≠ .symbol .openBrace) :
    Sheltered ts := by
  induction ts with
  | nil => exact .nil
  | cons t ts ih =>
    exact .cons (none t List.mem_cons_self) (ih fun t mem => none t (List.mem_cons_of_mem _ mem))

namespace Sheltered

variable {ts us : List Token} {t : Token}

theorem append (first : Sheltered ts) (second : Sheltered us) : Sheltered (ts ++ us) := by
  induction first with
  | nil => exact second
  | cons other _ rest => exact .cons other rest
  | nest opens inside closes _ _ rest => simpa using Sheltered.nest opens inside closes rest

theorem suffix (sheltered : Sheltered ts) (behind : us <:+ ts) : Sheltered us := by
  induction sheltered generalizing us with
  | nil =>
    rw [List.suffix_nil.1 behind]
    exact .nil
  | cons other rest ih =>
    rcases List.suffix_cons_iff.1 behind with rfl | behind
    · exact .cons other rest
    · exact ih behind
  | @nest first last inner ts opens inside closes rest inside_ih rest_ih =>
    rcases List.suffix_cons_iff.1 behind with rfl | behind
    · exact .nest opens inside closes rest
    -- Without its opening brace the closing one is one of those besides.
    · have tail : Sheltered (last :: ts) := .cons (by simp [closes]) rest
      rcases List.suffix_or_suffix_of_suffix behind (List.suffix_append inner _) with short | long
      · rcases List.suffix_cons_iff.1 short with rfl | short
        · exact tail
        · exact rest_ih short
      · obtain ⟨front, rfl⟩ := long
        exact (inside_ih (List.suffix_append_self_iff.1 behind)).append tail

/-- The brace that closes one which comes first. -/
theorem opened (sheltered : Sheltered (t :: ts)) (opens : t.kind = .symbol .openBrace) :
    ∃ inner last rest, ts = inner ++ last :: rest ∧ Sheltered inner
      ∧ last.kind = .symbol .closeBrace := by
  cases sheltered with
  | cons other => exact absurd opens other
  | nest _ inside closes _ => exact ⟨_, _, _, rfl, inside, closes⟩

end Sheltered

/-- What comes behind tokens, twice: nothing, or the same closing brace, which none of them opens, and
any tokens behind it. -/
inductive Wall (ts : List Token) : List Token → List Token → Prop where
  | ending : Wall ts [] []
  | brace {c : Token} {us us' : List Token} (closes : c.kind = .symbol .closeBrace)
      (sheltered : Sheltered ts) : Wall ts (c :: us) (c :: us')

namespace Wall

variable {ts front us us' : List Token} {t : Token} {kind : Token.Kind}

theorem suffix (wall : Wall ts us us') (behind : front <:+ ts) : Wall front us us' := by
  cases wall with
  | ending => exact .ending
  | brace closes sheltered => exact .brace closes (sheltered.suffix behind)

theorem tail (wall : Wall (t :: ts) us us') : Wall ts us us' := wall.suffix (List.suffix_cons t ts)

theorem flip (wall : Wall ts us us') : Wall ts us' us := by
  cases wall with
  | ending => exact .ending
  | brace closes sheltered => exact .brace closes sheltered

/-- A token of any other kind than the closing brace is none of the wall. -/
theorem heads_iff (wall : Wall ts us us') (other : kind ≠ .symbol .closeBrace) :
    Heads kind (ts ++ us) ↔ Heads kind ts := by
  cases ts with
  | nil =>
    cases wall with
    | ending => rfl
    | brace closes sheltered =>
      simp only [List.nil_append, heads_cons, closes]
      constructor
      · exact fun same => absurd same.symm other
      · rintro ⟨t, rest, empty, -⟩
        nomatch empty
  | cons t ts => simp only [List.cons_append, heads_cons]

/-- Behind an opening brace everything up to its own closing one has a wall behind, and there is no
closing brace of its own only where the list goes on to the end. -/
theorem opened (wall : Wall (t :: ts) us us') (opens : t.kind = .symbol .openBrace) :
    ∃ inner mid, ts = inner ++ mid ∧ (mid = [] → us = [] ∧ us' = [])
      ∧ Wall inner (mid ++ us) (mid ++ us') := by
  cases wall with
  | ending => exact ⟨ts, [], (List.append_nil ts).symm, fun _ => ⟨rfl, rfl⟩, .ending⟩
  | brace closes sheltered =>
    obtain ⟨inner, last, rest, rfl, inside, closes'⟩ := sheltered.opened opens
    exact ⟨inner, last :: rest, rfl, nofun, .brace closes' inside⟩

theorem closed_iff (wall : Wall ts us us') : Closed (ts ++ us) ↔ Closed ts := by
  cases ts with
  | nil => cases wall <;> simp_all [Closed, heads_cons]
  | cons t ts => simp [Closed, heads_cons]

/-- Both go on with a closing brace or with another token, or are at their end. -/
theorem heads_closeBrace_iff (wall : Wall ts us us') :
    Heads (.symbol .closeBrace) (ts ++ us) ↔ Heads (.symbol .closeBrace) (ts ++ us') := by
  cases ts with
  | nil => cases wall <;> simp [heads_cons]
  | cons t ts => simp only [List.cons_append, heads_cons]

end Wall

/-! ## Alike -/

/-- The same complaint about what is left of `ts` or about the wall behind. -/
inductive Refusal.Alike (ts us us' : List Token) : Refusal → Refusal → Prop where
  | mk {front : List Token} (cause : Refusal.Cause) (behind : front <:+ ts) :
      Alike ts us us' ⟨cause, front ++ us⟩ ⟨cause, front ++ us'⟩

/-- The same of two readings, and at least `taken` of the tokens `ts` were taken but nothing of what
is behind them. -/
inductive Reading.Alike (ts us us' : List Token) (taken : Nat) : Reading α → Reading α → Prop where
  | done {front : List Token} (value : α) (behind : front <:+ ts)
      (fewer : front.length + taken ≤ ts.length) :
      Alike ts us us' taken (.done value (front ++ us)) (.done value (front ++ us'))
  | refused {r r' : Refusal} (alike : r.Alike ts us us' r') :
    Alike ts us us' taken (.refused r) (.refused r')

section

variable {ts front mid us us' : List Token} {t : Token} {taken taken' : Nat}

theorem Refusal.Alike.widen {r r' : Refusal} (alike : r.Alike front us us' r')
    (behind : front <:+ ts) : r.Alike ts us us' r' := by
  cases alike with
  | mk cause behind' => exact .mk cause (behind'.trans behind)

/-- What is behind `front` may be a part of the tokens that are read and the wall behind them. -/
theorem Refusal.Alike.behind {r r' : Refusal} (alike : r.Alike front (mid ++ us) (mid ++ us') r') :
    r.Alike (front ++ mid) us us' r' := by
  cases alike with
  | @mk part cause behind =>
    rw [← List.append_assoc, ← List.append_assoc]
    exact .mk cause (List.suffix_append_self_iff.2 behind)

namespace Reading.Alike

theorem widen {r r' : Reading α} (alike : r.Alike front us us' taken r') (behind : front <:+ ts)
    (fewer : front.length + taken' ≤ ts.length + taken) : r.Alike ts us us' taken' r' := by
  cases alike with
  | done value behind' fewer' => exact .done value (behind'.trans behind) (by omega)
  | refused alike => exact .refused (alike.widen behind)

theorem less {r r' : Reading α} (alike : r.Alike ts us us' taken r') (less : taken' ≤ taken) :
    r.Alike ts us us' taken' r' :=
  alike.widen (List.suffix_refl ts) (by omega)

/-- A token in front of what is read. -/
theorem succ {r r' : Reading α} (alike : r.Alike ts us us' taken r') (less : taken' ≤ taken + 1) :
    r.Alike (t :: ts) us us' taken' r' :=
  alike.widen (List.suffix_cons t ts) (by simp only [List.length_cons]; omega)

theorem andThen {r r' : Reading α} {next next' : α → List Token → Reading γ}
    (alike : r.Alike ts us us' taken r')
    (later : ∀ a front, front <:+ ts → front.length + taken ≤ ts.length →
      (next a (front ++ us)).Alike ts us us' taken' (next' a (front ++ us'))) :
    (r.andThen next).Alike ts us us' taken' (r'.andThen next') := by
  cases alike with
  | done value behind fewer => exact later value _ behind fewer
  | refused alike => exact .refused alike

/-- Reading stays where it is. -/
theorem here (ts : List Token) (value : α) :
    (Reading.done value (ts ++ us)).Alike ts us us' 0 (.done value (ts ++ us')) :=
  .done value (List.suffix_refl ts) (Nat.le_refl _)

theorem refuse (ts : List Token) (cause : Refusal.Cause) :
    (Reading.refused ⟨cause, ts ++ us⟩ : Reading α).Alike ts us us' taken
      (.refused ⟨cause, ts ++ us'⟩) :=
  .refused (.mk cause (List.suffix_refl ts))

/-- One token is taken. -/
theorem next (value : α) :
    (Reading.done value (ts ++ us)).Alike (t :: ts) us us' 1 (.done value (ts ++ us')) :=
  .done value (List.suffix_cons t ts) (Nat.le_refl _)

/-- What has been read leaves a part of the tokens in front of the wall. -/
theorem of_done {value : α} {rest : List Token} {r' : Reading α}
    (alike : (Reading.done value rest).Alike ts us us' taken r') :
    ∃ front, front <:+ ts ∧ front.length + taken ≤ ts.length ∧ rest = front ++ us
      ∧ r' = .done value (front ++ us') := by
  cases alike with
  | done value behind fewer => exact ⟨_, behind, fewer, rfl, rfl⟩

theorem of_refused {r : Refusal} {r' : Reading α}
    (alike : (Reading.refused r : Reading α).Alike ts us us' taken r') :
    ∃ q, r' = .refused q ∧ r.Alike ts us us' q := by
  cases alike with
  | refused alike => exact ⟨_, rfl, alike⟩

theorem not_exhausted {r' : Reading α} : ¬ Reading.exhausted.Alike ts us us' taken r' := by
  rintro ⟨⟩

end Reading.Alike

end

/-! ## Confined readers -/

namespace Reader

/-- A bound that is enough for one token more allows a round. -/
theorem exists_round {b n : Nat} (enough : b + 1 ≤ n) : ∃ m, n = m + 1 ∧ b ≤ m :=
  ⟨n - 1, by omega, by omega⟩

theorem expectThen_eq {s : Symbol} {what : String} {reader : Reader α} {tokens : List Token} :
    (do expect s what; reader : Reader α) tokens
      = if Heads (.symbol s) tokens then reader tokens.tail else .refused ⟨.expected what, tokens⟩ := by
  cases tokens with
  | nil => rfl
  | cons t tokens =>
    by_cases same : t.kind = .symbol s <;>
      simp [expect, Reader.expectToken, heads_cons, same, Reading.andThen]

/-- The two readers read less than `bound` tokens in front of a wall alike, of which they take at least
`taken`. -/
def Confined (bound taken : Nat) (reader reader' : Reader α) : Prop :=
  ∀ ts us us', Wall ts us us' → ts.length < bound →
    (reader (ts ++ us)).Alike ts us us' taken (reader' (ts ++ us'))

/-- The two readers read less than `bound` tokens behind an opening brace alike. -/
def Enclosed (bound : Nat) (reader reader' : Reader α) : Prop :=
  ∀ t ts us us', t.kind = .symbol .openBrace → Wall (t :: ts) us us' → ts.length < bound →
    (reader (ts ++ us)).Alike ts us us' 0 (reader' (ts ++ us'))

namespace Confined

variable {bound bound' taken taken' n n' : Nat} {reader reader' : Reader α} {kind : Token.Kind}
  {ts us us' : List Token} {t : Token}

theorem mono (confined : Confined bound taken reader reader') (fewer : bound' ≤ bound)
    (less : taken' ≤ taken) : Confined bound' taken' reader reader' :=
  fun ts us us' wall short => (confined ts us us' wall (Nat.lt_of_lt_of_le short fewer)).less less

theorem zero (confined : Confined bound taken reader reader') : Confined bound 0 reader reader' :=
  confined.mono (Nat.le_refl bound) (Nat.zero_le taken)

theorem of_bound_zero : Confined 0 taken reader reader' :=
  fun _ _ _ _ short => absurd short (Nat.not_lt_zero _)

protected theorem pure (a : α) : Confined bound 0 (pure a : Reader α) (pure a) :=
  fun _ _ _ _ _ => .here _ a

protected theorem bind {next next' : α → Reader γ} (confined : Confined bound taken reader reader')
    (then_confined : ∀ a, Confined (bound - taken) taken' (next a) (next' a)) :
    Confined bound (taken + taken') (reader >>= next) (reader' >>= next') := by
  intro ts us us' wall short
  refine (confined ts us us' wall short).andThen fun a front behind fewer => ?_
  exact (then_confined a front us us' (wall.suffix behind) (by omega)).widen behind (by omega)

/-- What is read first takes the tokens. -/
theorem andThen {next next' : α → Reader γ} (confined : Confined bound taken reader reader')
    (then_confined : ∀ a, Confined (bound - taken) 0 (next a) (next' a)) :
    Confined bound taken (reader >>= next) (reader' >>= next') :=
  confined.bind then_confined

theorem map {f : α → γ} (confined : Confined bound taken reader reader') :
    Confined bound taken (do return f (← reader) : Reader γ) (do return f (← reader') : Reader γ) :=
  confined.andThen fun _ => .pure _

theorem expectToken (other : kind ≠ .symbol .closeBrace) (what : String) :
    Confined bound 1 (expectToken kind what) (expectToken kind what) := by
  intro ts us us' wall _
  cases ts with
  | nil =>
    cases wall with
    | ending => exact .refuse [] _
    | brace closes _ =>
      simp only [List.nil_append, Reader.expectToken, closes, Ne.symm other, if_false]
      exact .refuse [] _
  | cons t ts =>
    simp only [List.cons_append, Reader.expectToken]
    split
    · exact .next t
    · exact .refuse (t :: ts) _

theorem expect {s : Symbol} (other : s ≠ .closeBrace) (what : String) :
    Confined bound 1 (expect s what) (expect s what) :=
  (expectToken (fun same => other (Token.Kind.symbol.inj same)) what).map

theorem name (what : String) : Confined bound 1 (name what) (name what) := by
  intro ts us us' wall _
  cases ts with
  | nil =>
    cases wall with
    | ending => exact .refuse [] _
    | brace closes _ =>
      simp only [List.nil_append, Reader.name, Token.isName, closes, Bool.false_eq_true, if_false]
      exact .refuse [] _
  | cons t ts =>
    simp only [List.cons_append, Reader.name]
    split
    · exact .next _
    · exact .refuse (t :: ts) _

theorem acceptThen {yes no yes' no' : Reader α} (other : kind ≠ .symbol .closeBrace)
    (yes_confined : Confined (bound - 1) (taken - 1) yes yes') (no_confined : Confined bound taken no no') :
    Confined bound taken (do if ← accept kind then yes else no : Reader α)
      (do if ← accept kind then yes' else no' : Reader α) := by
  intro ts us us' wall short
  simp only [acceptThen_eq, wall.heads_iff other, wall.flip.heads_iff other]
  split
  · next heads =>
    obtain ⟨t, ts, rfl, -⟩ := heads
    simp only [List.length_cons] at short
    exact (yes_confined ts us us' wall.tail (by omega)).succ (by omega)
  · exact no_confined ts us us' wall short

/-- Repetitions are confined when they are for each bound that is enough. -/
theorem bounded {repetition repetition' : Nat → Reader α}
    (confined : ∀ b n n', b ≤ bound → b ≤ n → b ≤ n' →
      Confined b taken (repetition n) (repetition' n')) :
    Confined bound taken (bounded repetition) (bounded repetition') := by
  intro ts us us' wall short
  have enough (us : List Token) : ts.length + 1 ≤ (ts ++ us).length + 1 := by
    rw [List.length_append]
    omega
  exact confined _ _ _ short (enough us) (enough us') ts us us' wall (Nat.lt_succ_self _)

theorem commaItems (item : Confined bound 1 reader reader') (enough : bound ≤ n) (enough' : bound ≤ n') :
    Confined bound 1 (commaItems reader n) (commaItems reader' n') := by
  induction bound generalizing n n' with
  | zero => exact of_bound_zero
  | succ b ih =>
    obtain ⟨n, rfl, room⟩ := exists_round enough
    obtain ⟨n', rfl, room'⟩ := exists_round enough'
    refine item.andThen fun first => acceptThen nofun ?_ (.pure _)
    exact ((ih (item.mono (Nat.le_succ b) (Nat.le_refl 1)) room room').mono (by omega) (by omega)).map

/-- Items up to a closing symbol that is no brace. -/
theorem commaList {close : Symbol} (item : Confined bound 1 reader reader') (other : close ≠ .closeBrace)
    (what : String) : Confined bound 1 (commaList reader close what) (commaList reader' close what) := by
  have apart : Token.Kind.symbol close ≠ .symbol .closeBrace :=
    fun same => other (Token.Kind.symbol.inj same)
  intro ts us us' wall short
  simp only [commaList_eq, wall.heads_iff apart, wall.flip.heads_iff apart]
  have inside : Confined bound 0
      (if Heads (.symbol close) ts then pure [] else Reader.bounded (Reader.commaItems reader))
      (if Heads (.symbol close) ts then pure [] else Reader.bounded (Reader.commaItems reader')) := by
    split
    · exact .pure []
    · refine bounded fun b n n' le enough enough' => ?_
      exact ((item.mono le (Nat.le_refl 1)).commaItems enough enough').zero
  exact inside.bind (fun items => (expect other what).bind fun _ => .pure items) ts us us' wall short

/-- The brace that closes what has been read, or the end where there is none. -/
theorem expect_closeBrace (own : ts = [] → us = [] ∧ us' = []) (what : String) :
    (Reader.expect .closeBrace what (ts ++ us)).Alike ts us us' 1
      (Reader.expect .closeBrace what (ts ++ us')) := by
  cases ts with
  | nil =>
    obtain ⟨rfl, rfl⟩ := own rfl
    exact .refuse [] _
  | cons t ts =>
    by_cases closes : t.kind = .symbol .closeBrace
    · simpa only [List.cons_append, expect_of_kind closes] using .next ()
    · simp only [List.cons_append, Reader.expect, bind_apply, Reader.expectToken, closes, if_false]
      exact .refuse (t :: ts) _

/-- The closing brace behind what stands between braces. -/
theorem closing {inner mid : List Token} {r r' : Reading α} (f : α → γ) (what : String)
    (alike : r.Alike inner (mid ++ us) (mid ++ us') 0 r') (own : mid = [] → us = [] ∧ us' = []) :
    (r.andThen fun a => (do Reader.expect .closeBrace what; return f a : Reader γ)).Alike (inner ++ mid)
      us us' 0 (r'.andThen fun a => (do Reader.expect .closeBrace what; return f a : Reader γ)) := by
  cases alike with
  | refused alike => exact .refused alike.behind
  | @done front a behind fewer =>
    have own' : front ++ mid = [] → us = [] ∧ us' = [] :=
      fun empty => own (List.append_eq_nil_iff.1 empty).2
    have closed := (expect_closeBrace own' what).andThen
      fun u rest behind fewer => (Reading.Alike.here _ (f a)).widen behind fewer
    simp only [List.append_assoc] at closed
    exact closed.widen (List.suffix_append_self_iff.2 behind) (by simp only [List.length_append]; omega)

/-- What stands between an opening brace, which has been taken, and a closing one. -/
theorem braced {f : α → γ} {what : String} (inside : Confined bound 0 reader reader') :
    Enclosed bound (do let a ← reader; Reader.expect .closeBrace what; return f a)
      (do let a ← reader'; Reader.expect .closeBrace what; return f a) := by
  intro t ts us us' opens wall short
  obtain ⟨inner, mid, rfl, own, wall'⟩ := wall.opened opens
  rw [List.length_append] at short
  simp only [List.append_assoc, bind_apply]
  exact closing f what (inside inner _ _ wall' (by omega)) own

theorem behindBrace (enclosed : Enclosed (bound - 1) reader reader') (what : String) :
    Confined bound 1 (do Reader.expect .openBrace what; reader)
      (do Reader.expect .openBrace what; reader') := by
  intro ts us us' wall short
  simp (disch := decide) only [expectThen_eq, wall.heads_iff, wall.flip.heads_iff]
  split
  · next heads =>
    obtain ⟨t, ts, rfl, opens⟩ := heads
    simp only [List.length_cons] at short
    exact (enclosed t ts us us' opens wall (by omega)).succ (Nat.le_refl 1)
  · exact .refuse _ _

/-- A map behind its opening brace. -/
theorem bracedList (item : Confined bound 1 reader reader') (what : String) :
    Enclosed bound (Reader.commaList reader .closeBrace what)
      (Reader.commaList reader' .closeBrace what) := by
  intro t ts us us' opens wall short
  simp only [commaList_eq, wall.tail.heads_closeBrace_iff]
  split
  · exact (Confined.pure []).braced t ts us us' opens wall short
  · refine (bounded fun b n n' le enough enough' => ?_).braced t ts us us' opens wall short
    exact ((item.mono le (Nat.le_refl 1)).commaItems enough enough').zero

theorem typeCode (what : String) : Confined bound 1 (typeCode what) (typeCode what) := by
  intro ts us us' wall short
  refine (expectToken (by decide) what ts us us' wall short).andThen fun t front behind fewer => ?_
  split
  · exact .done _ behind fewer
  · exact .refused (.mk _ behind)

theorem optional (confined : Confined bound taken reader reader') :
    Confined bound 0 (optional reader) (optional reader') := by
  intro ts us us' wall short
  have alike := confined ts us us' wall short
  unfold Reader.optional
  generalize reader (ts ++ us) = r, reader' (ts ++ us') = r' at alike
  cases alike with
  | done a behind fewer => exact .done _ behind (by omega)
  | refused => exact .here _ none

end Confined

/-! ## Expressions -/

variable {whole whole' operand operand' : Reader Expr} {bound n n' : Nat} {e : Expr}

theorem confined_arguments (confined : Confined bound 1 whole whole') :
    Confined bound 1 (arguments whole) (arguments whole') :=
  confined.commaList (by decide) _

theorem confined_mapEntry (confined : Confined bound 1 whole whole') :
    Confined bound 1 (mapEntry whole) (mapEntry whole') := by
  refine confined.andThen fun key => ?_
  refine ((Confined.expect (by decide) _).andThen fun _ => ?_).zero
  exact (confined.mono (by omega) (Nat.zero_le 1)).map

theorem confined_construction (confined : Confined bound 1 whole whole') :
    Confined bound 1 (construction whole) (construction whole') := by
  refine (Confined.name _).andThen fun className => .acceptThen (by decide) ?_ (.pure _)
  exact (confined_arguments confined).map.mono (by omega) (Nat.zero_le 1)

theorem confined_grouped (confined : Confined bound 1 whole whole') :
    Confined bound 1 (grouped whole) (grouped whole') := by
  refine confined.andThen fun inner => ?_
  exact ((Confined.expect (by decide) _).andThen fun _ => .pure _).zero

/-- A closing brace begins no expression, and the one that ends a map closes the brace that begins it. -/
theorem confined_primary (confined : Confined bound 1 whole whole') :
    Confined (bound + 1) 1 (primary whole) (primary whole') := by
  intro ts us us' wall short
  cases ts with
  | nil =>
    cases wall with
    | ending => exact .refuse [] _
    | brace closes _ =>
      simp only [List.nil_append, primary_cons, closes]
      exact .refuse [] _
  | cons t ts =>
    have short : ts.length < bound := Nat.lt_of_succ_lt_succ short
    simp only [List.cons_append, primary_cons]
    split
    · cases t.number? with
      | none => exact .refuse (t :: ts) _
      | some value => exact .next _
    · exact .next _
    · exact (confined_construction confined ts us us' wall.tail short).succ (by omega)
    · exact .next _
    · exact .next _
    · exact ((confined.commaList (by decide) _).map ts us us' wall.tail short).succ (by omega)
    · next opens =>
      have map := (confined_mapEntry confined).bracedList "Expect '\x7d' after map entries" t ts us us'
        opens wall short
      exact (map.andThen fun entries front behind fewer => .done _ behind fewer).succ (by omega)
    · exact (confined_grouped confined ts us us' wall.tail short).succ (by omega)
    · exact .refuse (t :: ts) _

/-- Behind a token of the kind that was looked for. -/
theorem alike_tail {kind : Token.Kind} {reader reader' : Reader α} {ts us us' : List Token}
    (heads : Heads kind ts) (wall : Wall ts us us') (short : ts.length < bound + 1)
    (confined : Confined bound 0 reader reader') :
    (reader (ts ++ us).tail).Alike ts us us' 0 (reader' (ts ++ us').tail) := by
  obtain ⟨t, ts, rfl, -⟩ := heads
  exact (confined ts us us' wall.tail (Nat.lt_of_succ_lt_succ short)).succ (Nat.zero_le _)

theorem confined_suffixes {b : Nat} (confined : Confined bound 1 whole whole') (le : b ≤ bound + 1)
    (enough : b ≤ n) (enough' : b ≤ n') :
    Confined b 0 (suffixes whole n e) (suffixes whole' n' e) := by
  -- every suffix takes a token, so the next one is read with one round and one token less
  induction b generalizing n n' e with
  | zero => exact .of_bound_zero
  | succ b ih =>
    obtain ⟨n, rfl, room⟩ := exists_round enough
    obtain ⟨n', rfl, room'⟩ := exists_round enough'
    have inside : Confined b 1 whole whole' := confined.mono (Nat.le_of_succ_le_succ le) (Nat.le_refl 1)
    have onward (e : Expr) : Confined (b - 1) 0 (suffixes whole n e) (suffixes whole' n' e) :=
      (ih (Nat.le_of_succ_le le) room room').mono (Nat.sub_le b 1) (Nat.le_refl 0)
    intro ts us us' wall short
    simp (disch := decide) only [suffixes_succ, wall.heads_iff, wall.flip.heads_iff]
    split
    · next heads =>
      exact alike_tail heads wall short ((confined_arguments inside).andThen fun args => onward _).zero
    · split
      · next heads =>
        exact alike_tail heads wall short ((Confined.name _).andThen fun member => onward _).zero
      · split
        · next heads =>
          refine alike_tail heads wall short (inside.andThen fun index => ?_).zero
          refine ((Confined.expect (by decide) _).andThen fun _ => ?_).zero
          exact (onward _).mono (Nat.sub_le _ 1) (Nat.le_refl 0)
        · exact .here _ e

theorem confined_suffixed (confined : Confined bound 1 whole whole') :
    Confined (bound + 1) 1 (suffixed whole) (suffixed whole') :=
  (confined_primary confined).andThen fun _ => .bounded fun _ _ _ le enough enough' =>
    confined_suffixes confined (Nat.le_succ_of_le le) enough enough'

/-- A closing brace is no prefix operator. -/
theorem confined_prefixed (confined : Confined bound 1 operand operand') :
    Confined bound 1 (prefixed operand) (prefixed operand') := by
  intro ts us us' wall short
  induction ts with
  | nil =>
    cases wall with
    | ending => exact confined [] [] [] .ending short
    | @brace c us us' closes sheltered =>
      simp only [List.nil_append, prefixed, closes, prefixOp?]
      exact confined [] (c :: us) (c :: us') (.brace closes sheltered) short
  | cons t ts ih =>
    simp only [List.cons_append, prefixed]
    split
    · refine ((ih wall.tail (Nat.lt_of_succ_lt short)).succ (Nat.le_succ 1)).andThen ?_
      exact fun e front behind fewer => .done _ behind fewer
    · exact confined (t :: ts) us us' wall short

theorem confined_chain {level : Connective} (apart : level (.symbol .closeBrace) = none)
    (confined : Confined bound 1 operand operand') (enough : bound ≤ n) (enough' : bound ≤ n') :
    Confined bound 0 (chain level operand n e) (chain level operand' n' e) := by
  induction bound generalizing n n' e with
  | zero => exact .of_bound_zero
  | succ b ih =>
    obtain ⟨n, rfl, room⟩ := exists_round enough
    obtain ⟨n', rfl, room'⟩ := exists_round enough'
    have inside : Confined b 1 operand operand' := confined.mono (Nat.le_succ b) (Nat.le_refl 1)
    intro ts us us' wall short
    simp only [chain_succ]
    cases ts with
    | nil =>
      cases wall with
      | ending => exact .here [] e
      | brace closes _ =>
        simp only [List.nil_append, List.head?_cons, Option.bind_some, closes, apart]
        exact .here [] e
    | cons t ts =>
      simp only [List.cons_append, List.head?_cons, Option.bind_some, List.tail_cons]
      split
      · exact .here (t :: ts) e
      · next join joined =>
        have onward : Confined b 1 (do chain level operand n (join e (← operand)) : Reader Expr)
            (do chain level operand' n' (join e (← operand')) : Reader Expr) :=
          inside.andThen fun right => (ih inside room room').mono (by omega) (Nat.le_refl 0)
        exact (onward ts us us' wall.tail (Nat.lt_of_succ_lt_succ short)).succ (Nat.zero_le _)

theorem confined_leftAssoc {level : Connective} (apart : level (.symbol .closeBrace) = none)
    (confined : Confined bound 1 operand operand') :
    Confined bound 1 (leftAssoc level operand) (leftAssoc level operand') := by
  refine confined.andThen fun e => .bounded fun b n n' le enough enough' => ?_
  exact confined_chain apart (confined.mono (by omega) (Nat.le_refl 1)) enough enough'

theorem levels_apart : ∀ level ∈ levels, level (.symbol .closeBrace) = none := by
  simp [levels]

theorem confined_operation (confined : Confined bound 1 whole whole') :
    Confined (bound + 1) 1 (operation whole) (operation whole') := by
  unfold operation
  have apart := levels_apart
  generalize levels = ls at apart
  induction ls with
  | nil => exact confined_prefixed (confined_suffixed confined)
  | cons level ls ih =>
    exact confined_leftAssoc (apart level List.mem_cons_self)
      (ih fun level mem => apart level (List.mem_cons_of_mem _ mem))

/-- An equals sign behind a target is none of the wall, so both complain about the same one. -/
theorem confined_assignment (confined : Confined bound 1 operand operand') (enough : bound ≤ n)
    (enough' : bound ≤ n') : Confined bound 1 (assignment operand n) (assignment operand' n') := by
  induction bound generalizing n n' with
  | zero => exact .of_bound_zero
  | succ b ih =>
    obtain ⟨n, rfl, room⟩ := exists_round enough
    obtain ⟨n', rfl, room'⟩ := exists_round enough'
    intro ts us us' wall short
    simp only [assignment_succ]
    refine (confined ts us us' wall short).andThen fun target front behind fewer => ?_
    have wall := wall.suffix behind
    simp (disch := decide) only [wall.heads_iff, wall.flip.heads_iff]
    split
    · next heads =>
      obtain ⟨t, front, rfl, -⟩ := heads
      simp only [List.cons_append, List.tail_cons]
      simp only [List.length_cons] at fewer
      have shorter : front <:+ ts := (List.suffix_cons t front).trans behind
      have value : Reading.Alike ts us us' 1 _ _ :=
        (ih (confined.mono (Nat.le_succ b) (Nat.le_refl 1)) room room' front us us' wall.tail
          (by omega)).widen shorter (by omega)
      refine value.andThen ?_
      intro value rest behind fewer
      split
      · exact .done _ behind fewer
      · exact .refused (.mk _ behind)
    · exact .done target behind fewer

theorem confined_expressionAt (enough : bound ≤ n) (enough' : bound ≤ n') :
    Confined bound 1 (expressionAt n) (expressionAt n') := by
  -- what stands in brackets is shorter by the bracket, and nested one level less deep
  induction bound generalizing n n' with
  | zero => exact .of_bound_zero
  | succ b ih =>
    obtain ⟨n, rfl, room⟩ := exists_round enough
    obtain ⟨n', rfl, room'⟩ := exists_round enough'
    refine .bounded fun c m m' le enough_c enough_c' => ?_
    exact confined_assignment ((confined_operation (ih room room')).mono le (Nat.le_refl 1)) enough_c
      enough_c'

theorem confined_expression : Confined bound 1 expression expression :=
  .bounded fun _ _ _ _ enough enough' => confined_expressionAt enough enough'

/-! ## Declarations without statements -/

variable {visibility : Option Visibility} {isStatic : Bool}

theorem confined_varDecl :
    Confined bound 1 (varDecl visibility isStatic) (varDecl visibility isStatic) := by
  refine (Confined.typeCode _).andThen fun code => ((Confined.name _).andThen fun ident => ?_).zero
  exact .acceptThen (by decide) (confined_expression.map.mono (Nat.le_refl _) (Nat.zero_le 1)) (.pure _)

theorem confined_parameter : Confined bound 1 parameter parameter :=
  (Confined.typeCode _).andThen fun _ => (Confined.name _).map.zero

theorem confined_signature : Confined bound 1 signature signature := by
  refine (Confined.typeCode _).andThen fun code => ((Confined.name _).andThen fun ident => ?_).zero
  refine ((Confined.expect (by decide) _).andThen fun _ => ?_).zero
  exact (confined_parameter.commaList (by decide) _).map.zero

theorem confined_modifiers :
    Confined bound 0 (modifiers visibility isStatic) (modifiers visibility isStatic) := by
  intro ts us us' wall short
  induction ts generalizing visibility isStatic with
  | nil =>
    cases wall with
    | ending => exact .here [] _
    | brace closes _ =>
      simp only [List.nil_append, modifiers, closes]
      exact .here [] _
  | cons t ts ih =>
    have short : ts.length < bound := Nat.lt_of_succ_lt short
    simp only [List.cons_append]
    unfold modifiers
    split
    · exact (ih wall.tail short).succ (Nat.zero_le _)
    · exact (ih wall.tail short).succ (Nat.zero_le _)
    · exact (ih wall.tail short).succ (Nat.zero_le _)
    · exact .here (t :: ts) _

theorem confined_ancestors : Confined bound 0 ancestors ancestors := by
  refine .acceptThen (by decide) ?_ (.pure _)
  refine ((Confined.name _).andThen fun superclass => ?_).zero
  refine .acceptThen (by decide) ?_ (.pure _)
  have names : Confined (bound - 1 - 1 - 1) 1 (bounded (commaItems (name "Expect interface name")))
      (bounded (commaItems (name "Expect interface name"))) :=
    .bounded fun _ _ _ _ enough enough' => (Confined.name _).commaItems enough enough'
  exact names.map.zero

theorem confined_interfaceMembers (enough : bound ≤ n) (enough' : bound ≤ n') :
    Confined bound 0 (interfaceMembers n) (interfaceMembers n') := by
  induction bound generalizing n n' with
  | zero => exact .of_bound_zero
  | succ b ih =>
    obtain ⟨n, rfl, room⟩ := exists_round enough
    obtain ⟨n', rfl, room'⟩ := exists_round enough'
    intro ts us us' wall short
    simp (disch := decide) only [interfaceMembers_succ, wall.closed_iff, wall.flip.closed_iff,
      wall.heads_iff, wall.flip.heads_iff]
    split
    · exact .here _ _
    · split
      · next heads =>
        refine alike_tail heads wall short (confined_signature.andThen ?_).zero
        rintro ⟨returnType, method, parameters⟩
        exact ((ih room room').mono (Nat.sub_le b 1) (Nat.le_refl 0)).map
      · exact .refuse _ _

theorem confined_interfaceDecl : Confined bound 1 interfaceDecl interfaceDecl := by
  refine (Confined.name _).andThen fun interface => (Confined.behindBrace ?_ _).zero
  exact (Confined.bounded fun _ _ _ _ enough enough' =>
    confined_interfaceMembers enough enough').braced

theorem confined_giveBack : Confined bound 0 giveBack giveBack := by
  intro ts us us' wall short
  simp only [giveBack_eq, wall.heads_closeBrace_iff]
  split
  · exact .here _ _
  · exact confined_expression.optional.map ts us us' wall short

end Reader

end Monogram
