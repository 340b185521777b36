import Monogram.Proofs.Reading.Grammar

/-! # What readers do

What the readers of single tokens accept, and two properties that are closed under putting readers
together: a reader settles when no bound inside it is too small and it takes as many tokens as it
should, and it reads a grammar when the tokens that it takes are derived by it.

* `Reader.Settles` — never exhausted, with at least so many tokens taken.
* `Reader.Reads` — sound for a grammar.
-/

namespace Monogram

open Grammar (Heads Separated Listed Bracketed)

variable {α γ : Type}

theorem heads_cons {kind : Token.Kind} {t : Token} {rest : List Token} :
    Heads kind (t :: rest) ↔ t.kind = kind := by
  simp [Heads]

instance {kind : Token.Kind} : (ts : List Token) → Decidable (Heads kind ts)
  | [] => isFalse (by simp [Heads])
  | _ :: _ => decidable_of_iff _ heads_cons.symm

theorem Reading.andThen_eq_done {r : Reading α} {next : α → List Token → Reading γ} {v : γ}
    {rest : List Token} :
    r.andThen next = .done v rest ↔ ∃ a mid, r = .done a mid ∧ next a mid = .done v rest := by
  cases r <;> simp [Reading.andThen, and_assoc]

namespace Reader

variable {tokens rest : List Token} {t : Token} {kind : Token.Kind} {s : Symbol} {what : String}

/-! ## Single tokens -/

theorem bind_eq_done {reader : Reader α} {next : α → Reader γ} {v : γ} :
    (reader >>= next) tokens = .done v rest
      ↔ ∃ a mid, reader tokens = .done a mid ∧ next a mid = .done v rest :=
  Reading.andThen_eq_done

theorem pure_eq_done {a v : α} : (pure a : Reader α) tokens = .done v rest ↔ a = v ∧ tokens = rest := by
  simp

theorem expectToken_eq_done :
    expectToken kind what tokens = .done t rest ↔ tokens = t :: rest ∧ t.kind = kind := by
  cases tokens with
  | nil => simp [expectToken]
  | cons first others =>
    by_cases same : first.kind = kind
    · simp [expectToken, same]
      grind
    · simp [expectToken, same]
      grind

theorem expect_eq_done {u : Unit} :
    expect s what tokens = .done u rest ↔ ∃ t, tokens = t :: rest ∧ t.kind = .symbol s := by
  unfold expect
  rw [bind_eq_done]
  simp [expectToken_eq_done]

theorem name_eq_done {v : String} :
    name what tokens = .done v rest ↔ ∃ t, tokens = t :: rest ∧ t.isName ∧ t.lexeme = v := by
  cases tokens with
  | nil => simp [name]
  | cons first others =>
    by_cases named : first.isName
    · simp [name, named]
      grind
    · simp [name, named]

theorem accept_of_kind (same : t.kind = kind) : accept kind (t :: rest) = .done true rest := by
  simp [accept, same]

theorem accept_of_not_heads (other : ¬ Heads kind tokens) :
    accept kind tokens = .done false tokens := by
  cases tokens with
  | nil => rfl
  | cons first others =>
    rw [heads_cons] at other
    simp [accept, other]

theorem check_of_heads (same : Heads kind tokens) : check kind tokens = .done true tokens := by
  obtain ⟨t, rest, rfl, rfl⟩ := same
  simp [check]

theorem check_of_not_heads (other : ¬ Heads kind tokens) :
    check kind tokens = .done false tokens := by
  cases tokens with
  | nil => rfl
  | cons first others =>
    rw [heads_cons] at other
    simp [check, other]

/-- A choice by the next token, which is taken when it has the kind. -/
theorem acceptThen_eq {yes no : Reader α} :
    (do if ← accept kind then yes else no : Reader α) tokens
      = if Heads kind tokens then yes tokens.tail else no tokens := by
  split
  · next same =>
    obtain ⟨t, rest, rfl, same⟩ := same
    simp [accept_of_kind same, Reading.andThen]
  · next other => simp [accept_of_not_heads other, Reading.andThen]

theorem commaList_eq {item : Reader α} {close : Symbol} :
    commaList item close what tokens
      = ((if Heads (.symbol close) tokens then pure [] else bounded (commaItems item)) >>= fun items =>
          expect close what >>= fun _ => pure items : Reader (List α)) tokens := by
  unfold commaList
  split
  · next same => simp [check_of_heads same, Reading.andThen]
  · next other => simp [check_of_not_heads other, Reading.andThen]

end Reader

/-! ## Readers that settle -/

/-- Not exhausted, with at most so many tokens left of `available` that `taken` have been taken. -/
def Reading.Within (available taken : Nat) : Reading α → Prop
  | .done _ rest => rest.length + taken ≤ available
  | .refused r => r.rest.length ≤ available
  | .exhausted => False

theorem Reading.Within.weaken {available available' taken taken' : Nat} {r : Reading α}
    (within : r.Within available taken) (more : available ≤ available')
    (less : available + taken' ≤ available' + taken) : r.Within available' taken' := by
  cases r with
  | done v rest =>
    simp only [Reading.Within] at within ⊢
    omega
  | refused r =>
    simp only [Reading.Within] at within ⊢
    omega
  | exhausted => exact within

/-- A token in front of what has been read. -/
theorem Reading.Within.succ {available taken taken' : Nat} {r : Reading α}
    (within : r.Within available taken) (less : taken' ≤ taken + 1) :
    r.Within (available + 1) taken' :=
  within.weaken (Nat.le_succ available) (by omega)

theorem Reading.Within.andThen {available taken taken' : Nat} {r : Reading α}
    {next : α → List Token → Reading γ} (within : r.Within available taken)
    (later : ∀ a mid, mid.length + taken ≤ available → (next a mid).Within available taken') :
    (r.andThen next).Within available taken' := by
  cases r with
  | done a mid => exact later a mid within
  | refused r => exact within
  | exhausted => exact within

namespace Reader

/-- Not exhausted by less than `bound` tokens, of which it takes at least `taken`. -/
def Settles (bound taken : Nat) (reader : Reader α) : Prop :=
  ∀ tokens, tokens.length < bound → (reader tokens).Within tokens.length taken

namespace Settles

variable {bound bound' taken taken' : Nat} {reader : Reader α}

theorem mono (settles : Settles bound taken reader) (fewer : bound' ≤ bound)
    (less : taken' ≤ taken) : Settles bound' taken' reader := by
  intro tokens short
  exact (settles tokens (by omega)).weaken (Nat.le_refl _) (by omega)

protected theorem pure (a : α) : Settles bound 0 (pure a : Reader α) := by
  intro tokens _
  simp [Reading.Within]

protected theorem bind {next : α → Reader γ} (settles : Settles bound taken reader)
    (then_settles : ∀ a, Settles (bound - taken) taken' (next a)) :
    Settles bound (taken + taken') (reader >>= next) := by
  intro tokens short
  refine (settles tokens short).andThen fun a mid left => ?_
  exact (then_settles a mid (by omega)).weaken (by omega) (by omega)

theorem zero (settles : Settles bound taken reader) : Settles bound 0 reader :=
  settles.mono (Nat.le_refl bound) (Nat.zero_le taken)

/-- What is read first takes the tokens. -/
theorem andThen {next : α → Reader γ} (settles : Settles bound taken reader)
    (then_settles : ∀ a, Settles (bound - taken) 0 (next a)) :
    Settles bound taken (reader >>= next) :=
  settles.bind then_settles

theorem map {f : α → γ} (settles : Settles bound taken reader) :
    Settles bound taken (do return f (← reader) : Reader γ) :=
  settles.bind fun _ => .pure _

theorem refuse (what : String) : Settles bound taken (refuse what : Reader α) := by
  intro tokens _
  simp [Reader.refuse, Reading.Within]

theorem expectToken (kind : Token.Kind) (what : String) : Settles bound 1 (expectToken kind what) := by
  intro tokens _
  unfold Reader.expectToken
  split
  · split <;> simp [Reading.Within]
  · simp [Reading.Within]

theorem expect (s : Symbol) (what : String) : Settles bound 1 (expect s what) :=
  (expectToken (.symbol s) what).map

theorem name (what : String) : Settles bound 1 (name what) := by
  intro tokens _
  unfold Reader.name
  split
  · split <;> simp [Reading.Within]
  · simp [Reading.Within]

theorem acceptThen {kind : Token.Kind} {yes no : Reader α} (one : 1 ≤ bound)
    (yes_settles : Settles (bound - 1) (taken - 1) yes) (no_settles : Settles bound taken no) :
    Settles bound taken (do if ← accept kind then yes else no : Reader α) := by
  intro tokens short
  rw [acceptThen_eq]
  split
  · next heads =>
    obtain ⟨t, rest, rfl, -⟩ := heads
    simp only [List.length_cons] at short
    exact (yes_settles rest (by omega)).succ (by omega)
  · exact no_settles tokens short

/-- A repetition settles when each bound is enough for the lists that are shorter than it. -/
theorem bounded {repetition : Nat → Reader α}
    (settles : ∀ n, Settles (min n bound) taken (repetition n)) :
    Settles bound taken (bounded repetition) := by
  intro tokens short
  exact settles (tokens.length + 1) tokens (by omega)

theorem commaItems (item : Settles bound 1 reader) (n : Nat) :
    Settles (min n bound) 1 (commaItems reader n) := by
  induction n with
  | zero =>
    intro tokens short
    omega
  | succ n ih =>
    refine (item.mono (by omega) (Nat.le_refl 1)).andThen fun first => ?_
    by_cases one : 1 ≤ min (n + 1) bound - 1
    · refine acceptThen one ?_ (.pure _)
      exact (ih.map).mono (by omega) (by omega)
    · intro tokens short
      omega

theorem commaList (item : Settles bound 1 reader) (close : Symbol) (what : String) :
    Settles bound 1 (commaList reader close what) := by
  intro tokens short
  rw [commaList_eq]
  have inside : Settles bound 0 (if Heads (.symbol close) tokens then pure []
      else Reader.bounded (Reader.commaItems reader)) := by
    split
    · exact .pure []
    · exact bounded fun n => (commaItems item n).mono (Nat.le_refl _) (Nat.zero_le _)
  exact inside.bind (fun items => (expect close what).bind fun _ => .pure items) tokens short

end Settles

/-! ## Readers that read a grammar -/

/-- Whatever is done is a derivation of the tokens that were taken. -/
def Reads (reader : Reader α) (derives : List Token → α → List Token → Prop) : Prop :=
  ∀ ⦃tokens v rest⦄, reader tokens = .done v rest →
    ∃ front, tokens = front ++ rest ∧ derives front v rest

theorem reads_commaItems {reader : Reader α} {item : List Token → α → Prop}
    (reads : Reads reader fun ts a _ => item ts a) (n : Nat) :
    Reads (commaItems reader n) fun ts as _ => Separated item ts as := by
  induction n with
  | zero => nofun
  | succ n ih =>
    intro tokens v rest read
    obtain ⟨first, mid, taken, later⟩ := bind_eq_done.1 read
    obtain ⟨ts, rfl, derives⟩ := reads taken
    rw [acceptThen_eq] at later
    split at later
    · next heads =>
      obtain ⟨comma, mid, rfl, kind⟩ := heads
      obtain ⟨others, rest', taken, final⟩ := bind_eq_done.1 later
      obtain ⟨rfl, rfl⟩ := pure_eq_done.1 final
      obtain ⟨us, rfl, separated⟩ := ih taken
      exact ⟨ts ++ comma :: us, by simp, .more derives kind separated⟩
    · obtain ⟨rfl, rfl⟩ := pure_eq_done.1 later
      exact ⟨ts, rfl, .last derives⟩

theorem reads_commaList {reader : Reader α} {item : List Token → α → Prop}
    (reads : Reads reader fun ts a _ => item ts a) (close : Symbol) (what : String) :
    Reads (commaList reader close what) fun ts as _ =>
      ∃ inner last, ts = inner ++ [last] ∧ last.kind = .symbol close ∧ Listed item inner as := by
  intro tokens as rest read
  rw [commaList_eq] at read
  obtain ⟨items, mid, taken, later⟩ := bind_eq_done.1 read
  obtain ⟨u, mid', closed, final⟩ := bind_eq_done.1 later
  obtain ⟨rfl, rfl⟩ := pure_eq_done.1 final
  obtain ⟨last, rfl, kind⟩ := expect_eq_done.1 closed
  split at taken
  · obtain ⟨rfl, rfl⟩ := pure_eq_done.1 taken
    exact ⟨[last], rfl, [], last, rfl, kind, .none⟩
  · obtain ⟨ts, rfl, separated⟩ := reads_commaItems reads _ taken
    exact ⟨ts ++ [last], by simp, ts, last, rfl, kind, .some separated⟩

end Reader

end Monogram
