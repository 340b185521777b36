import Monogram.Proofs.Reading.Soundness

/-! # Reading an expression comes to an end

No bound that the readers of expressions are given is too small: each round of a repetition takes a
token, and what stands in brackets is read after the opening bracket has been taken.

* `Reader.settles_expression` — an expression is read or refused, and takes a token.
-/

namespace Monogram

variable {α : Type}

namespace Reader

open Grammar (Heads)

variable {whole operand : Reader Expr} {bound : Nat}

/-! ## Expressions -/

theorem settles_mapEntry (settles : Settles bound 1 whole) : Settles bound 1 (mapEntry whole) := by
  refine settles.andThen fun key => ?_
  refine ((Settles.expect _ _).andThen fun _ => ?_).zero
  exact (settles.mono (by omega) (Nat.zero_le 1)).map

theorem settles_construction (settles : Settles bound 1 whole) :
    Settles bound 1 (construction whole) := by
  refine (Settles.name _).andThen fun className tokens short => ?_
  have args : Settles (bound - 1) 0 (arguments whole) :=
    ((settles.commaList _ _).mono (Nat.sub_le bound 1) (Nat.zero_le 1))
  refine Settles.acceptThen (by omega) ?_ (.pure _) tokens short
  exact (args.mono (Nat.sub_le _ 1) (Nat.le_refl 0)).map

theorem settles_grouped (settles : Settles bound 1 whole) : Settles bound 1 (grouped whole) := by
  refine settles.andThen fun inner => ?_
  exact ((Settles.expect _ _).andThen fun _ => .pure _).zero

theorem settles_primary (settles : Settles bound 1 whole) :
    Settles (bound + 1) 1 (primary whole) := by
  intro tokens short
  cases tokens with
  | nil => exact Nat.le_refl 0
  | cons t tokens =>
    simp only [List.length_cons] at short
    have short : tokens.length < bound := by omega
    rw [primary_cons]
    split
    · cases t.number? <;> simp [Reading.Within]
    · simp [Reading.Within]
    · exact (settles_construction settles tokens short).succ (by omega)
    · simp [Reading.Within]
    · simp [Reading.Within]
    · exact ((settles.commaList _ _).map tokens short).succ (by omega)
    · exact (((settles_mapEntry settles).commaList _ _).map tokens short).succ (by omega)
    · exact (settles_grouped settles tokens short).succ (by omega)
    · simp [Reading.Within]

/-- Behind a token of the kind that was looked for. -/
theorem within_tail {tokens : List Token} {kind : Token.Kind} {reader : Reader α}
    (heads : Heads kind tokens) (short : tokens.length < bound + 1)
    (settles : Settles bound 0 reader) : (reader tokens.tail).Within tokens.length 0 := by
  obtain ⟨t, tokens, rfl, -⟩ := heads
  simp only [List.length_cons] at short
  exact (settles tokens (by omega)).succ (by omega)

theorem settles_suffixes (settles : Settles bound 1 whole) (n : Nat) (e : Expr) :
    Settles (min n (bound + 1)) 0 (suffixes whole n e) := by
  induction n generalizing e with
  | zero =>
    intro tokens short
    omega
  | succ n ih =>
    intro tokens short
    have short : tokens.length < min n bound + 1 := by omega
    have onward (e : Expr) : Settles (min n bound - 1) 0 (suffixes whole n e) :=
      (ih e).mono (by omega) (Nat.le_refl 0)
    have inside : Settles (min n bound) 1 whole := settles.mono (by omega) (Nat.le_refl 1)
    rw [suffixes_succ]
    split
    · next heads =>
      have call : Settles (min n bound) 1 (do suffixes whole n (.call e (← arguments whole)) : Reader Expr) :=
        (inside.commaList _ _).andThen fun args => onward _
      exact within_tail heads short call.zero
    · split
      · next heads =>
        exact within_tail heads short ((Settles.name _).andThen fun member => onward _).zero
      · split
        · next heads =>
          refine within_tail heads short (inside.andThen fun index => ?_).zero
          refine ((Settles.expect _ _).andThen fun _ => ?_).zero
          exact (onward _).mono (Nat.sub_le _ 1) (Nat.le_refl 0)
        · simp [Reading.Within]

theorem settles_suffixed (settles : Settles bound 1 whole) :
    Settles (bound + 1) 1 (suffixed whole) := by
  refine (settles_primary settles).andThen fun e => .bounded fun n => ?_
  exact (settles_suffixes settles n e).mono (by omega) (Nat.le_refl 0)

theorem settles_prefixed (settles : Settles bound 1 operand) :
    Settles bound 1 (prefixed operand) := by
  intro tokens short
  induction tokens with
  | nil => exact settles [] short
  | cons t tokens ih =>
    simp only [List.length_cons] at short
    unfold prefixed
    split
    · refine ((ih (by omega)).succ (Nat.le_succ 1)).andThen fun e rest left => ?_
      simp only [Reading.Within]
      omega
    · exact settles (t :: tokens) short

theorem settles_chain (level : Connective) (settles : Settles bound 1 operand) (n : Nat) (e : Expr) :
    Settles (min n bound) 0 (chain level operand n e) := by
  induction n generalizing e with
  | zero =>
    intro tokens short
    omega
  | succ n ih =>
    intro tokens short
    rw [chain_succ]
    split
    · simp [Reading.Within]
    · next join joined =>
      obtain ⟨t, head, -⟩ := Option.bind_eq_some_iff.1 joined
      obtain ⟨tokens, rfl⟩ := List.head?_eq_some_iff.1 head
      simp only [List.length_cons] at short
      have inside : Settles (min n bound) 1 operand := settles.mono (by omega) (Nat.le_refl 1)
      have onward : Settles (min n bound) 1
          (do chain level operand n (join e (← operand)) : Reader Expr) :=
        inside.andThen fun right => (ih _).mono (by omega) (Nat.le_refl 0)
      exact (onward tokens (by omega)).succ (by omega)

theorem settles_leftAssoc (level : Connective) (settles : Settles bound 1 operand) :
    Settles bound 1 (leftAssoc level operand) := by
  refine settles.andThen fun e => .bounded fun n => ?_
  exact (settles_chain level settles n e).mono (by omega) (Nat.le_refl 0)

theorem settles_operation (settles : Settles bound 1 whole) :
    Settles (bound + 1) 1 (operation whole) := by
  unfold operation
  generalize levels = ls
  induction ls with
  | nil => exact settles_prefixed (settles_suffixed settles)
  | cons level ls ih => exact settles_leftAssoc level ih

theorem settles_assignment (settles : Settles bound 1 operand) (n : Nat) :
    Settles (min n bound) 1 (assignment operand n) := by
  induction n with
  | zero =>
    intro tokens short
    omega
  | succ n ih =>
    intro tokens short
    rw [assignment_succ]
    refine (settles tokens (by omega)).andThen fun target mid left => ?_
    split
    · next heads =>
      obtain ⟨t, mid, rfl, -⟩ := heads
      simp only [List.length_cons] at left
      have value : (assignment operand n mid).Within tokens.length 1 :=
        (ih mid (by omega)).weaken (by omega) (by omega)
      refine value.andThen fun value rest left => ?_
      split <;> simp only [Reading.Within] <;> omega
    · exact left

theorem settles_expressionAt (depth : Nat) : Settles depth 1 (expressionAt depth) := by
  induction depth with
  | zero =>
    intro tokens short
    omega
  | succ depth ih => exact .bounded fun n => settles_assignment (settles_operation ih) n

theorem settles_expression : Settles bound 1 expression :=
  .bounded fun depth => (settles_expressionAt depth).mono (Nat.min_le_left depth bound) (Nat.le_refl 1)

end Reader

end Monogram
