import Monogram.Proofs.Lowering.Shape

/-! # Operands that a straight pass counts

The room of code comes from one pass over it from its start to its end, whatever jumps there are.  The
pass sets its count back where a handler starts, and of handlers it knows the addresses alone.  Over
shaped code it counts the operands of the labels.

* `CountsDepths` — a pass counts in a part of code what labels say, whatever stands behind the part.
* `Owns` — the handlers that start between the start and the end of a part are its own.
* `Straight.counts`, `Shaped.counts` — the counts are the depths of the labels.
-/

namespace Monogram

/-- A pass that comes to the code with `d` operands counts the depths of the labels, and goes on
behind it with `d'` operands. -/
def CountsDepths (starts : List Nat) (a d : Nat) (code : List Instruction) (labels : List Label)
    (d' : Nat) : Prop :=
  ∀ rest, operandCountsFrom starts a d (code ++ rest)
    = labels.map Label.depth ++ operandCountsFrom starts (a + code.length) d' rest

/-- From the start of the code to its end, the handlers that start are those of the code. -/
def Owns (starts : List Nat) (a : Nat) (code : List Instruction) : Prop :=
  ∀ t, a ≤ t → t ≤ a + code.length → (t ∈ starts ↔ t ∈ handlerStarts code)

section Parts

variable {starts : List Nat} {a b d d' d'' : Nat} {i : Instruction} {code code' : List Instruction}
  {labels labels' : List Label}

/-! ## CountsDepths of parts -/

namespace CountsDepths

theorem nil : CountsDepths starts a d [] [] d := fun _ => rfl

theorem cons (absent : a ∉ starts) {handlers : List Nat} (goes : (↑d + i.effect).toNat = d')
    (behind : CountsDepths starts (a + 1) d' code labels d'') :
    CountsDepths starts a d (i :: code) (⟨d, handlers⟩ :: labels) d'' := by
  intro rest
  have first : operandCountsFrom starts a d (i :: (code ++ rest))
      = d :: operandCountsFrom starts (a + 1) d' (code ++ rest) := by
    simp [operandCountsFrom, absent, goes]
  rw [List.cons_append, first, behind, List.length_cons, Nat.add_assoc, Nat.add_comm 1]
  rfl

/-- Where a handler starts there is one more operand, the raised value. -/
theorem cons_start (present : a ∈ starts) {handlers : List Nat}
    (goes : (↑(d + 1) + i.effect).toNat = d')
    (behind : CountsDepths starts (a + 1) d' code labels d'') :
    CountsDepths starts a d (i :: code) (⟨d + 1, handlers⟩ :: labels) d'' := by
  intro rest
  have first : operandCountsFrom starts a d (i :: (code ++ rest))
      = (d + 1) :: operandCountsFrom starts (a + 1) d' (code ++ rest) := by
    simpa [operandCountsFrom, present] using congrArg (operandCountsFrom starts (a + 1) · _) goes
  rw [List.cons_append, first, behind, List.length_cons, Nat.add_assoc, Nat.add_comm 1]
  rfl

theorem append (first : CountsDepths starts a d code labels d') (start : a + code.length = b)
    (second : CountsDepths starts b d' code' labels' d'') :
    CountsDepths starts a d (code ++ code') (labels ++ labels') d'' := by
  intro rest
  rw [List.append_assoc, first, start, second, List.map_append, List.append_assoc, List.length_append,
    ← start, Nat.add_assoc]

/-- A pass over whole code ends with what is there behind the last instruction. -/
theorem operandCounts_eq (counts : CountsDepths (handlerStarts code) 0 0 code labels d)
    (absent : code.length ∉ handlerStarts code) :
    operandCounts code = labels.map Label.depth ++ [d] := by
  have whole := counts []
  rw [List.append_nil, Nat.zero_add] at whole
  rw [operandCounts, whole]
  simp [operandCountsFrom, absent]

end CountsDepths

/-! ## Handlers of parts -/

@[simp] theorem handlerStarts_nil : handlerStarts [] = [] := rfl

@[simp] theorem handlerStarts_cons (i : Instruction) (rest : List Instruction) :
    handlerStarts (i :: rest) = i.handler?.toList ++ handlerStarts rest := by
  cases i <;> rfl

@[simp] theorem handlerStarts_append (first second : List Instruction) :
    handlerStarts (first ++ second) = handlerStarts first ++ handlerStarts second :=
  List.filterMap_append

theorem Owns.absent (own : Owns starts a code) {t : Nat} (above : a ≤ t) (below : t ≤ a + code.length)
    (other : t ∉ handlerStarts code) : t ∉ starts :=
  mt (own t above below).1 other

/-- A part owns its handlers where none of the other parts starts one. -/
theorem Owns.part (own : Owns starts a code) (above : a ≤ b)
    (below : b + code'.length ≤ a + code.length)
    (same : ∀ t, b ≤ t → t ≤ b + code'.length → (t ∈ handlerStarts code ↔ t ∈ handlerStarts code')) :
    Owns starts b code' := fun t above' below' =>
  (own t (Nat.le_trans above above') (Nat.le_trans below' below)).trans (same t above' below')

end Parts

/-! ## Straight code -/

namespace Straight

variable {d d' : Nat} {code : List Instruction}

theorem handlerStarts_eq (straight : Straight d code d') : handlerStarts code = [] := by
  induction straight with
  | nil => rfl
  | @plain d d' i rest plain enough others ih =>
    have none : i.handler? = none := by cases i <;> first | rfl | cases plain
    simp [none, ih]
  | call method argc enough others ih => exact ih

theorem handlerStarts_choosing (straight : Straight d code d') (target : Nat)
    (yes : List Instruction) :
    handlerStarts (code ++ .jumpIfFalse target :: yes) = handlerStarts yes := by
  rw [handlerStarts_append, straight.handlerStarts_eq]
  rfl

/-- What an instruction that leaves one operand makes of their count. -/
theorem count_one {i : Instruction} (enough : i.pops ≤ d) (one : i.pushes = 1) :
    (↑d + i.effect).toNat = d - i.pops + 1 := by
  rw [Instruction.effect_eq, one]
  omega

theorem counts (straight : Straight d code d') (handlers : List Nat) {starts : List Nat} {a : Nat}
    (absent : ∀ t, a ≤ t → t < a + code.length → t ∉ starts) :
    CountsDepths starts a d code (straightLabels handlers d code) d' := by
  induction straight generalizing a with
  | nil => exact .nil
  | @plain d d' i rest plain enough others ih =>
    rw [List.length_cons] at absent
    exact .cons (absent a (Nat.le_refl a) (by omega))
      (count_one enough (Instruction.pushes_of_isPlain plain))
      (ih fun t above below => absent t (by omega) (by omega))
  | @call d d' rest method argc enough others ih =>
    rw [List.length_cons] at absent
    exact .cons (absent a (Nat.le_refl a) (by omega)) (count_one enough rfl)
      (ih fun t above below => absent t (by omega) (by omega))

theorem counts_choosing (straight : Straight 0 code 1) (handlers : List Nat) {starts : List Nat}
    {a target : Nat} {yes : List Instruction} {labels : List Label}
    (absent : ∀ t, a ≤ t → t ≤ a + code.length → t ∉ starts)
    (chosen : CountsDepths starts (a + code.length + 1) 0 yes labels 0) :
    CountsDepths starts a 0 (code ++ .jumpIfFalse target :: yes)
      (straightLabels handlers 0 code ++ ⟨1, handlers⟩ :: labels) 0 :=
  (straight.counts handlers fun t above below => absent t above (Nat.le_of_lt below)).append rfl
    (.cons (absent _ (Nat.le_add_right a _) (Nat.le_refl _)) rfl chosen)

end Straight

/-! ## Shaped code -/

namespace Shaped

variable {handlers : List Nat} {a : Nat} {code : List Instruction} {labels : List Label}

/-- Handlers start inside of the code, neither where it starts nor where it ends. -/
theorem starts_inside (shaped : Shaped handlers a code labels) :
    ∀ t ∈ handlerStarts code, a < t ∧ t < a + code.length := by
  induction shaped with
  | nil => exact fun t => nofun
  | append first second ihFirst ihSecond =>
    intro t member
    rw [List.length_append]
    rcases List.mem_append.1 (handlerStarts_append _ _ ▸ member) with member | member
    · have inside := ihFirst t member
      omega
    · have inside := ihSecond t member
      omega
  | drop handlers a straight | giveBack handlers a straight =>
    simp [straight.handlerStarts_eq, Instruction.handler?]
  | branch straight body ih =>
    intro t member
    have inside := ih t (by simpa [straight.handlerStarts_eq, Instruction.handler?] using member)
    simp only [List.length_append, List.length_cons]
    omega
  | @choice handlers a test yes no l l' straight first second ihFirst ihSecond =>
    intro t member
    have member : t ∈ handlerStarts yes ∨ t ∈ handlerStarts no := by
      simpa [straight.handlerStarts_eq, Instruction.handler?] using member
    simp only [List.length_append, List.length_cons]
    rcases member with member | member
    · have inside := ihFirst t member
      omega
    · have inside := ihSecond t member
      omega
  | loop straight round ih =>
    intro t member
    have inside := ih t (by simpa [straight.handlerStarts_eq, Instruction.handler?] using member)
    simp only [List.length_append, List.length_cons]
    omega
  | @tryHandle handlers a slot body handler l l' first second ihFirst ihSecond =>
    intro t member
    have member : t = a + 1 + body.length + 2 ∨ t ∈ handlerStarts body
        ∨ t ∈ handlerStarts handler := by simpa [Instruction.handler?] using member
    simp only [List.length_append, List.length_cons]
    rcases member with rfl | member | member
    · omega
    · have inside := ihFirst t member
      omega
    · have inside := ihSecond t member
      omega

theorem not_start (shaped : Shaped handlers a code labels) (t : Nat)
    (outside : t ≤ a ∨ a + code.length ≤ t) : t ∉ handlerStarts code := fun member => by
  have inside := shaped.starts_inside t member
  omega

/-- A pass over shaped code counts the depths of its labels, where no handler of other code starts. -/
theorem counts (shaped : Shaped handlers a code labels) {starts : List Nat}
    (own : Owns starts a code) : CountsDepths starts a 0 code labels 0 := by
  -- The pass knows only that a handler starts somewhere, so each part is told from the others by the
  -- addresses at which its own handlers start.
  induction shaped with
  | nil => exact .nil
  | @append handlers a c c' l l' first second ihFirst ihSecond =>
    have front : Owns starts a c := own.part (by omega) (by simp) fun t above below => by
      simp [second.not_start t (.inl below)]
    have back : Owns starts (a + c.length) c' :=
      own.part (by omega) (by simp; omega) fun t above below => by
        simp [first.not_start t (.inr above)]
    exact (ihFirst front).append rfl (ihSecond back)
  | @drop handlers a value straight | @giveBack handlers a value straight =>
    have absent (t : Nat) (above : a ≤ t) (below : t ≤ a + value.length) : t ∉ starts :=
      own.absent above (by simp; omega) (by simp [straight.handlerStarts_eq, Instruction.handler?])
    exact (straight.counts handlers fun t above below => absent t above (by omega)).append rfl
      (.cons (absent _ (by omega) (by omega)) rfl .nil)
  | @branch handlers a test yes l straight body ih =>
    have starts_eq := straight.handlerStarts_choosing (a + test.length + 1 + yes.length) yes
    have absent (t : Nat) (above : a ≤ t) (below : t ≤ a + test.length) : t ∉ starts :=
      own.absent above (by simp; omega) (starts_eq ▸ body.not_start _ (.inl (by omega)))
    have chosen : Owns starts (a + test.length + 1) yes :=
      own.part (by omega) (by simp; omega) fun t _ _ => by rw [starts_eq]
    exact straight.counts_choosing handlers absent (ih chosen)
  | @choice handlers a test yes no l l' straight first second ihFirst ihSecond =>
    have absent (t : Nat) (above : a ≤ t) (below : t ≤ a + test.length + 1 + yes.length)
        (between : t ≤ a + test.length ∨ a + test.length + 1 + yes.length ≤ t) : t ∉ starts := by
      refine own.absent above (by simp; omega) ?_
      simp [straight.handlerStarts_choosing, Instruction.handler?,
        first.not_start t (between.imp_left (by omega)), second.not_start t (.inl (by omega))]
    have yes_own : Owns starts (a + test.length + 1) yes :=
      own.part (by omega) (by simp; omega) fun t above below => by
        simp [straight.handlerStarts_choosing, Instruction.handler?,
          second.not_start t (.inl (by omega))]
    have no_own : Owns starts (a + test.length + 1 + yes.length + 1) no :=
      own.part (by omega) (by simp; omega) fun t above below => by
        simp [straight.handlerStarts_choosing, Instruction.handler?,
          first.not_start t (.inr (by omega))]
    have testing (t : Nat) (above : a ≤ t) (below : t ≤ a + test.length) : t ∉ starts :=
      absent t above (by omega) (.inl below)
    have jumping := absent (a + test.length + 1 + yes.length) (by omega) (Nat.le_refl _)
      (.inr (Nat.le_refl _))
    exact (straight.counts_choosing handlers testing (ihFirst yes_own)).append (by simp; omega)
      (.cons jumping rfl (ihSecond no_own))
  | @loop handlers a test body l straight round ih =>
    have absent (t : Nat) (above : a ≤ t) (below : t ≤ a + test.length + 1 + body.length)
        (between : t ≤ a + test.length ∨ a + test.length + 1 + body.length ≤ t) : t ∉ starts := by
      refine own.absent above (by simp; omega) ?_
      simp [straight.handlerStarts_choosing, Instruction.handler?,
        round.not_start t (between.imp_left (by omega))]
    have body_own : Owns starts (a + test.length + 1) body :=
      own.part (by omega) (by simp; omega) fun t above below => by
        simp [straight.handlerStarts_choosing, Instruction.handler?]
    have testing (t : Nat) (above : a ≤ t) (below : t ≤ a + test.length) : t ∉ starts :=
      absent t above (by omega) (.inl below)
    have jumping := absent (a + test.length + 1 + body.length) (by omega) (Nat.le_refl _)
      (.inr (Nat.le_refl _))
    exact (straight.counts_choosing handlers testing (ih body_own)).append (by simp; omega)
      (.cons jumping rfl .nil)
  | @tryHandle handlers a slot body handler l l' first second ihFirst ihSecond =>
    let entry := a + 1 + body.length + 2
    have starts_eq : handlerStarts (.openHandler entry :: body
        ++ [.closeHandler, .jump (entry + 2 + handler.length), .storeSlot slot, .pop] ++ handler)
        = entry :: (handlerStarts body ++ handlerStarts handler) := by
      simp [Instruction.handler?]
    have body_own : Owns starts (a + 1) body :=
      own.part (by omega) (by simp; omega) fun t above below => by
        rw [starts_eq]
        simp [second.not_start t (.inl (by omega)), show t ≠ entry by omega]
    have handler_own : Owns starts (entry + 2) handler :=
      own.part (by omega) (by simp; omega) fun t above below => by
        rw [starts_eq]
        simp [first.not_start t (.inr (by omega)), show t ≠ entry by omega]
    -- Between the parts a handler starts at the entry and nowhere else.
    have absent (t : Nat) (above : a ≤ t) (below : t ≤ entry + 1)
        (between : t ≤ a ∨ a + 1 + body.length ≤ t) (other : t ≠ entry) : t ∉ starts := by
      refine own.absent above (by simp; omega) ?_
      rw [starts_eq]
      simp [first.not_start t (between.imp_left (by omega)), second.not_start t (.inl (by omega)),
        other]
    have present : entry ∈ starts :=
      (own entry (by omega) (by simp; omega)).2 (starts_eq ▸ List.mem_cons_self)
    have opening := absent a (Nat.le_refl a) (by omega) (.inl (Nat.le_refl a)) (by omega)
    have closing := absent (entry - 2) (by omega) (by omega) (.inr (by omega)) (by omega)
    have jumping := absent (entry - 1) (by omega) (by omega) (.inr (by omega)) (by omega)
    have dropping := absent (entry + 1) (by omega) (by omega) (.inr (by omega)) (by omega)
    have block : CountsDepths starts a 0 (.openHandler entry :: body) (⟨0, handlers⟩ :: l) 0 :=
      .cons opening rfl (ihFirst body_own)
    have middle : CountsDepths starts (a + 1 + body.length) 0
        [.closeHandler, .jump (entry + 2 + handler.length), .storeSlot slot, .pop]
        [⟨0, entry :: handlers⟩, ⟨0, handlers⟩, ⟨1, handlers⟩, ⟨1, handlers⟩] 0 :=
      .cons closing rfl (.cons jumping rfl (.cons_start present rfl (.cons dropping rfl .nil)))
    exact (block.append (by simp; omega) middle).append (by simp; omega) (ihSecond handler_own)

end Shaped

end Monogram
