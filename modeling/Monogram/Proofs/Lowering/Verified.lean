import Monogram.Proofs.Lowering.Counts

/-! # Lowered code is labelled

* `Shaped.agrees` — the labels of shaped code agree along every way.
* `filled_of_labels` — labels that agree and are the counts of a straight pass fill the room of the code.
* `Body.code_callable`, `Program.Lowered.main` — the code of bodies and programs is labelled.
-/

namespace Monogram

/-! ## Labels of parts -/

/-- The labels stand at an address and behind it. -/
def Covers (label : Nat → Label) (a : Nat) (labels : List Label) : Prop :=
  ∀ k l, labels[k]? = some l → label (a + k) = l

theorem label_at {label : Nat → Label} {x y : Nat} {l : Label} (h : label x = l) (same : y = x) :
    label y = l := same ▸ h

/-- The labels agree around each of the instructions that stand at an address and behind it. -/
def AgreesOn (label : Nat → Label) (size a : Nat) (code : List Instruction) : Prop :=
  ∀ k i, code[k]? = some i → Agrees label size (a + k) i

namespace Covers

variable {label : Nat → Label} {a : Nat} {l : Label} {first second : List Label}

theorem left (h : Covers label a (first ++ second)) : Covers label a first := by
  intro k l found
  have inside : k < first.length := (List.getElem?_eq_some_iff.1 found).1
  exact h k l ((List.getElem?_append_left inside).trans found)

theorem right (h : Covers label a (first ++ second)) {b : Nat} (start : a + first.length = b) :
    Covers label b second := by
  intro k l found
  rw [← start, Nat.add_assoc]
  refine h (first.length + k) l ?_
  rw [List.getElem?_append_right (Nat.le_add_right _ _), Nat.add_sub_cancel_left]
  exact found

theorem head (h : Covers label a (l :: second)) : label a = l := h 0 l rfl

theorem tail (h : Covers label a (l :: second)) : Covers label (a + 1) second := by
  have split : Covers label a ([l] ++ second) := h
  exact split.right rfl

end Covers

namespace AgreesOn

variable {label : Nat → Label} {size a : Nat} {i : Instruction} {first second : List Instruction}

theorem nil : AgreesOn label size a [] := by
  intro k i found
  cases found

theorem cons (here : Agrees label size a i) (behind : AgreesOn label size (a + 1) second) :
    AgreesOn label size a (i :: second) := by
  intro k j found
  cases k with
  | zero =>
    cases found
    exact here
  | succ k =>
    have later := behind k j found
    rwa [Nat.add_assoc, Nat.add_comm 1 k] at later

theorem append (front : AgreesOn label size a first) {b : Nat} (start : a + first.length = b)
    (behind : AgreesOn label size b second) : AgreesOn label size a (first ++ second) := by
  intro k i found
  by_cases inside : k < first.length
  · rw [List.getElem?_append_left inside] at found
    exact front k i found
  · rw [List.getElem?_append_right (Nat.le_of_not_lt inside)] at found
    have later := behind _ i found
    have same : b + (k - first.length) = a + k := by omega
    rwa [same] at later

end AgreesOn

/-! ## Straight code -/

@[simp] theorem straightLabels_length (handlers : List Nat) (d : Nat) (code : List Instruction) :
    (straightLabels handlers d code).length = code.length := by
  induction code generalizing d with
  | nil => rfl
  | cons i rest ih => simp [straightLabels, ih]

namespace Straight

variable {handlers : List Nat} {label : Nat → Label} {d d' : Nat} {code : List Instruction}

theorem start (straight : Straight d code d') {a : Nat}
    (covers : Covers label a (straightLabels handlers d code))
    (stop : label (a + code.length) = ⟨d', handlers⟩) : label a = ⟨d, handlers⟩ := by
  cases straight with
  | nil => exact stop
  | plain => exact covers.head
  | call => exact covers.head

theorem agrees (straight : Straight d code d') {size a : Nat}
    (covers : Covers label a (straightLabels handlers d code))
    (stop : label (a + code.length) = ⟨d', handlers⟩) : AgreesOn label size a code := by
  -- Each label is that of an instruction of the code, or stands behind its end.
  induction straight generalizing a with
  | nil => exact .nil
  | @plain d d' i rest plain enough others ih =>
    have behind : label (a + 1 + rest.length) = ⟨d', handlers⟩ := by
      rw [← stop, List.length_cons, Nat.add_assoc, Nat.add_comm 1]
    have here : label a = ⟨d, handlers⟩ := covers.head
    have next : label (a + 1) = ⟨d - i.pops + 1, handlers⟩ := others.start covers.tail behind
    refine .cons ⟨by rw [here]; exact enough, ?_⟩ (ih covers.tail behind)
    have goes : label (a + 1) = (label a).after i := by
      rw [next, here, Label.after, Instruction.pushes_of_isPlain plain]
    cases i <;> first | exact goes | cases plain
  | @call d d' rest method argc enough others ih =>
    have behind : label (a + 1 + rest.length) = ⟨d', handlers⟩ := by
      rw [← stop, List.length_cons, Nat.add_assoc, Nat.add_comm 1]
    have here : label a = ⟨d, handlers⟩ := covers.head
    refine .cons ⟨by rw [here]; exact enough, ?_⟩ (ih covers.tail behind)
    change label (a + 1) = (label a).after _
    rw [others.start covers.tail behind, here]
    rfl

/-- A condition, the choice by it, and what is chosen when it holds. -/
theorem agrees_choosing (straight : Straight 0 code 1) {size a target : Nat}
    {yes : List Instruction} (covers : Covers label a (straightLabels handlers 0 code))
    (choice : label (a + code.length) = ⟨1, handlers⟩)
    (holds : label (a + code.length + 1) = ⟨0, handlers⟩) (fails : label target = ⟨0, handlers⟩)
    (inside : target ≤ size) (chosen : AgreesOn label size (a + code.length + 1) yes) :
    AgreesOn label size a (code ++ .jumpIfFalse target :: yes) := by
  refine (straight.agrees covers choice).append rfl (.cons ⟨?_, ?_, ?_, inside⟩ chosen)
  · rw [choice]
    exact Nat.le_refl 1
  · rw [choice]
    exact holds
  · rw [choice]
    exact fails

end Straight

/-! ## Shaped code -/

theorem Agrees.jump {label : Nat → Label} {size a target : Nat} {l : Label} (here : label a = l)
    (there : label target = l) (inside : target ≤ size) : Agrees label size a (.jump target) :=
  ⟨Nat.zero_le _, there.trans here.symm, inside⟩

namespace Shaped

variable {handlers : List Nat} {label : Nat → Label} {a : Nat} {code : List Instruction}
  {labels : List Label}

theorem length_eq (shaped : Shaped handlers a code labels) : labels.length = code.length := by
  induction shaped <;> simp_all

theorem start (shaped : Shaped handlers a code labels) (covers : Covers label a labels)
    (stop : label (a + code.length) = ⟨0, handlers⟩) : label a = ⟨0, handlers⟩ := by
  induction shaped with
  | nil => exact stop
  | append first second ihFirst ihSecond =>
    refine ihFirst covers.left (ihSecond (covers.right (by rw [first.length_eq])) ?_)
    rw [← stop, List.length_append, Nat.add_assoc]
  | drop handlers a straight | giveBack handlers a straight =>
    exact straight.start covers.left (covers.right (by simp)).head
  | branch straight body => exact straight.start covers.left (covers.right (by simp)).head
  | choice straight first second =>
    exact straight.start covers.left.left (covers.left.right (by simp)).head
  | loop straight round =>
    exact straight.start covers.left.left (covers.left.right (by simp)).head
  | tryHandle first second => exact covers.left.left.head

/-- The labels of shaped code agree, if they do where the code ends. -/
theorem agrees (shaped : Shaped handlers a code labels) {size : Nat} (covers : Covers label a labels)
    (stop : label (a + code.length) = ⟨0, handlers⟩) (inside : a + code.length ≤ size) :
    AgreesOn label size a code := by
  -- The labels of the parts are put together as the parts are; a jump leads from the end of one part to
  -- the start or the end of another, where there are no operands.
  induction shaped with
  | nil => exact .nil
  | @append handlers a c c' l l' first second ihFirst ihSecond =>
    rw [List.length_append, ← Nat.add_assoc] at stop inside
    have behind : Covers label (a + c.length) l' := covers.right (by rw [first.length_eq])
    have middle := second.start behind stop
    exact (ihFirst covers.left middle (by omega)).append rfl (ihSecond behind stop inside)
  | @drop handlers a value straight =>
    have last : label (a + value.length) = ⟨1, handlers⟩ := (covers.right (by simp)).head
    refine (straight.agrees covers.left last).append rfl (.cons ⟨?_, ?_⟩ .nil)
    · rw [last]
      exact Nat.le_refl 1
    · change label (a + value.length + 1) = (label (a + value.length)).after _
      rw [last]
      exact label_at stop (by simp; omega)
  | @giveBack handlers a value straight =>
    have last : label (a + value.length) = ⟨1, handlers⟩ := (covers.right (by simp)).head
    refine (straight.agrees covers.left last).append rfl (.cons ⟨?_, ?_⟩ .nil)
    · rw [last]
      exact Nat.le_refl 1
    · exact congrArg Label.depth last
  | @branch handlers a test yes l straight body ih =>
    simp only [List.length_append, List.length_cons] at stop inside
    have last : label (a + test.length) = ⟨1, handlers⟩ := (covers.right (by simp)).head
    have covers' : Covers label (a + test.length + 1) l := (covers.right (by simp)).tail
    have stop' : label (a + test.length + 1 + yes.length) = ⟨0, handlers⟩ :=
      label_at stop (by omega)
    exact straight.agrees_choosing covers.left last (body.start covers' stop') stop' (by omega)
      (ih covers' stop' (by omega))
  | @choice handlers a test yes no l l' straight first second ihFirst ihSecond =>
    simp only [List.length_append, List.length_cons] at stop inside
    have test_end : label (a + test.length) = ⟨1, handlers⟩ :=
      (covers.left.right (by simp)).head
    have yesCovers : Covers label (a + test.length + 1) l :=
      (covers.left.right (by simp)).tail
    have jump : Covers label (a + test.length + 1 + yes.length) (⟨0, handlers⟩ :: l') :=
      covers.right (by simp [first.length_eq]; omega)
    have noStop : label (a + test.length + 1 + yes.length + 1 + no.length) = ⟨0, handlers⟩ :=
      label_at stop (by omega)
    have noStart := second.start jump.tail noStop
    have front := straight.agrees_choosing covers.left.left test_end
      (first.start yesCovers jump.head) noStart (by omega) (ihFirst yesCovers jump.head (by omega))
    exact front.append (by simp; omega) (.cons (.jump jump.head noStop (by omega))
      (ihSecond jump.tail noStop (by omega)))
  | @loop handlers a test body l straight round ih =>
    simp only [List.length_append, List.length_cons, List.length_nil] at stop inside
    have test_end : label (a + test.length) = ⟨1, handlers⟩ :=
      (covers.left.right (by simp)).head
    have bodyCovers : Covers label (a + test.length + 1) l := (covers.left.right (by simp)).tail
    have jump : label (a + test.length + 1 + body.length) = ⟨0, handlers⟩ :=
      (covers.right (by simp [round.length_eq]; omega)).head
    have loopStop : label (a + test.length + 1 + body.length + 1) = ⟨0, handlers⟩ :=
      label_at stop (by omega)
    have loopStart := straight.start covers.left.left test_end
    have front := straight.agrees_choosing covers.left.left test_end
      (round.start bodyCovers jump) loopStop (by omega) (ih bodyCovers jump (by omega))
    exact front.append (by simp; omega) (.cons (.jump jump loopStart (by omega)) .nil)
  | @tryHandle handlers a slot body handler l l' first second ihFirst ihSecond =>
    simp only [List.length_append, List.length_cons, List.length_nil] at stop inside
    have opening : label a = ⟨0, handlers⟩ := covers.left.left.head
    have bodyCovers : Covers label (a + 1) l := covers.left.left.tail
    have rest : Covers label (a + 1 + body.length)
        [⟨0, (a + 1 + body.length + 2) :: handlers⟩, ⟨0, handlers⟩, ⟨1, handlers⟩, ⟨1, handlers⟩] :=
      covers.left.right (by simp [first.length_eq]; omega)
    have handlerCovers : Covers label (a + 1 + body.length + 2 + 2) l' :=
      covers.right (by simp [first.length_eq]; omega)
    have handlerStop : label (a + 1 + body.length + 2 + 2 + handler.length) = ⟨0, handlers⟩ :=
      label_at stop (by omega)
    have handlerStart := second.start handlerCovers handlerStop
    -- The body has one handler more than what is around it; the entry of the handler has one operand.
    have block : AgreesOn label size a (.openHandler (a + 1 + body.length + 2) :: body) := by
      refine .cons ⟨Nat.zero_le _, ?_, ?_, ?_, ?_⟩ (ihFirst bodyCovers rest.head (by omega))
      · rw [opening]
      · rw [opening]
        exact first.start bodyCovers rest.head
      · rw [opening]
        exact rest.tail.tail.head
      · omega
    have middle : AgreesOn label size (a + 1 + body.length)
        [.closeHandler, .jump (a + 1 + body.length + 2 + 2 + handler.length), .storeSlot slot,
          .pop] := by
      refine .cons ⟨Nat.zero_le _, _, _, by rw [rest.head], ?_⟩ (.cons ⟨Nat.zero_le _, ?_, ?_⟩
        (.cons ⟨?_, ?_⟩ (.cons ⟨?_, ?_⟩ .nil)))
      · rw [rest.head]
        exact rest.tail.head
      · rw [rest.tail.head]
        exact handlerStop
      · omega
      · rw [rest.tail.tail.head]
        exact Nat.le_refl 1
      · change _ = (label _).after _
        rw [rest.tail.tail.head]
        exact rest.tail.tail.tail.head
      · rw [rest.tail.tail.tail.head]
        exact Nat.le_refl 1
      · change _ = (label _).after _
        rw [rest.tail.tail.tail.head]
        exact handlerStart
    exact (block.append (by simp; omega) middle).append (by simp; omega)
      (ihSecond handlerCovers handlerStop (by omega))

end Shaped

/-! ## Whole code -/

theorem le_foldl_max {counts : List Nat} {d : Nat} (first : Nat) (member : d ∈ counts) :
    d ≤ counts.foldl max first := by
  induction counts generalizing first with
  | nil => cases member
  | cons c rest ih =>
    rcases List.mem_cons.1 member with rfl | member
    · have grows : ∀ (counts : List Nat) (first : Nat), first ≤ counts.foldl max first := by
        intro counts
        induction counts with
        | nil => exact fun first => Nat.le_refl first
        | cons c rest ih => exact fun first => Nat.le_trans (Nat.le_max_left first c) (ih _)
      exact Nat.le_trans (Nat.le_max_right first d) (grows rest _)
    · exact ih _ member

/-- The label of each address, from the labels of the code before its end. -/
def labelling (labels : List Label) (address : Nat) : Label := (labels[address]?).getD ⟨0, []⟩

theorem labelling_covers (labels : List Label) : Covers (labelling labels) 0 labels := by
  intro k l found
  rw [Nat.zero_add, labelling, found]
  rfl

theorem labelling_stop (labels : List Label) {address : Nat} (beyond : labels.length ≤ address) :
    labelling labels address = ⟨0, []⟩ := by
  rw [labelling, List.getElem?_eq_none beyond]
  rfl

theorem labelling_depth_mem (labels : List Label) (address : Nat) :
    (labelling labels address).depth ∈ labels.map Label.depth ++ [0] := by
  rw [labelling]
  cases found : labels[address]? with
  | some l =>
    exact List.mem_append_left _ (List.mem_map.2 ⟨l, List.mem_of_getElem? found, rfl⟩)
  | none => exact List.mem_append_right _ (List.mem_singleton.2 rfl)

/-- The greatest of the counts is one of them, unless the first is. -/
theorem foldl_max_mem (counts : List Nat) (first : Nat) : counts.foldl max first ∈ first :: counts := by
  induction counts generalizing first with
  | nil => exact List.mem_singleton.2 rfl
  | cons c rest ih =>
    rw [List.foldl_cons]
    rcases List.mem_cons.1 (ih (max first c)) with same | member
    · rw [same]
      rcases Nat.le_total first c with less | less
      · rw [Nat.max_eq_right less]
        exact List.mem_cons_of_mem _ (List.mem_cons_self ..)
      · rw [Nat.max_eq_left less]
        exact List.mem_cons_self ..
    · exact List.mem_cons_of_mem _ (List.mem_cons_of_mem _ member)

/-- Each of the depths is the depth at some address. -/
theorem labelling_of_depth_mem {labels : List Label} (start : labelling labels 0 = ⟨0, []⟩) {d : Nat}
    (member : d ∈ 0 :: (labels.map Label.depth ++ [0])) :
    ∃ address ≤ labels.length, (labelling labels address).depth = d := by
  have zero : ∃ address ≤ labels.length, (labelling labels address).depth = 0 :=
    ⟨0, Nat.zero_le _, congrArg Label.depth start⟩
  rcases List.mem_cons.1 member with rfl | member
  · exact zero
  rcases List.mem_append.1 member with member | member
  · obtain ⟨l, known, rfl⟩ := List.mem_map.1 member
    obtain ⟨address, inside, found⟩ := List.mem_iff_getElem.1 known
    refine ⟨address, Nat.le_of_lt inside, ?_⟩
    rw [labelling, List.getElem?_eq_getElem inside, found]
    rfl
  · rw [List.mem_singleton.1 member]
    exact zero

/-- Code is labelled by labels that agree and are the counts of a straight pass. -/
theorem filled_of_labels {code : List Instruction} {labels : List Label}
    (length : labels.length = code.length)
    (counts : operandCounts code = labels.map Label.depth ++ [0])
    (start : labelling labels 0 = ⟨0, []⟩)
    (agrees : AgreesOn (labelling labels) code.length 0 code) :
    (Code.ofInstructions code).Filled := by
  have size : (Code.ofInstructions code).size = code.length := by
    simp [Code.size, Code.ofInstructions]
  refine ⟨labelling labels, ⟨start, ?_, fun address _ => ?_, fun address i found => ?_⟩, ?_⟩
  · rw [size]
    exact labelling_stop labels (by omega)
  · have known := labelling_depth_mem labels address
    rw [← counts] at known
    exact le_foldl_max 0 known
  · have around := agrees address i (by simpa [Code.ofInstructions] using found)
    rwa [Nat.zero_add, ← size] at around
  -- The greatest count is the depth at some address, so the room is no larger than it has to be.
  · have greatest := foldl_max_mem (operandCounts code) 0
    rw [counts] at greatest
    obtain ⟨address, inside, depth⟩ := labelling_of_depth_mem start greatest
    refine ⟨address, by omega, ?_⟩
    rw [depth, ← counts]
    rfl

namespace Shaped

variable {code : List Instruction} {labels : List Label}

/-- Shaped code without handlers around it is labelled. -/
theorem filled (shaped : Shaped [] 0 code labels) : (Code.ofInstructions code).Filled := by
  have length := shaped.length_eq
  have covers := labelling_covers labels
  have stop : labelling labels (0 + code.length) = ⟨0, []⟩ := labelling_stop labels (by omega)
  refine filled_of_labels length ?_ (shaped.start covers stop)
    (shaped.agrees covers stop (Nat.le_of_eq (Nat.zero_add _)))
  have counts := shaped.counts (fun t _ _ => .rfl : Owns (handlerStarts code) 0 code)
  exact counts.operandCounts_eq (shaped.not_start _ (.inr (by omega)))

/-- Shaped code without handlers around it is labelled when a halt stands behind it. -/
theorem filled_halt (shaped : Shaped [] 0 code labels) :
    (Code.ofInstructions (code ++ [.halt])).Filled := by
  have length := shaped.length_eq
  have covers := labelling_covers (labels ++ [⟨0, []⟩])
  have last : labelling (labels ++ [⟨0, []⟩]) (0 + code.length) = ⟨0, []⟩ :=
    (covers.right (by rw [length])).head
  have starts : handlerStarts (code ++ [.halt]) = handlerStarts code := by
    rw [handlerStarts_append]
    exact List.append_nil _
  have behind (t : Nat) (above : code.length ≤ t) : t ∉ handlerStarts (code ++ [.halt]) := by
    rw [starts]
    exact shaped.not_start t (.inr (by omega))
  refine filled_of_labels (by simp [length]) ?_ (shaped.start covers.left last)
    ((shaped.agrees covers.left last (by simp)).append rfl (.cons ⟨Nat.zero_le _, ?_, ?_⟩ .nil))
  · have own : Owns (handlerStarts (code ++ [.halt])) 0 code := fun t _ _ => by rw [starts]
    have counts : CountsDepths (handlerStarts (code ++ [.halt])) 0 0 (code ++ [.halt])
        (labels ++ [⟨0, []⟩]) 0 :=
      (shaped.counts own).append rfl (.cons (behind _ (by omega)) rfl .nil)
    exact counts.operandCounts_eq (behind _ (by simp))
  · exact congrArg Label.depth last
  · exact congrArg Label.handlers last

/-- Only the end of a program has a halt. -/
theorem no_halt {handlers : List Nat} {a : Nat} (shaped : Shaped handlers a code labels) :
    .halt ∉ code := by
  have straight : ∀ {d d' : Nat} {code : List Instruction}, Straight d code d' → .halt ∉ code := by
    intro d d' code straight
    -- A plain instruction is no halt, and neither is a call.
    induction straight with
    | nil => exact List.not_mem_nil
    | plain plain enough others ih =>
      intro member
      rcases List.mem_cons.1 member with rfl | member
      · cases plain
      · exact ih member
    | call method argc enough others ih =>
      intro member
      rcases List.mem_cons.1 member with same | member
      · cases same
      · exact ih member
  induction shaped with
  | nil => exact List.not_mem_nil
  | append first second ihFirst ihSecond => simp [ihFirst, ihSecond]
  | drop handlers a value | giveBack handlers a value => simp [straight value]
  | branch test body ih => simp [straight test, ih]
  | choice test first second ihFirst ihSecond => simp [straight test, ihFirst, ihSecond]
  | loop test round ih => simp [straight test, ih]
  | tryHandle first second ihFirst ihSecond => simp [ihFirst, ihSecond]

end Shaped

/-- Code that a call may start: labelled, and without a halt. -/
def Code.Callable (c : Code) : Prop := c.Verified ∧ .halt ∉ c.instructions

theorem Shaped.callable {code : List Instruction} {labels : List Label}
    (shaped : Shaped [] 0 code labels) : (Code.ofInstructions code).Callable :=
  ⟨shaped.filled.verified, by simpa [Code.ofInstructions] using shaped.no_halt⟩

/-! ## Lowered code -/

/-- The code of a body that can be lowered is shaped. -/
theorem Body.code_shaped {b : Body} (lowers : b.Lowers) :
    ∃ code labels, b.code = Code.ofInstructions code ∧ Shaped [] 0 code labels := by
  obtain ⟨code, lowered⟩ := lowers
  rw [Body.code_of_lower lowered]
  cases b with
  | method names statements =>
    obtain ⟨⟨body, names'⟩, first, lowered⟩ := Except.bind_eq_ok lowered
    cases lowered
    obtain ⟨l, shaped⟩ := lowerBlock_shaped [] statements first
    unfold methodInstructions
    split
    · exact ⟨_, l, rfl, shaped⟩
    · have returns : Straight 0 [.push .nil] 1 := .plain rfl (Nat.zero_le _) (.nil _)
      exact ⟨_, _, rfl, shaped.append (.giveBack [] _ returns)⟩
  | statics names id fields =>
    obtain ⟨l, shaped⟩ := lowerStaticInit_shaped names id 0 fields lowered
    exact ⟨_, l, rfl, shaped⟩

/-- The code of a body that can be lowered may be called. -/
theorem Body.code_callable {b : Body} (lowers : b.Lowers) : b.code.Callable := by
  obtain ⟨code, labels, same, shaped⟩ := Body.code_shaped lowers
  exact same ▸ shaped.callable

/-- The code of a body that can be lowered uses its room. -/
theorem Body.code_filled {b : Body} (lowers : b.Lowers) : b.code.Filled := by
  obtain ⟨code, labels, same, shaped⟩ := Body.code_shaped lowers
  exact same ▸ shaped.filled

theorem lowerTop_shaped : ∀ (statements : List Stmt) {classes : Table ClassImage} {a : Nat}
    {names names' : Names} {top : TopCode},
    lowerTop statements classes a names = .ok (top, names') → ∃ l, Shaped [] a top.code l
  | [], _, a, _, _, _, h => by
    cases h
    exact ⟨_, .nil [] a⟩
  | s :: rest, classes, a, names, names', top, h => by
    cases s with
    | classDecl d =>
      simp only [lowerTop] at h
      cases kind : d.isInterface with
      | true =>
        rw [kind, if_pos rfl] at h
        exact lowerTop_shaped rest h
      | false =>
        rw [kind, if_neg Bool.false_ne_true] at h
        obtain ⟨⟨image, names₁⟩, -, h⟩ := Except.bind_eq_ok h
        exact lowerTop_shaped rest h
    | _ =>
      obtain ⟨⟨code, names₁⟩, first, h⟩ := Except.bind_eq_ok h
      obtain ⟨⟨others, names₂⟩, second, h⟩ := Except.bind_eq_ok h
      cases h
      obtain ⟨l, shaped⟩ := Stmt.lower_shaped [] _ first
      obtain ⟨l', behind⟩ := lowerTop_shaped rest second
      exact ⟨_, shaped.append behind⟩

/-- The code of a class that comes from a tree is as the code of bodies is. -/
theorem ClassImage.all_code {P : Code → Prop} (holds : ∀ {b : Body}, b.Lowers → P b.code)
    {tree : ClassImage Body} (lowers : tree.All Body.Lowers) : (tree.mapBodies Body.code).All P := by
  refine ⟨fun m member => ?_, fun m member => ?_, holds lowers.staticInit⟩
  · simp only [ClassImage.mapBodies, Table.values_map, List.mem_map] at member
    obtain ⟨t, known, rfl⟩ := member
    exact holds (lowers.methods t known)
  · simp only [ClassImage.mapBodies, Table.values_map, List.mem_map] at member
    obtain ⟨t, known, rfl⟩ := member
    exact holds (lowers.staticMethods t known)

/-- The class comes from a tree. -/
def ClassImage.Sourced (c : ClassImage) : Prop :=
  ∃ tree : ClassImage Body, tree.mapBodies Body.code = c ∧ tree.All Body.Lowers

theorem ClassImage.Sourced.all_code {P : Code → Prop} {c : ClassImage} (sourced : c.Sourced)
    (holds : ∀ {b : Body}, b.Lowers → P b.code) : c.All P := by
  obtain ⟨tree, rfl, lowers⟩ := sourced
  exact ClassImage.all_code holds lowers

theorem ClassImage.Sourced.callable {c : ClassImage} (sourced : c.Sourced) : c.All Code.Callable :=
  sourced.all_code Body.code_callable

theorem World.All.callable {w : World} (sourced : w.All ClassImage.Sourced) :
    w.All (ClassImage.All Code.Callable) :=
  ⟨fun c member => (sourced.classes c member).callable,
    fun o member => (sourced.objects o member).callable⟩

/-! ## Lowered programs -/

/-- The program is what some statements become, under whatever names are known. -/
def Program.Lowered (p : Program) : Prop :=
  ∃ names statements names', Names.lowerProgram names statements = .ok (p, names')

namespace Program.Lowered

variable {p : Program}

theorem main_shaped (lowered : p.Lowered) :
    ∃ code labels, p.main = Code.ofInstructions (code ++ [.halt]) ∧ Shaped [] 0 code labels := by
  obtain ⟨names, statements, names', h⟩ := lowered
  obtain ⟨⟨top, names₁⟩, first, h⟩ := Except.bind_eq_ok h
  cases h
  obtain ⟨l, shaped⟩ := lowerTop_shaped statements first
  exact ⟨_, l, rfl, shaped⟩

theorem main (lowered : p.Lowered) : p.main.Verified := by
  obtain ⟨code, labels, same, shaped⟩ := lowered.main_shaped
  exact same ▸ shaped.filled_halt.verified

theorem classes (lowered : p.Lowered) : ∀ c ∈ p.classes.values, c.Sourced := by
  obtain ⟨names, statements, names', h⟩ := lowered
  obtain ⟨⟨top, names₁⟩, first, h⟩ := Except.bind_eq_ok h
  cases h
  obtain ⟨images, lower⟩ := lowerTop_classes statements .empty first
  intro c member
  simp only [images, Table.values_map, List.mem_map] at member
  obtain ⟨tree, known, rfl⟩ := member
  exact ⟨tree, rfl, lower tree known⟩

end Program.Lowered

end Monogram
