import Monogram.Proofs.Machine.Relocation
import Monogram.Proofs.Machine.Rest

/-! # The halt of a program

Only the statements of a program have a halt, at their end and outside of every handler.  So a run that
comes to one has run all static initializers, and no frame is left but that of the statements.

* `Program.Halts` — a run that comes to a halt.
* `Halted`, `Rested.halted` — what it is there, and how it has come there.
* `Halted.comes` — what it ends in.
-/

namespace Monogram

open Monogram.Action

/-! ## Up to the halt -/

/-- The frames that start before the statements of a program do. -/
def Program.initializers (p : Program) : List Frame :=
  (p.classes.values.filter fun image => image.staticInit.size ≠ 0).map
    fun image => .start image.staticInit .staticInit none

theorem Program.pieces_eq (p : Program) : p.pieces = p.initializers ++ [.start p.main .main none] := rfl

/-- The run of the program comes to a halt. -/
def Program.Halts (p : Program) (first : Machine) : Prop :=
  ∃ later m history, Passes p.pieces (first.loading p) later m history ∧ m.event = .halts

/-- The static initializers lead from one machine to the next, on which the statements start.  So many
cycles later they come to their halt. -/
structure Halted (p : Program) (first m₀ : Machine) (k : Nat) (m : Machine) (address : Nat) : Prop where
  limits : m₀.limits = first.limits
  initialized : Comes p.initializers (first.loading p) (.ok true m₀)
  idle : m₀.frames = []
  room : m₀.frames.length < m₀.limits.maxDepth
  steps : Steps k (entered m₀ (.start p.main .main none)) m
  frames : m.frames = [⟨p.main, address, none, [], .main⟩]
  here : p.main.instructions[address]? = some .halt

/-- All frames end. -/
def Event.isHalt : Event → Bool
  | .halts => true
  | _ => false

theorem Program.Halts.of_after {p : Program} {first : Machine} {n : Nat}
    (halts : ((Passes.after p.pieces (first.loading p) n).any fun progress =>
      progress.2.1.event.isHalt) = true) : p.Halts first := by
  obtain ⟨⟨later, m, history⟩, reached, halts⟩ := (Option.any_eq_true _ _).1 halts
  refine ⟨later, m, history, Passes.of_after reached, ?_⟩
  cases event : m.event with
  | halts => rfl
  | _ =>
    simp only [event] at halts
    cases halts

theorem Event.ofCall_ne_halts (method : String) (receiver : Value) : ofCall method receiver ≠ .halts := by
  intro halts
  cases receiver with
  | system =>
    simp only [ofCall] at halts
    split at halts <;> cases halts
  | _ => cases halts

theorem Event.halt_of_halts {operands : List Value} {i : Instruction}
    (event : ofInstruction operands i = .halts) : i = .halt := by
  cases i with
  | halt => rfl
  | raise =>
    cases top : operands.head? <;> simp [ofInstruction, top] at event
  | storeName name =>
    cases top : operands.head? <;> simp only [ofInstruction, top] at event <;> split at event <;>
      cases event
  | call method argc =>
    cases receiver : operands[argc]? with
    | none => simp [ofInstruction, receiver] at event
    | some v =>
      simp only [ofInstruction, receiver] at event
      exact absurd event (ofCall_ne_halts method v)
  | _ => cases event

theorem Machine.halt_of_event {m : Machine} (event : m.event = .halts) :
    ∃ frame below, m.frames = frame :: below ∧ frame.code.instructions[frame.next]? = some .halt := by
  unfold Machine.event at event
  cases running : m.frames with
  | nil =>
    rw [running] at event
    cases event
  | cons frame below =>
    refine ⟨frame, below, rfl, ?_⟩
    simp only [running] at event
    cases here : frame.code.instructions[frame.next]? with
    | none =>
      rw [here] at event
      cases event
    | some i =>
      rw [here] at event
      exact congrArg some (Event.halt_of_halts event)

theorem Program.Lowered.initializers_proper {p : Program} (lowered : p.Lowered) :
    ∀ piece ∈ p.initializers, .halt ∉ piece.code.instructions := by
  intro piece member
  obtain ⟨image, among, rfl⟩ := List.mem_map.1 member
  exact (lowered.classes image (List.mem_of_mem_filter among)).callable.staticInit.2

/-- A piece behind which others follow is a static initializer. -/
theorem Program.pieces_cases {p : Program} {front later : List Frame} {piece : Frame}
    (split : p.pieces = front ++ piece :: later) :
    piece ∈ p.initializers ∨ front = p.initializers ∧ piece = .start p.main .main none := by
  rw [pieces_eq] at split
  rcases List.eq_nil_or_concat later with rfl | ⟨others, last, rfl⟩
  · obtain ⟨same, main⟩ := List.append_inj' split rfl
    exact .inr ⟨same.symm, (List.singleton_inj.1 main).symm⟩
  · rw [List.concat_eq_append, ← List.cons_append, ← List.append_assoc] at split
    obtain ⟨same, -⟩ := List.append_inj' split rfl
    exact .inl (same ▸ List.mem_append_right _ (List.mem_cons_self ..))

theorem Pending.handlers_eq_nil {code : Code} {label : Nat → Label} {below : List Frame}
    {base : List Value} {handlers : List Handler} {tries : List Machine}
    (pending : Pending code label below base handlers [] tries) : handlers = [] := by
  cases pending
  rfl

theorem Passes.limits {pieces later : List Frame} {first m : Machine} {history : List Activation}
    (h : Passes pieces first later m history) : m.limits = first.limits := by
  induction h with
  | start => rfl
  | enter before idle pushed ih =>
    rw [pushFrame_apply] at pushed
    split at pushed <;> cases pushed
    exact ih
  | cycle before cycled ih => exact (Keeping.of_cycle cycled).limits.trans ih

/-- A run that comes to a halt comes to that of its statements, and nothing else is under way. -/
theorem Rested.halted {first : Machine} {p : Program} (rested : Rested first) (lowered : p.Lowered)
    (halts : p.Halts first) : ∃ m₀ k m address, Halted p first m₀ k m address := by
  obtain ⟨later, m, history, passes, event⟩ := halts
  have loaded := rested.loading lowered
  have sound := (passes.sound loaded lowered.pieces_startable).1
  obtain ⟨⟨code, next, this, handlers, kind⟩, below, running, here⟩ := m.halt_of_event event
  have layout := sound.layout
  rw [running] at layout
  obtain ⟨label, a, older, own, base, -, -, fits, -⟩ := layout.inv
  -- A halt is labelled without handlers, and code that a call may start has none.
  obtain ⟨-, -, none⟩ := fits.labelled.agrees _ _ here
  have halting : .halt ∈ code.instructions := Array.mem_of_getElem? here
  obtain rfl : below = [] := Classical.byContradiction fun inner => (fits.called inner).2 halting
  have pending := fits.pending
  rw [none] at pending
  cases passes.underway loaded.frames with
  | between idle _ =>
    rw [running] at idle
    cases idle
  | @inside piece m₀ _ k onward idle room steps =>
    obtain ⟨front, split, passed⟩ := onward
    -- The only frame is the one that the piece has started with, so the halt is in its code.
    have ground := (steps.keeping (Grounded.enter idle piece)).1.alone running
    simp only [Frame.ground, Prod.mk.injEq] at ground
    obtain ⟨rfl, rfl, unbound⟩ := ground
    rcases Program.pieces_cases split with early | ⟨rfl, rfl⟩
    · exact absurd halting (lowered.initializers_proper piece early)
    · obtain rfl : this = .none := Option.isNone_iff_eq_none.1 (Option.isSome_eq_false_iff.1 unbound)
      obtain rfl := pending.handlers_eq_nil
      have limits : m.limits = m₀.limits := (steps.keeping (Grounded.enter idle _)).2
      exact ⟨m₀, k, m, next, limits.symm.trans passes.limits, passed, idle, room, steps, running, here⟩

/-! ## Behind the halt -/

/-- Everything of the machine but its frames, behind a halt. -/
def Machine.stopped (m : Machine) : Machine := { m with frames := [], executed := m.executed + 1 }

theorem Action.cycle_halt {m : Machine} {frame : Frame} (alone : m.frames = [frame])
    (here : frame.code.instructions[frame.next]? = some .halt)
    (unlimited : m.limits.maxInstructions = none) : cycle m = .ok true m.stopped := by
  rw [cycle_step alone here fun limit limited => by cases unlimited.symm.trans limited]
  rfl

namespace Halted

variable {p : Program} {first m₀ m : Machine} {k address : Nat}

theorem limits_eq (halted : Halted p first m₀ k m address) : m.limits = first.limits :=
  (halted.steps.keeping (Grounded.enter halted.idle _)).2.trans halted.limits

/-- The whole run ends behind the halt. -/
theorem comes (halted : Halted p first m₀ k m address) (unlimited : first.limits.maxInstructions = none) :
    Comes p.pieces (first.loading p) (.ok true m.stopped) := by
  have halts : cycle m = .ok true m.stopped :=
    cycle_halt halted.frames halted.here (halted.limits_eq ▸ unlimited)
  exact halted.initialized.append
    (Comes.of_idle halted.room (halted.steps.trans (.one halts)) rfl)

end Halted

end Monogram
