import Monogram.Proofs.Session.Reached

/-! # The stack of operands

* `Disciplined` — what holds of the operands at every step of a run.
* `Session.Reached.operands_disciplined` — it does, and a run leaves no frame and no operand.
-/

namespace Monogram

open Monogram.Action

/-- The operands of a machine with this history. -/
structure Disciplined (m : Machine) (history : List Activation) : Prop where
  /-- No instruction misses an operand. -/
  supplied : ∀ m', cycle m ≠ .error (.fault .operandUnderflow) m'
  /-- Every frame that lives has a past. -/
  remembered : m.frames.length = history.length
  /-- The frame that runs owns the operands above those that were there as it started, and no more
  than its code has room for. -/
  owned : ∀ frame below a older, m.frames = frame :: below → history = a :: older →
    a.entry.operands.size ≤ m.operands.size
      ∧ m.operands.size - a.entry.operands.size ≤ frame.code.maxOperands

theorem Sound.disciplined {m : Machine} {history : List Activation} (sound : Sound m history) :
    Disciplined m history where
  supplied := by
    intro m' failed
    have stays := sound.stays
    rw [failed] at stays
    exact stays.1 rfl
  remembered := sound.layout.length_eq
  owned := by
    rintro frame below a older running rfl
    obtain ⟨label, _, _, own, base, same, items, fits, -⟩ := (running ▸ sound.layout).inv
    cases same
    have entered : a.entry.operands.size = base.length := by
      rw [fits.entered]
      rfl
    have size : m.operands.size = own.length + base.length := by
      rw [← List.length_append, ← items]
      rfl
    have bounded := fits.labelled.bounded frame.next fits.inside
    have depth := fits.depth
    omega

/-- Nothing is left on a machine whose run has ended; a run that has not ended within its bound has
come to a machine that it passes through. -/
def Cleared (pieces : List Frame) (first : Machine) : EStateM.Result Failure Machine Bool → Prop
  | .ok true m | .error _ m => m.frames = [] ∧ m.operands = .empty
  | .ok false m => ∃ later history, Passes pieces first later m history

namespace Session.Reached

variable {limits : Limits} {console : Console} {s : Session} {p : Program}

/-- No run of a lowered program misses an operand, or keeps more of them than a frame has room for,
and none leaves a frame or an operand behind. -/
theorem operands_disciplined (reached : s.Reached limits console) (lowered : p.Lowered) :
    (∀ later m history, Passes p.pieces (s.machine.loading p) later m history →
      Disciplined m history)
    ∧ ∀ bound, Cleared p.pieces (s.machine.loading p) (Action.run bound p s.machine) := by
  have loaded := reached.rested.loading lowered
  refine ⟨fun later m history passes => ?_, fun bound => ?_⟩
  · exact (passes.sound loaded lowered.pieces_startable).1.disciplined
  · have left := reached.rested.run lowered bound
    cases result : Action.run bound p s.machine with
    | ok ended m =>
      rw [result] at left
      cases ended with
      | true => exact ⟨left.frames, left.operands⟩
      | false =>
        rw [run_eq] at result
        obtain ⟨later, history, passes, -⟩ := Passes.start.of_executeAll loaded.frames result
        exact ⟨later, history, passes⟩
    | error f m =>
      rw [result] at left
      exact ⟨left.1.frames, left.1.operands⟩

theorem operands_disciplined_bell :
    (Session.new .usual default).Reached .usual default ∧ bellProgram.Lowered
    ∧ (∀ later m history,
        Passes bellProgram.pieces (Machine.loading (.new .usual default) bellProgram) later m history →
        Disciplined m history)
    ∧ ∀ bound, Cleared bellProgram.pieces (Machine.loading (.new .usual default) bellProgram)
        (Action.run bound bellProgram (.new .usual default)) :=
  ⟨.new, bellProgram_lowered, operands_disciplined .new bellProgram_lowered⟩

end Session.Reached

end Monogram
