import Monogram.Proofs.Machine.Soundness

/-! # Machines at rest

Between two programs a machine has no frames and no operands.  A program whose code is labelled takes
a machine at rest through sound machines only, and leaves it at rest, whichever way it ends.

* `Rested` — a machine between two programs.
* `Passes.sound` — the machines that a run of pieces comes through.
* `Rested.run` — what a run leaves behind.
-/

namespace Monogram

open Monogram.Action

/-- A machine between two programs, whose classes come from trees. -/
structure Rested (m : Machine) : Prop where
  frames : m.frames = []
  operands : m.operands = .empty
  sourced : m.world.All ClassImage.Sourced

/-- What a run leaves behind: a machine at rest, unless the run has not ended within its bound.  A
failure is no missing operand. -/
def EndsRested : EStateM.Result Failure Machine Bool → Prop
  | .ok true m' => Rested m'
  | .ok false _ => True
  | .error f m' => Rested m' ∧ f ≠ .fault .operandUnderflow

/-- A frame that may start on a machine at rest. -/
def Frame.Startable (frame : Frame) : Prop :=
  ∃ code kind, frame = .start code kind none ∧ code.Verified

theorem Program.Lowered.pieces_startable {p : Program} (lowered : p.Lowered) :
    ∀ piece ∈ p.pieces, piece.Startable := by
  intro piece member
  rcases List.mem_append.1 member with initializer | main
  · obtain ⟨c, known, rfl⟩ := List.mem_map.1 initializer
    have sourced := lowered.classes c (List.mem_of_mem_filter known)
    exact ⟨_, _, rfl, sourced.callable.staticInit.1⟩
  · obtain rfl := List.mem_singleton.1 main
    exact ⟨_, _, rfl, lowered.main⟩

namespace Sound

variable {m m' : Machine} {history : List Activation}

theorem cycle (sound : Sound m history) (cycled : cycle m = .ok true m') :
    Sound m' (m.event.record m m' history) := by
  have stays := sound.stays
  rw [cycled] at stays
  exact stays

theorem steps {k : Nat} (sound : Sound m history) (steps : Steps k m m') :
    ∃ history', Sound m' history' := by
  induction steps generalizing history with
  | refl m => exact ⟨history, sound⟩
  | step cycled others ih => exact ih (sound.cycle cycled)

/-- Without frames a sound machine is at rest. -/
theorem rested (sound : Sound m history) (idle : m.frames = []) : Rested m ∧ history = [] := by
  have layout := sound.layout
  rw [idle] at layout
  obtain ⟨none, items⟩ := layout.nil_inv
  exact ⟨⟨idle, congrArg Operands.mk items, sound.sourced⟩, none⟩

end Sound

namespace Rested

variable {m : Machine}

theorem new (limits : Limits) (console : Console) : Rested (.new limits console) :=
  ⟨rfl, rfl, ⟨fun _ => nofun, fun _ member => absurd member (Array.not_mem_empty _)⟩⟩

theorem sound (rested : Rested m) : Sound m [] := by
  refine ⟨?_, rested.sourced⟩
  rw [rested.frames, rested.operands]
  exact .nil

theorem loading (rested : Rested m) {p : Program} (lowered : p.Lowered) : Rested (m.loading p) :=
  ⟨rested.frames, rested.operands,
    ⟨Registry.all_registerAll rested.sourced.classes lowered.classes, rested.sourced.objects⟩⟩

/-- A piece has started on a machine at rest. -/
theorem enter (rested : Rested m) {piece : Frame} (startable : piece.Startable) :
    Sound (entered m piece) [.start (entered m piece)] := by
  obtain ⟨code, kind, rfl, label, labelled⟩ := startable
  refine ⟨?_, rested.sourced⟩
  have frames : (entered m (.start code kind none)).frames
      = .start code kind ((none : Option Address).map .object) :: [] :=
    congrArg (_ :: ·) rested.frames
  have operands : (entered m (.start code kind none)).operands = ⟨[]⟩ := rested.operands
  rw [frames, operands]
  exact .cons (Fits.start labelled frames operands (fun receiver => by cases receiver)
    fun below => absurd rfl below) .nil

theorem execute (rested : Rested m) {piece : Frame} (startable : piece.Startable) (bound : Nat) :
    EndsRested (execute bound piece m) := by
  have empty : ∀ operands : Operands Value, operands.truncate m.operands.size = .empty := by
    intro operands
    rw [rested.operands]
    exact congrArg Operands.mk (List.drop_length)
  by_cases room : m.frames.length < m.limits.maxDepth
  · have started := rested.enter startable
    cases result : cycles bound (entered m piece) with
    | ok ended m' =>
      rw [execute_of_ok room result]
      cases ended with
      | true =>
        obtain ⟨k, -, steps, idle⟩ := cycles_finished result
        obtain ⟨history, sound⟩ := started.steps steps
        exact (sound.rested idle).1
      | false => trivial
    | error f m' =>
      rw [execute_of_error room result]
      obtain ⟨k, mid, -, steps, failed⟩ := cycles_failed result
      obtain ⟨history, sound⟩ := started.steps steps
      have stays := sound.stays
      rw [failed] at stays
      exact ⟨⟨rfl, empty _, stays.2⟩, stays.1⟩
  · rw [execute_of_full bound (Nat.le_of_not_lt room)]
    exact ⟨⟨rfl, empty _, rested.sourced⟩, fun h => by cases h⟩

theorem executeAll (rested : Rested m) {pieces : List Frame}
    (startable : ∀ piece ∈ pieces, piece.Startable) (bound : Nat) :
    EndsRested (executeAll bound pieces m) := by
  induction pieces generalizing m with
  | nil => exact rested
  | cons piece rest ih =>
    obtain ⟨first, others⟩ := List.forall_mem_cons.1 startable
    have left := rested.execute first bound
    rw [executeAll_cons]
    cases result : Action.execute bound piece m with
    | ok ended m' =>
      rw [result] at left
      cases ended with
      | true => exact ih left others
      | false => trivial
    | error f m' =>
      rw [result] at left
      exact left

/-- What a run of a program leaves behind. -/
theorem run (rested : Rested m) {p : Program} (lowered : p.Lowered) (bound : Nat) :
    EndsRested (run bound p m) := by
  rw [run_eq]
  exact (rested.loading lowered).executeAll lowered.pieces_startable bound

end Rested

/-- A run of pieces on a machine at rest comes through sound machines only. -/
theorem Passes.sound {pieces later : List Frame} {first m : Machine} {history : List Activation}
    (rested : Rested first) (startable : ∀ piece ∈ pieces, piece.Startable)
    (h : Passes pieces first later m history) :
    Sound m history ∧ ∀ piece ∈ later, piece.Startable := by
  induction h with
  | start => exact ⟨rested.sound, startable⟩
  | enter before idle pushed ih =>
    obtain ⟨sound, waiting⟩ := ih
    obtain ⟨next, others⟩ := List.forall_mem_cons.1 waiting
    rw [pushFrame_apply] at pushed
    split at pushed <;> cases pushed
    exact ⟨(sound.rested idle).1.enter next, others⟩
  | cycle before cycled ih => exact ⟨ih.1.cycle cycled, ih.2⟩

end Monogram
