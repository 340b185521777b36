import Monogram.Proofs.Session.Reached

/-! # Where a raised value goes

* `Resumes` — the machine that goes on in a handler.
* `Session.Reached.raised_unwinds` — a raised value goes to the handler that was installed last and is
  still pending in the innermost frame that has one, or ends the run.
-/

namespace Monogram

open Monogram.Action

/-- The machine goes on in the handler that `installer` was about to install in the frame: with the
handlers and the operands that were there then, and the raised value. -/
structure Resumes (m' installer : Machine) (frame : Frame) (below : List Frame) (v : Value) : Prop where
  frames : ∃ install target, installer.frames = install :: below ∧ install.code = frame.code
    ∧ frame.code.instructions[install.next]? = some (.openHandler target)
    ∧ m'.frames = { frame with next := target, handlers := install.handlers } :: below
  operands : m'.operands = installer.operands.push v

theorem unwind_append {past : List Activation} (bare : ∀ b ∈ past, b.tries = [])
    (others : List Activation) : unwind (past ++ others) = unwind others := by
  induction past with
  | nil => rfl
  | cons b rest ih =>
    obtain ⟨none, left⟩ := List.forall_mem_cons.1 bare
    rw [List.cons_append, unwind, none]
    exact ih left

theorem Catches.resumes {frames : List Frame} {history : List Activation} {items : List Value}
    {c : Catcher} (catches : Catches frames history items c) {m' : Machine} {v : Value}
    (goes : m'.frames = c.resumed :: c.below) (operands : m'.operands = ⟨v :: c.base⟩) :
    Resumes m' c.installer c.frame c.below v := by
  obtain ⟨⟨install, frames, code, handlers, opens⟩, base⟩ := catches.installs
  refine ⟨⟨install, c.handler.address, frames, code, opens, ?_⟩, ?_⟩
  · rw [goes, Catcher.resumed, handlers]
  · rw [operands, base]
    rfl

/-- In two lists of frames that differ at most in the first, the frames at the same level are the same,
or they are those two. -/
theorem same_level {top moved frame frame' : Frame} {others gone gone' below below' : List Frame}
    (before : top :: others = gone ++ frame :: below) (after : moved :: others = gone' ++ frame' :: below')
    (level : below.length = below'.length) :
    below = below' ∧ (frame = frame' ∨ top = frame ∧ moved = frame') := by
  have lengths := congrArg List.length before
  have lengths' := congrArg List.length after
  simp only [List.length_append, List.length_cons] at lengths lengths'
  cases gone with
  | nil =>
    obtain rfl : gone' = [] := List.length_eq_zero_iff.1 (by simp only [List.length_nil] at lengths; omega)
    obtain ⟨first, rest⟩ := List.cons.inj before
    obtain ⟨first', rest'⟩ := List.cons.inj after
    exact ⟨rest.symm.trans rest', .inr ⟨first, first'⟩⟩
  | cons g gone =>
    cases gone' with
    | nil =>
      simp only [List.length_nil, List.length_cons] at lengths lengths'
      omega
    | cons g' gone' =>
      have rest := (List.cons.inj before).2.symm.trans (List.cons.inj after).2
      obtain ⟨same, deeper⟩ := List.cons.inj (List.append_inj' rest (by simp [level])).2
      exact ⟨deeper, .inl same⟩

variable {m : Machine} {history : List Activation} {v : Value}

/-- A raised value goes to the innermost frame that has a handler pending. -/
theorem Sound.raised_resumes (sound : Sound m history) (event : m.event = .raises v)
    (spare : ∀ limit, m.limits.maxInstructions = some limit → m.executed < limit)
    {gone below : List Frame} {frame : Frame} {past older : List Activation} {a : Activation}
    {installer : Machine} {tries : List Machine} (frames : m.frames = gone ++ frame :: below)
    (remembered : history = past ++ a :: older) (same : gone.length = past.length)
    (bare : ∀ b ∈ past, b.tries = []) (tried : a.tries = installer :: tries) :
    ∃ m', Action.cycle m = .ok true m' ∧ m'.world = m.world ∧ Resumes m' installer frame below v := by
  obtain ⟨top, others, rest, running, taken, cycled⟩ := sound.raising event spare
  have found : unwind history = a :: older := by
    rw [remembered, unwind_append bare, unwind, tried]
  rcases taken.unwound with unhandled | ⟨c, catches⟩
  · rw [unhandled.past] at found
    cases found
  have caught := catches.past.symm.trans found
  obtain ⟨rfl, rfl⟩ := List.cons.inj caught
  obtain ⟨rfl, rfl⟩ := List.cons.inj (catches.tries.symm.trans tried)
  rw [goingOn, bind_apply, catches.raiseValue_eq] at cycled
  obtain ⟨m', goes, handles, operands, world⟩ : ∃ m', Action.cycle m = .ok true m'
      ∧ m'.frames = c.resumed :: c.below ∧ m'.operands = ⟨v :: c.base⟩ ∧ m'.world = m.world :=
    ⟨_, cycled, rfl, rfl, rfl⟩
  refine ⟨m', goes, world, ?_⟩
  have resumes := catches.resumes handles operands
  obtain ⟨passed, live, -⟩ := catches.live
  have lengths : c.below.length = c.older.length :=
    Nat.succ.inj (catches.layout v).length_eq
  have all := sound.layout.length_eq
  rw [frames, remembered, List.length_append, List.length_append, same] at all
  have level : below.length = c.below.length := by
    rw [lengths]
    simpa using all
  -- Only the frame that runs has moved, to behind the call.
  obtain ⟨rfl, rfl | ⟨rfl, moved⟩⟩ := same_level (running.symm.trans frames) live level
  · exact resumes
  · rw [← moved] at resumes
    exact ⟨resumes.frames, resumes.operands⟩

/-- A raised value that no frame has a handler pending for ends the run. -/
theorem Sound.raised_ends (sound : Sound m history) (event : m.event = .raises v)
    (spare : ∀ limit, m.limits.maxInstructions = some limit → m.executed < limit)
    (bare : ∀ a ∈ history, a.tries = []) :
    ∃ m', Action.cycle m = .error (.uncaught (m.heap.display v)) m' ∧ m'.world = m.world := by
  obtain ⟨top, others, rest, running, taken, cycled⟩ := sound.raising event spare
  have found : unwind history = [] := by
    have nothing := unwind_append bare []
    rwa [List.append_nil] at nothing
  rcases taken.unwound with unhandled | ⟨c, catches⟩
  · rw [goingOn, bind_apply, raiseValue_of_none unhandled.found] at cycled
    exact ⟨_, cycled, rfl⟩
  · rw [catches.past] at found
    cases found

/-- Where the value goes that the machine is about to raise, on the way through a program that has
started on the machine `first`. -/
structure Unwinds (p : Program) (first m : Machine) (history : List Activation) (v : Value) : Prop where
  /-- Every frame has the handlers that are pending. -/
  counted : List.Forall₂ (fun frame a => frame.handlers.length = a.tries.length) m.frames history
  /-- The innermost frame that has a handler pending goes on in the one that was installed last.  The
  frames above it are gone, and those below it are as they were. -/
  caught : ∀ gone frame below past a older installer tries,
    m.frames = gone ++ frame :: below → history = past ++ a :: older → gone.length = past.length →
    (∀ b ∈ past, b.tries = []) → a.tries = installer :: tries →
    ∃ m', cycle m = .ok true m' ∧ m'.world = m.world ∧ Resumes m' installer frame below v
  /-- Without any handler pending the run ends with the value as text, and prints nothing more. -/
  uncaught : (∀ a ∈ history, a.tries = []) →
    ∃ m' bound, m'.world = m.world ∧ ∀ more, bound ≤ more →
      run more p first = .error (.uncaught (m.heap.display v)) m'

namespace Session.Reached

variable {limits : Limits} {console : Console} {s : Session} {p : Program}
  {later : List Frame}

/-- A raised value goes exactly where it should. -/
theorem raised_unwinds (reached : s.Reached limits console) (lowered : p.Lowered)
    (passes : Passes p.pieces (s.machine.loading p) later m history) (event : m.event = .raises v)
    (spare : ∀ limit, m.limits.maxInstructions = some limit → m.executed < limit) :
    Unwinds p s.machine m history v := by
  have loaded := reached.rested.loading lowered
  have sound := (passes.sound loaded lowered.pieces_startable).1
  refine ⟨sound.layout.handlers_length, ?_, fun bare => ?_⟩
  · intro gone frame below past a older installer tries frames remembered same bare tried
    exact sound.raised_resumes event spare frames remembered same bare tried
  · obtain ⟨after, failed, world⟩ := sound.raised_ends event spare bare
    obtain ⟨size, final, bound, ended⟩ := (passes.underway loaded.frames).fails failed
    refine ⟨{ after with frames := [], operands := after.operands.truncate size }, bound, world,
      fun more larger => ?_⟩
    rw [run_eq, executeAll_mono (ended.symm ▸ final) larger, ended]

/-- In the program of the bell, the method raises a value while its caller has a handler pending. -/
theorem raised_unwinds_bell :
    ∃ later m history v,
      Passes bellProgram.pieces (Machine.loading (.new .usual default) bellProgram) later m history
      ∧ m.event = .raises v ∧ m.limits.maxInstructions = none
      ∧ history.map (fun a => a.tries.length) = [0, 1]
      ∧ Unwinds bellProgram (.new .usual default) m history v := by
  have tested : ((Passes.after bellProgram.pieces
      (Machine.loading (.new .usual default) bellProgram) 5).any fun progress =>
        progress.2.1.event.raised?.isSome && progress.2.1.limits.maxInstructions.isNone
        && progress.2.2.map (fun a => a.tries.length) == [0, 1]) = true := by
    decide +kernel
  obtain ⟨⟨later, m, history⟩, reached, holds⟩ := (Option.any_eq_true _ _).1 tested
  simp only [Bool.and_eq_true, Option.isNone_iff_eq_none, beq_iff_eq] at holds
  obtain ⟨⟨raises, unlimited⟩, pending⟩ := holds
  have passes := Passes.of_after reached
  cases event : m.event with
  | raises v =>
    refine ⟨later, m, history, v, passes, event, unlimited, pending, ?_⟩
    refine raised_unwinds .new bellProgram_lowered passes event fun limit limited => ?_
    rw [unlimited] at limited
    cases limited
  | _ => simp [event, Event.raised?] at raises

end Session.Reached

end Monogram
