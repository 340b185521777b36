import Monogram.Proofs.Machine.Step

/-! # Runs of a machine

A run is a number of cycles one after the other.  A program is a list of pieces, each of which runs
as the only frame: the static initializers of its classes, and its statements.

* `Steps` — so many cycles.
* `Program.pieces`, `Action.executeAll` — the pieces of a program, and how they run.
* `Action.run_eq` — a run of a program is one of its pieces.
* `Comes` — what a run of pieces comes to, whatever bound lets it.
-/

namespace Monogram

open Monogram.Action

/-- The run ends for want of resources. -/
def Failure.isLimit : Failure → Bool
  | .callDepth _ _ | .instructions _ => true
  | .fault _ | .uncaught _ => false

/-! ## Cycles one after the other -/

/-- So many cycles lead from one machine to the other. -/
inductive Steps : Nat → Machine → Machine → Prop where
  | refl (m : Machine) : Steps 0 m m
  | step {n : Nat} {m m₁ m₂ : Machine} (first : cycle m = .ok true m₁) (others : Steps n m₁ m₂) :
      Steps (n + 1) m m₂

namespace Steps

theorem one {m m' : Machine} (only : cycle m = .ok true m') : Steps 1 m m' :=
  .step only (.refl m')

theorem trans {a b : Nat} {m m₁ m₂ : Machine} (front : Steps a m m₁) (back : Steps b m₁ m₂) :
    Steps (a + b) m m₂ := by
  induction front with
  | refl m => rwa [Nat.zero_add]
  | step first others ih =>
    rw [Nat.add_right_comm]
    exact .step first (ih back)

/-- Fewer cycles lead somewhere on the way. -/
theorem front {a b : Nat} {m m₂ : Machine} (all : Steps b m m₂) (fewer : a ≤ b) :
    ∃ m₁, Steps a m m₁ := by
  induction a generalizing b m with
  | zero => exact ⟨m, .refl m⟩
  | succ a ih =>
    cases all with
    | refl => omega
    | step first others =>
      obtain ⟨m₁, steps⟩ := ih others (by omega)
      exact ⟨m₁, .step first steps⟩

theorem cycles_eq {k : Nat} {m m' : Machine} (steps : Steps k m m') (n : Nat) :
    cycles (k + n) m = cycles n m' := by
  induction steps with
  | refl m => rw [Nat.zero_add]
  | step first others ih =>
    rw [Nat.add_right_comm]
    simp only [cycles, bind_apply, first]
    exact ih

end Steps

namespace Action

theorem idle_of_cycle {m m' : Machine} (ends : cycle m = .ok false m') : m.frames = [] ∧ m' = m := by
  cases running : m.frames with
  | nil =>
    rw [cycle_idle running] at ends
    cases ends
    exact ⟨rfl, rfl⟩
  | cons frame below =>
    exfalso
    cases here : frame.code.instructions[frame.next]? with
    | none =>
      rw [cycle_end running here] at ends
      cases ends
    | some i =>
      rcases cycle_cases running here with ⟨-, carried⟩ | ⟨limit, spent⟩
      · rw [carried] at ends
        cases done : step i (fetched m frame below) with
        | ok flow after =>
          rw [done] at ends
          cases flow <;> cases ends
        | error f after =>
          rw [done] at ends
          cases ends
      · rw [spent] at ends
        cases ends

theorem steps_of_cycles {bound : Nat} {m m' : Machine} (unfinished : cycles bound m = .ok false m') :
    Steps bound m m' := by
  induction bound generalizing m with
  | zero =>
    cases unfinished
    exact .refl _
  | succ bound ih =>
    simp only [cycles, bind_apply] at unfinished
    cases first : cycle m with
    | ok more m₁ =>
      rw [first] at unfinished
      cases more with
      | true => exact .step first (ih unfinished)
      | false => cases unfinished
    | error f m₁ =>
      rw [first] at unfinished
      cases unfinished

theorem cycles_finished {bound : Nat} {m m' : Machine} (finished : cycles bound m = .ok true m') :
    ∃ k, k < bound ∧ Steps k m m' ∧ m'.frames = [] := by
  induction bound generalizing m with
  | zero => cases finished
  | succ bound ih =>
    simp only [cycles, bind_apply] at finished
    cases first : cycle m with
    | ok more m₁ =>
      rw [first] at finished
      cases more with
      | true =>
        obtain ⟨k, small, steps, idle⟩ := ih finished
        exact ⟨k + 1, by omega, .step first steps, idle⟩
      | false =>
        obtain ⟨idle, rfl⟩ := idle_of_cycle first
        cases finished
        exact ⟨0, by omega, .refl _, idle⟩
    | error f m₁ =>
      rw [first] at finished
      cases finished

theorem cycles_failed {bound : Nat} {m m' : Machine} {f : Failure}
    (failed : cycles bound m = .error f m') :
    ∃ k mid, k < bound ∧ Steps k m mid ∧ cycle mid = .error f m' := by
  induction bound generalizing m with
  | zero => cases failed
  | succ bound ih =>
    simp only [cycles, bind_apply] at failed
    cases first : cycle m with
    | ok more m₁ =>
      rw [first] at failed
      cases more with
      | true =>
        obtain ⟨k, mid, small, steps, last⟩ := ih failed
        exact ⟨k + 1, mid, by omega, .step first steps, last⟩
      | false => cases failed
    | error e m₁ =>
      rw [first] at failed
      cases failed
      exact ⟨0, m, by omega, .refl m, first⟩

theorem cycles_of_idle {k bound : Nat} {m m' : Machine} (steps : Steps k m m')
    (idle : m'.frames = []) (enough : k < bound) : cycles bound m = .ok true m' := by
  obtain ⟨n, rfl⟩ : ∃ n, bound = k + (n + 1) := ⟨bound - k - 1, by omega⟩
  rw [steps.cycles_eq]
  simp only [cycles, bind_apply, cycle_idle idle, pure_apply, Bool.false_eq_true, if_false]

theorem cycles_of_failure {k bound : Nat} {m mid m' : Machine} {f : Failure}
    (steps : Steps k m mid) (last : cycle mid = .error f m') (enough : k < bound) :
    cycles bound m = .error f m' := by
  obtain ⟨n, rfl⟩ : ∃ n, bound = k + (n + 1) := ⟨bound - k - 1, by omega⟩
  rw [steps.cycles_eq]
  simp only [cycles, bind_apply, last]

/-- A result that a run has come to: not one that only ran out of its bound. -/
def Final : EStateM.Result Failure Machine Bool → Prop
  | .ok ended _ => ended = true
  | .error _ _ => True

theorem cycles_mono {bound more : Nat} {m : Machine} (final : Final (cycles bound m))
    (larger : bound ≤ more) : cycles more m = cycles bound m := by
  cases result : cycles bound m with
  | ok ended m' =>
    rw [result] at final
    obtain rfl : ended = true := final
    obtain ⟨k, small, steps, idle⟩ := cycles_finished result
    exact cycles_of_idle steps idle (by omega)
  | error f m' =>
    obtain ⟨k, mid, small, steps, last⟩ := cycles_failed result
    exact cycles_of_failure steps last (by omega)

/-! ## Pieces of a program -/

/-- The machine in which a frame starts, unless there are too many. -/
def entered (m : Machine) (frame : Frame) : Machine := { m with frames := frame :: m.frames }

theorem pushFrame_apply (m : Machine) (frame : Frame) :
    pushFrame frame m =
      if m.limits.maxDepth ≤ m.frames.length then
        .error (.callDepth (m.frames.length + 1) m.limits.maxDepth) m
      else .ok () (entered m frame) := by
  simp only [pushFrame, bind_apply, get_apply]
  split <;> rfl

theorem execute_of_ok {bound : Nat} {frame : Frame} {m m' : Machine} {ended : Bool}
    (room : m.frames.length < m.limits.maxDepth)
    (result : cycles bound (entered m frame) = .ok ended m') :
    execute bound frame m = .ok ended m' := by
  simp only [execute, bind_apply, pushFrame_apply, if_neg (Nat.not_le.2 room), result]

theorem execute_of_error {bound : Nat} {frame : Frame} {m m' : Machine} {f : Failure}
    (room : m.frames.length < m.limits.maxDepth)
    (result : cycles bound (entered m frame) = .error f m') :
    execute bound frame m
      = .error f { m' with frames := [], operands := m'.operands.truncate m.operands.size } := by
  simp only [execute, bind_apply, pushFrame_apply, if_neg (Nat.not_le.2 room), result]

theorem execute_of_full (bound : Nat) {frame : Frame} {m : Machine}
    (full : m.limits.maxDepth ≤ m.frames.length) :
    execute bound frame m
      = .error (.callDepth (m.frames.length + 1) m.limits.maxDepth)
          { m with frames := [], operands := m.operands.truncate m.operands.size } := by
  simp only [execute, bind_apply, pushFrame_apply, if_pos full]

theorem execute_mono {bound more : Nat} {frame : Frame} {m : Machine}
    (final : Final (execute bound frame m)) (larger : bound ≤ more) :
    execute more frame m = execute bound frame m := by
  by_cases room : m.frames.length < m.limits.maxDepth
  · cases result : cycles bound (entered m frame) with
    | ok ended m' =>
      have same := execute_of_ok room result
      rw [same] at final ⊢
      have stays := cycles_mono (result.symm ▸ final) larger
      exact execute_of_ok room (stays.trans result)
    | error f m' =>
      have stays := cycles_mono (m := entered m frame) (result.symm ▸ trivial) larger
      rw [execute_of_error room result]
      exact execute_of_error room (stays.trans result)
  · rw [execute_of_full more (by omega), execute_of_full bound (by omega)]

/-- Runs frames one after the other, each of them and what it calls to its end. -/
def executeAll (bound : Nat) : List Frame → Action Bool
  | [] => return true
  | frame :: rest => do
    if ← execute bound frame then executeAll bound rest else return false

theorem executeAll_cons {bound : Nat} {frame : Frame} {rest : List Frame} {m : Machine} :
    executeAll bound (frame :: rest) m =
      match execute bound frame m with
      | .ok true m' => executeAll bound rest m'
      | .ok false m' => .ok false m'
      | .error f m' => .error f m' := by
  simp only [executeAll, bind_apply]
  rcases execute bound frame m with ⟨ended, m'⟩ | ⟨f, m'⟩
  · cases ended <;> rfl
  · rfl

theorem executeAll_one {bound : Nat} {frame : Frame} {m : Machine} :
    executeAll bound [frame] m = execute bound frame m := by
  rw [executeAll_cons]
  rcases execute bound frame m with ⟨ended, m'⟩ | ⟨f, m'⟩
  · cases ended <;> rfl
  · rfl

/-- A first piece that has not ended is all that has run. -/
theorem executeAll_of_running {bound : Nat} {frame : Frame} {m m' : Machine}
    (running : executeAll bound [frame] m = .ok false m') (rest : List Frame) :
    executeAll bound (frame :: rest) m = .ok false m' := by
  rw [executeAll_cons] at running ⊢
  cases executed : execute bound frame m with
  | ok ended mid =>
    rw [executed] at running
    cases ended with
    | true => cases running
    | false => exact running
  | error f mid =>
    rw [executed] at running
    cases running

theorem executeAll_append {bound : Nat} {front back : List Frame} {m : Machine} :
    executeAll bound (front ++ back) m =
      match executeAll bound front m with
      | .ok true m' => executeAll bound back m'
      | .ok false m' => .ok false m'
      | .error f m' => .error f m' := by
  induction front generalizing m with
  | nil => rfl
  | cons frame rest ih =>
    rw [List.cons_append, executeAll_cons, executeAll_cons]
    rcases execute bound frame m with ⟨ended, m'⟩ | ⟨f, m'⟩
    · cases ended with
      | true => exact ih
      | false => rfl
    · rfl

theorem executeAll_mono {bound more : Nat} {frames : List Frame} {m : Machine}
    (final : Final (executeAll bound frames m)) (larger : bound ≤ more) :
    executeAll more frames m = executeAll bound frames m := by
  induction frames generalizing m with
  | nil => rfl
  | cons frame rest ih =>
    rw [executeAll_cons] at final ⊢
    rw [executeAll_cons]
    cases result : execute bound frame m with
    | ok ended m' =>
      rw [result] at final
      cases ended with
      | true =>
        rw [execute_mono (result.symm ▸ rfl) larger, result]
        exact ih final
      | false => cases final
    | error f m' => rw [execute_mono (result.symm ▸ trivial) larger, result]

end Action

/-- The frames that start when a program runs: static initializers that have any code, in the order
of the classes, then the statements. -/
def Program.pieces (p : Program) : List Frame :=
  (p.classes.values.filter fun image => image.staticInit.size ≠ 0).map
      (fun image => .start image.staticInit .staticInit none)
    ++ [.start p.main .main none]

/-- The machine with the classes of a program, and no instruction counted. -/
def Machine.loading (m : Machine) (p : Program) : Machine :=
  { m with executed := 0, classes := p.classes.values.foldl Registry.register m.classes }

namespace Action

theorem runStaticInits_bind (bound : Nat) (images : List ClassImage) (main : Frame) (m : Machine) :
    (do if ← runStaticInits bound images then execute bound main else return false : Action Bool) m
      = executeAll bound ((images.filter fun image => image.staticInit.size ≠ 0).map
          (fun image => .start image.staticInit .staticInit none) ++ [main]) m := by
  induction images generalizing m with
  | nil =>
    simp only [runStaticInits, bind_apply, pure_apply, if_true, List.filter_nil, List.map_nil,
      List.nil_append, executeAll_cons, executeAll]
    rcases execute bound main m with ⟨ended, m'⟩ | ⟨f, m'⟩
    · cases ended <;> rfl
    · rfl
  | cons image rest ih =>
    by_cases empty : image.staticInit.size = 0
    · simp only [runStaticInits, List.filter_cons, empty, ne_eq, not_true, decide_false,
        Bool.false_eq_true, if_false]
      exact ih m
    · simp only [List.filter_cons, ne_eq, empty, not_false_eq_true, decide_true, if_true,
        List.map_cons, List.cons_append, executeAll_cons]
      rw [runStaticInits, if_neg empty, bind_apply, bind_apply]
      cases execute bound (.start image.staticInit .staticInit none) m with
      | ok ended m' =>
        cases ended with
        | true =>
          have others := ih m'
          rw [bind_apply] at others
          exact others
        | false => rfl
      | error f m' => rfl

/-- A run of a program is one of its pieces. -/
theorem run_eq (bound : Nat) (p : Program) (m : Machine) :
    run bound p m = executeAll bound p.pieces (m.loading p) := by
  unfold run
  have started : ∀ rest : Action Bool,
      (do resetCount; loadClasses p.classes.values; rest : Action Bool) m = rest (m.loading p) := by
    intro rest
    rfl
  exact (started _).trans (runStaticInits_bind bound _ _ _)

end Action

/-! ## What a run comes to -/

/-- The run of pieces comes to a result. -/
def Comes (frames : List Frame) (m : Machine) (result : EStateM.Result Failure Machine Bool) : Prop :=
  Final result ∧ ∃ bound, executeAll bound frames m = result

namespace Comes

variable {frame : Frame} {frames : List Frame} {m m' : Machine}
  {result : EStateM.Result Failure Machine Bool}

theorem eq {result' : EStateM.Result Failure Machine Bool} (h : Comes frames m result)
    (h' : Comes frames m result') : result = result' := by
  obtain ⟨final, bound, rfl⟩ := h
  obtain ⟨final', bound', rfl⟩ := h'
  rw [← executeAll_mono final (Nat.le_max_left bound bound'),
    ← executeAll_mono final' (Nat.le_max_right bound bound')]

theorem of_execute {bound : Nat} (executed : execute bound frame m = result)
    (final : Final result) : Comes [frame] m result :=
  ⟨final, bound, executeAll_one.trans executed⟩

/-- A piece ends where its frames have. -/
theorem of_idle {k : Nat} (room : m.frames.length < m.limits.maxDepth)
    (steps : Steps k (entered m frame) m') (idle : m'.frames = []) : Comes [frame] m (.ok true m') :=
  of_execute (execute_of_ok room (cycles_of_idle steps idle (Nat.lt_succ_self k))) rfl

/-- A piece ends where a cycle fails. -/
theorem of_failure {k : Nat} {mid : Machine} {f : Failure} (room : m.frames.length < m.limits.maxDepth)
    (steps : Steps k (entered m frame) mid) (failed : cycle mid = .error f m') :
    Comes [frame] m
      (.error f { m' with frames := [], operands := m'.operands.truncate m.operands.size }) :=
  of_execute (execute_of_error room (cycles_of_failure steps failed (Nat.lt_succ_self k))) trivial

theorem execute_eq (h : Comes [frame] m result) : ∃ bound, execute bound frame m = result := by
  obtain ⟨-, bound, executed⟩ := h
  exact ⟨bound, executeAll_one.symm.trans executed⟩

theorem append {front back : List Frame} (first : Comes front m (.ok true m'))
    (others : Comes back m' result) : Comes (front ++ back) m result := by
  obtain ⟨ended, bound, executed⟩ := first
  obtain ⟨final, bound', executed'⟩ := others
  refine ⟨final, max bound bound', ?_⟩
  rw [executeAll_append, executeAll_mono (executed.symm ▸ ended) (Nat.le_max_left bound bound'), executed]
  exact (executeAll_mono (executed'.symm ▸ final) (Nat.le_max_right bound bound')).trans executed'

theorem cons (first : Comes [frame] m (.ok true m')) (others : Comes frames m' result) :
    Comes (frame :: frames) m result :=
  first.append others

/-- Where the later pieces do not end within a bound, neither do all of them. -/
theorem running {bound : Nat} {last : Machine} (first : Comes [frame] m (.ok true m'))
    (others : executeAll bound frames m' = .ok false last) :
    ∃ last, executeAll bound (frame :: frames) m = .ok false last := by
  rw [executeAll_cons]
  cases executed : execute bound frame m with
  | ok ended mid =>
    cases ended with
    | true =>
      cases (of_execute executed rfl).eq first
      exact ⟨last, others⟩
    | false => exact ⟨mid, rfl⟩
  | error f mid => cases (of_execute executed trivial).eq first

theorem cons_error {f : Failure} (first : Comes [frame] m (.error f m')) :
    Comes (frame :: frames) m (.error f m') := by
  obtain ⟨bound, executed⟩ := first.execute_eq
  exact ⟨trivial, bound, by rw [executeAll_cons, executed]⟩

end Comes

end Monogram
