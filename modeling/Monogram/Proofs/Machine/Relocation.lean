import Monogram.Proofs.Machine.Alike
import Monogram.Proofs.Machine.History

/-! # Code at other addresses

The code of the outermost frame may stand at other addresses, in front of and behind other code.  As
long as it goes on within its own instructions the machine does the same.

* `Grounded` — a machine whose outermost frame has started in a given way.
* `Steps.placed` — cycles up to the halt, when other code stands in its place.
* `Action.cycles_placed` — all cycles, when other code stands in front.
-/

namespace Monogram

open Monogram.Action

variable {m m' : Machine} {frame : Frame} {below : List Frame}

/-! ## The outermost frame -/

/-- The outermost frame, if there is one, runs this code, and has started in this way. -/
def Grounded (g : Code × FrameKind × Bool) (m : Machine) : Prop :=
  ∀ g', (m.frames.map Frame.ground).getLast? = some g' → g' = g

theorem Grounded.enter (idle : m.frames = []) (frame : Frame) :
    Grounded frame.ground (entered m frame) := by
  intro g' last
  rw [entered, idle] at last
  exact (Option.some.inj last).symm

theorem Grounded.alone {g : Code × FrameKind × Bool} (grounded : Grounded g m)
    (alone : m.frames = [frame]) : frame.ground = g := by
  refine grounded _ ?_
  rw [alone]
  rfl

/-- What a cycle that succeeds leaves as it is: the limits, and the outermost frame while it lives. -/
structure Keeping (m m' : Machine) : Prop where
  limits : m'.limits = m.limits
  outermost : m'.frames = []
    ∨ (m'.frames.map Frame.ground).getLast? = (m.frames.map Frame.ground).getLast?

theorem outermost_of_suffix {frames frames' : List Frame}
    (suffix : frames'.map Frame.ground <:+ frames.map Frame.ground) :
    frames' = [] ∨ (frames'.map Frame.ground).getLast? = (frames.map Frame.ground).getLast? := by
  obtain ⟨front, same⟩ := suffix
  cases frames' with
  | nil => exact .inl rfl
  | cons top rest => exact .inr (by rw [← same, List.getLast?_append]; rfl)

theorem Action.fetched_ground (running : m.frames = frame :: below) :
    (fetched m frame below).frames.map Frame.ground = m.frames.map Frame.ground := by
  rw [running]
  rfl

/-- A cycle does the same on a machine that is set up with the same limit on frames and none on
instructions, where it finds the same instruction. -/
theorem Action.cycle_placed {σ : Setting} (limits : σ.limits = m.limits)
    (unlimited : m.limits.maxInstructions = none) (running : m.frames = frame :: below)
    (fetches : σ.Fetches frame below frame.code.instructions[frame.next]?) :
    cycle (m.placed σ) = σ.result (cycle m) := by
  cases here : frame.code.instructions[frame.next]? with
  | none => exact cycle_end_alike running here (here ▸ fetches)
  | some i =>
    -- The machine is itself set up in some way, so the two cycles are one cycle in two settings.
    have self : m.placed m.limits.setting = m := m.limits.placed_setting m
    have spares : σ.Spares m := by
      intro limit limited
      rw [limits, unlimited] at limited
      cases limited
    have spares' : m.limits.setting.Spares m := by
      intro limit limited
      cases unlimited.symm.trans limited
    have fetches' : m.limits.setting.Fetches frame below (some i) :=
      here ▸ m.limits.fetches_setting frame below
    rcases cycle_alike running i with ⟨r, -, -, cycled⟩ | ⟨callee, m₁, -, -, cycled⟩
    · have there := cycled σ spares (here ▸ fetches)
      have here := cycled _ spares' fetches'
      rw [self] at here
      rw [there, here, Limits.result_setting, Limits.result_on]
    · have there := cycled σ spares (here ▸ fetches)
      have here := cycled _ spares' fetches'
      have same : m.limits.setting.limits = m.limits := rfl
      rw [self, same] at here
      rw [there, here, limits]
      by_cases full : m.limits.maxDepth ≤ m₁.frames.length
      · rw [if_pos full, if_pos full]
        simp only [Setting.result, Limits.placed_setting, Machine.placed_under]
      · rw [if_neg full, if_neg full]
        simp only [Setting.result, Limits.placed_setting, Machine.placed_under]

theorem Keeping.of_cycle {more : Bool} (cycled : cycle m = .ok more m') : Keeping m m' := by
  cases running : m.frames with
  | nil =>
    rw [cycle_idle running] at cycled
    cases cycled
    exact ⟨rfl, .inl running⟩
  | cons frame below =>
    cases here : frame.code.instructions[frame.next]? with
    | none =>
      rw [cycle_end running here] at cycled
      cases cycled
      refine ⟨rfl, outermost_of_suffix ?_⟩
      rw [running]
      exact List.suffix_cons _ _
    | some i =>
      rcases cycle_cases running here with ⟨spare, -⟩ | ⟨limit, spent⟩
      · have self : m.placed m.limits.setting = m := m.limits.placed_setting m
        -- What a cycle keeps can be seen in any setting, so also in the one that it has.
        have fetches : m.limits.setting.Fetches frame below (some i) :=
          here ▸ m.limits.fetches_setting frame below
        rw [← self] at cycled
        rcases cycle_alike running i with ⟨r, precedes, -, alike⟩ | ⟨callee, m₁, -, same, alike⟩
        · rw [alike m.limits.setting spare fetches, Limits.result_setting] at cycled
          cases r with
          | ok more m₁ =>
            cases cycled
            exact ⟨rfl, outermost_of_suffix (fetched_ground running ▸ precedes.frames)⟩
          | error f m₁ => cases cycled
        · rw [alike m.limits.setting spare fetches] at cycled
          split at cycled
          · cases cycled
          · rw [Limits.placed_setting] at cycled
            cases cycled
            refine ⟨rfl, .inr ?_⟩
            -- The callee comes first, and the frames below it are those of before.
            show (callee.ground :: m₁.frames.map Frame.ground).getLast? = _
            rw [same, fetched_ground running, running]
            rfl
      · rw [spent] at cycled
        cases cycled

theorem Grounded.cycle {g : Code × FrameKind × Bool} (grounded : Grounded g m) {more : Bool}
    (cycled : cycle m = .ok more m') : Grounded g m' := by
  intro g' last
  rcases (Keeping.of_cycle cycled).outermost with none | same
  · rw [none] at last
    cases last
  · exact grounded g' (same ▸ last)

theorem Steps.keeping {g : Code × FrameKind × Bool} {k : Nat} (steps : Steps k m m')
    (grounded : Grounded g m) : Grounded g m' ∧ m'.limits = m.limits := by
  induction steps with
  | refl => exact ⟨grounded, rfl⟩
  | step first others ih =>
    obtain ⟨last, limits⟩ := ih (grounded.cycle first)
    exact ⟨last, limits.trans (Keeping.of_cycle first).limits⟩

/-! ## Up to the halt -/

/-- The instructions of the code, the halt aside, stand where the setting says. -/
def Setting.Contains (σ : Setting) (c : Code) : Prop :=
  ∀ address i, c.instructions[address]? = some i → i ≠ .halt →
    (σ.code c).instructions[address + σ.offset]? = some (i.moved σ.offset)

theorem running_of_steps {k : Nat} (steps : Steps k m m') (running : m'.frames ≠ []) : m.frames ≠ [] := by
  intro idle
  cases steps with
  | refl => exact running idle
  | step first others =>
    rw [cycle_idle idle] at first
    cases first

/-- A frame that is alone and goes on running has an instruction to go on with, and it is no halt. -/
theorem instruction_of_running {more : Bool} (alone : m.frames = [frame])
    (cycled : cycle m = .ok more m') (running : m'.frames ≠ []) :
    ∃ i, frame.code.instructions[frame.next]? = some i ∧ i ≠ .halt := by
  cases here : frame.code.instructions[frame.next]? with
  | none =>
    rw [cycle_end alone here] at cycled
    cases cycled
    exact absurd rfl running
  | some i =>
    refine ⟨i, rfl, fun halt => ?_⟩
    subst halt
    rcases cycle_cases alone here with ⟨-, carried⟩ | ⟨limit, spent⟩
    · rw [carried] at cycled
      cases cycled
      exact running rfl
    · rw [spent] at cycled
      cases cycled

theorem Setting.fetches_inner (σ : Setting) (frame : Frame) (inner : below ≠ []) :
    σ.Fetches frame below frame.code.instructions[frame.next]? := by
  have shift : σ.shift below = 0 := by
    cases below with
    | nil => exact absurd rfl inner
    | cons => rfl
  rw [Fetches, σ.frame_of_ne inner, shift]
  cases frame.code.instructions[frame.next]? <;> simp

theorem Steps.placed {σ : Setting} {c : Code} {kind : FrameKind} {bound : Bool} {k : Nat}
    (steps : Steps k m m') (running : m'.frames ≠ []) (grounded : Grounded (c, kind, bound) m)
    (contains : σ.Contains c) (limits : σ.limits = m.limits)
    (unlimited : m.limits.maxInstructions = none) : Steps k (m.placed σ) (m'.placed σ) := by
  induction steps with
  | refl => exact .refl _
  | @step n m m₁ m₂ first others ih =>
    have alive := running_of_steps others running
    have kept := (Keeping.of_cycle first).limits
    have rest := ih running (grounded.cycle first) (limits.trans kept.symm) (kept ▸ unlimited)
    refine .step ?_ rest
    cases frames : m.frames with
    | nil =>
      rw [cycle_idle frames] at first
      cases first
    | cons frame below =>
      have fetches : σ.Fetches frame below frame.code.instructions[frame.next]? := by
        cases below with
        | nil =>
          have code : frame.code = c := congrArg Prod.fst (grounded.alone frames)
          -- What the outermost frame goes on with is no halt, so it stands in the other code as well.
          obtain ⟨i, here, proper⟩ := instruction_of_running frames first alive
          have there := contains frame.next i (code ▸ here) proper
          rw [← code] at there
          rw [here]
          exact there
        | cons => exact σ.fetches_inner frame (List.cons_ne_nil _ _)
      rw [cycle_placed limits unlimited frames fetches, first]
      rfl

/-! ## Behind other code -/

/-- The code stands where the setting says, and nothing behind it. -/
def Setting.Ends (σ : Setting) (c : Code) : Prop :=
  ∀ address, (σ.code c).instructions[address + σ.offset]?
    = c.instructions[address]?.map (Instruction.moved σ.offset)

/-- The whole run is the same in code that ends with its instructions. -/
theorem Action.cycles_placed {σ : Setting} {c : Code} {kind : FrameKind} {bound : Bool} {n : Nat}
    (grounded : Grounded (c, kind, bound) m) (ends : σ.Ends c) (limits : σ.limits = m.limits)
    (unlimited : m.limits.maxInstructions = none) :
    cycles n (m.placed σ) = σ.result (cycles n m) := by
  -- The halt stands there as well, so here the machines stay together up to the end.
  induction n generalizing m with
  | zero => rfl
  | succ n ih =>
    cases frames : m.frames with
    | nil =>
      have idle : (m.placed σ).frames = [] := congrArg σ.frames frames
      simp only [cycles, bind_apply, cycle_idle frames, cycle_idle idle]
      rfl
    | cons frame below =>
      have fetches : σ.Fetches frame below frame.code.instructions[frame.next]? := by
        cases below with
        | nil =>
          have code : frame.code = c := congrArg Prod.fst (grounded.alone frames)
          subst code
          exact ends frame.next
        | cons => exact σ.fetches_inner frame (List.cons_ne_nil _ _)
      simp only [cycles, bind_apply, cycle_placed limits unlimited frames fetches]
      cases cycled : cycle m with
      | ok more m₁ =>
        have kept := (Keeping.of_cycle cycled).limits
        cases more with
        | true => exact ih (grounded.cycle cycled) (limits.trans kept.symm) (kept ▸ unlimited)
        | false => rfl
      | error f m₁ => rfl

end Monogram
