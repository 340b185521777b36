import Monogram.Proofs.Machine.Mirroring

/-! # Slots hold what has been stored last

Nothing but a store into a slot changes what the slot holds, whichever frame carries it out and however
the run ends.  So a slot holds what has been stored into it last, zero before that, and this is what is
read from it.

* `Machine.due?`, `Machine.stores?` — what the next cycle carries out, and what it stores into a slot.
* `lastStored` — what is stored into a slot last in a number of cycles.
* `Tracks` — at each cycle the slot holds what has been stored last.
* `tracks_run` — so it does in a run of a program.
* `cycle_of_loadSlot` — what is read from a slot is what it holds.
-/

namespace Monogram

open Monogram.Action

variable {m m' : Machine} {frame : Frame} {below : List Frame} {slot : Nat}

/-! ## What a cycle stores -/

namespace Machine

/-- The instruction that the next cycle carries out, if it carries one out. -/
def due? (m : Machine) : Option Instruction :=
  if m.carriesOut then m.frames.head?.bind fun frame => frame.code.instructions[frame.next]? else none

/-- What the next cycle stores into the slot, if it stores anything there. -/
def stores? (m : Machine) (slot : Nat) : Option Value :=
  match m.due? with
  | some (.storeSlot other) => if other = slot then m.operands.peek? else none
  | _ => none

/-- What the slot holds, zero before the first store. -/
def held (m : Machine) (slot : Nat) : Value := (m.slot? slot).getD .zero

theorem due?_of_idle (idle : m.frames = []) : m.due? = none := by
  unfold due?
  rw [idle]
  exact ite_self none

theorem due?_of_none (running : m.frames = frame :: below)
    (ended : frame.code.instructions[frame.next]? = none) : m.due? = none := by
  unfold due?
  rw [running, List.head?_cons, Option.bind_some, ended, ite_self]

theorem due?_of_spent {limit : Nat} (spent : cycle m = .error (.instructions limit) m') :
    m.due? = none := by
  have turned : m.carriesOut = false := by rw [carriesOut, spent, Bool.and_false]
  rw [due?, turned]
  rfl

theorem due?_of_some {i : Instruction} (running : m.frames = frame :: below)
    (here : frame.code.instructions[frame.next]? = some i)
    (carried : ∀ limit m', cycle m ≠ .error (.instructions limit) m') : m.due? = some i := by
  have carries : m.carriesOut = true := by
    rw [carriesOut, fetches_of_some running here, Bool.true_and]
    cases cycled : cycle m with
    | ok more m' => rfl
    | error f m' =>
      cases f with
      | instructions limit => exact absurd cycled (carried limit m')
      | _ => rfl
  rw [due?, if_pos carries, running, List.head?_cons, Option.bind_some, here]

/-- What is due is the instruction that the frame that runs goes on with. -/
theorem exists_of_due? {i : Instruction} (due : m.due? = some i) :
    m.carriesOut = true
    ∧ ∃ frame below, m.frames = frame :: below ∧ frame.code.instructions[frame.next]? = some i := by
  unfold due? at due
  split at due
  · next carries =>
    cases running : m.frames with
    | nil =>
      rw [running] at due
      cases due
    | cons frame below =>
      rw [running] at due
      exact ⟨carries, frame, below, rfl, due⟩
  · cases due

theorem stores?_of_other {i : Instruction} (running : m.frames = frame :: below)
    (here : frame.code.instructions[frame.next]? = some i) (other : ∀ slot, i ≠ .storeSlot slot) :
    m.stores? slot = none := by
  unfold stores?
  split
  · next due =>
    obtain ⟨-, frame', below', running', there⟩ := exists_of_due? due
    cases running.symm.trans running'
    exact absurd (Option.some.inj (here.symm.trans there)) (other _)
  · rfl

theorem stores?_of_storeSlot {target : Nat} (due : m.due? = some (.storeSlot target)) :
    m.stores? slot = if target = slot then m.operands.peek? else none := by
  rw [stores?, due]

theorem stores?_of_none (due : m.due? = none) : m.stores? slot = none := by
  unfold stores?
  rw [due]

end Machine

namespace Action

theorem slots_assign (name : String) (v : Value) (m : Machine) :
    (reached (assign name v m)).slots = m.slots := by
  by_cases bound : name = "this" ∧ m.this.isSome
  · obtain ⟨rfl, bound⟩ := bound
    have neutral : Neutral (modifyFrame fun frame => { frame with this := some v }) :=
      .modifyFrame (fun _ _ => rfl) fun _ => rfl
    rw [assign_this v bound]
    exact (neutral.untouched m).slots
  · rw [assign_global bound]
    rfl

/-- An instruction other than a store into a slot leaves all slots as they are. -/
theorem slots_step {i : Instruction} (other : ∀ slot, i ≠ .storeSlot slot) (m : Machine) :
    (reached (step i m)).slots = m.slots := by
  cases i with
  | storeSlot slot => exact absurd rfl (other slot)
  | loadSlot slot => rfl
  | loadName name =>
    simp only [step, bind_apply, lookup_apply]
    rfl
  | storeName name =>
    have still := Neutral.composes.peek.untouched m
    simp only [step, bind_apply]
    cases done : peek m with
    | error f m₁ =>
      rw [done] at still
      exact still.slots
    | ok v m₁ =>
      rw [done] at still
      have stored := slots_assign name v m₁
      simp only
      cases assigned : assign name v m₁ with
      | error f m₂ =>
        rw [assigned] at stored
        exact stored.trans still.slots
      | ok _ m₂ =>
        rw [assigned] at stored
        exact stored.trans still.slots
  | _ => exact ((Neutral.step rfl rfl).untouched m).slots

/-- A store into a slot puts the operand on top there. -/
theorem step_storeSlot_apply (slot : Nat) (m : Machine) :
    step (.storeSlot slot) m
      = match m.operands.peek? with
        | none => .error (.fault .operandUnderflow) m
        | some v => .ok .next { m with
            slots := (m.slots ++ Array.replicate (slot + 1 - m.slots.size) Value.zero).setIfInBounds slot v } := by
  simp only [step, peek, bind_apply, get_apply]
  cases m.operands.peek? <;> rfl

theorem slots_closing (r : EStateM.Result Failure Machine Flow) :
    (reached (closing r)).slots = (reached r).slots := by
  cases r with
  | ok flow m => cases flow <;> rfl
  | error f m => rfl

theorem held_of_slots (same : m'.slots = m.slots) (slot : Nat) : m'.held slot = m.held slot := by
  rw [Machine.held, Machine.held, Machine.slot?, Machine.slot?, same]

theorem held_of_other {i : Instruction} (running : m.frames = frame :: below)
    (here : frame.code.instructions[frame.next]? = some i) (other : ∀ slot, i ≠ .storeSlot slot)
    (carried : cycle m = closing (step i (fetched m frame below))) :
    (reached (cycle m)).held slot = (m.stores? slot).getD (m.held slot) := by
  rw [carried, Machine.stores?_of_other running here other]
  exact held_of_slots ((slots_closing _).trans (slots_step other (fetched m frame below))) slot

theorem held_of_storeSlot {target : Nat} (running : m.frames = frame :: below)
    (here : frame.code.instructions[frame.next]? = some (.storeSlot target))
    (carried : cycle m = closing (step (.storeSlot target) (fetched m frame below))) :
    (reached (cycle m)).held slot = (m.stores? slot).getD (m.held slot) := by
  rw [step_storeSlot_apply] at carried
  cases top : m.operands.peek? with
  | none =>
    have taken : (fetched m frame below).operands.peek? = none := top
    rw [taken] at carried
    have due := Machine.due?_of_some running here fun _ _ => by rw [carried]; exact nofun
    rw [carried, Machine.stores?_of_storeSlot due, top, ite_self]
    rfl
  | some v =>
    have taken : (fetched m frame below).operands.peek? = some v := top
    rw [taken] at carried
    have due := Machine.due?_of_some running here fun _ _ => by rw [carried]; exact nofun
    rw [carried, Machine.stores?_of_storeSlot due, top]
    refine (getD_stored m.slots target v slot).trans ?_
    split <;> rfl

/-- Behind a cycle a slot holds what the cycle has stored there, or what it held before. -/
theorem held_cycle (m : Machine) (slot : Nat) :
    (reached (cycle m)).held slot = (m.stores? slot).getD (m.held slot) := by
  cases running : m.frames with
  | nil =>
    rw [cycle_idle running, Machine.stores?_of_none (Machine.due?_of_idle running)]
    rfl
  | cons frame below =>
    cases here : frame.code.instructions[frame.next]? with
    | none =>
      rw [cycle_end running here, Machine.stores?_of_none (Machine.due?_of_none running here)]
      rfl
    | some i =>
      rcases cycle_cases running here with ⟨-, carried⟩ | ⟨limit, spent⟩
      · cases i with
        | storeSlot target => exact held_of_storeSlot running here carried
        | _ => exact held_of_other running here nofun carried
      · rw [spent, Machine.stores?_of_none (Machine.due?_of_spent spent)]
        rfl

/-- A cycle that carries out a read of a slot pushes what the slot holds. -/
theorem cycle_of_loadSlot (due : m.due? = some (.loadSlot slot)) :
    ∃ m', cycle m = .ok true m' ∧ m'.operands = m.operands.push (m.held slot) := by
  obtain ⟨-, frame, below, running, here⟩ := Machine.exists_of_due? due
  rcases cycle_cases running here with ⟨-, carried⟩ | ⟨limit, spent⟩
  · refine ⟨_, carried, ?_⟩
    show m.operands.push (m.slots.getD slot .zero) = _
    rw [Array.getD_eq_getD_getElem?]
    rfl
  · rw [Machine.due?_of_spent spent] at due
    cases due

end Action

/-! ## What is stored last -/

/-- What is stored into the slot last in these cycles, and what it held before if nothing is. -/
def lastStored (slot : Nat) (before : Value) (steps : List Machine) : Value :=
  (steps.filterMap fun m => m.stores? slot).getLast?.getD before

theorem lastStored_cons (slot : Nat) (before : Value) (m : Machine) (steps : List Machine) :
    lastStored slot before (m :: steps) = lastStored slot ((m.stores? slot).getD before) steps := by
  unfold lastStored
  rw [List.filterMap_cons]
  cases m.stores? slot with
  | none => rfl
  | some v => rw [List.getLast?_cons]; rfl

theorem lastStored_append (slot : Nat) (before : Value) (steps more : List Machine) :
    lastStored slot before (steps ++ more) = lastStored slot (lastStored slot before steps) more := by
  induction steps generalizing before with
  | nil => rfl
  | cons m rest ih => rw [List.cons_append, lastStored_cons, lastStored_cons, ih]

/-- Where these cycles start the slot holds what has been stored into it last, and behind them it holds
the second value. -/
structure Tracks (slot : Nat) (before : Value) (steps : List Machine) (behind : Value) : Prop where
  holds : ∀ front m back, steps = front ++ m :: back → m.held slot = lastStored slot before front
  behind : behind = lastStored slot before steps

namespace Tracks

variable {v v' v'' : Value} {steps more : List Machine}

theorem nil (slot : Nat) (v : Value) : Tracks slot v [] v := by
  refine ⟨fun front m back same => ?_, rfl⟩
  have shorter := congrArg List.length same
  simp at shorter

theorem cons (m : Machine) (others : Tracks slot ((m.stores? slot).getD (m.held slot)) steps v) :
    Tracks slot (m.held slot) (m :: steps) v := by
  refine ⟨fun front x back same => ?_, by rw [lastStored_cons]; exact others.behind⟩
  cases front with
  | nil =>
    obtain ⟨rfl, -⟩ := List.cons.inj same
    rfl
  | cons y front =>
    obtain ⟨rfl, rest⟩ := List.cons.inj same
    rw [lastStored_cons]
    exact others.holds front x back rest

theorem append (first : Tracks slot v steps v') (others : Tracks slot v' more v'') :
    Tracks slot v (steps ++ more) v'' := by
  refine ⟨fun front m back same => ?_, by rw [lastStored_append, ← first.behind]; exact others.behind⟩
  rcases List.append_eq_append_iff.1 same with ⟨between, rfl, rest⟩ | ⟨between, rfl, rest⟩
  · rw [lastStored_append, ← first.behind]
    exact others.holds between m back rest
  · cases between with
    | nil =>
      rw [List.append_nil] at first
      have start := others.holds [] m back rest.symm
      exact start.trans first.behind
    | cons x between =>
      obtain ⟨rfl, -⟩ := List.cons.inj rest
      exact first.holds front _ between rfl

end Tracks

namespace Action

theorem tracks_cycles (bound : Nat) (m : Machine) (slot : Nat) :
    Tracks slot (m.held slot) (cyclesTrace bound m) ((reached (cycles bound m)).held slot) := by
  induction bound generalizing m with
  | zero => exact .nil slot _
  | succ bound ih =>
    have first := held_cycle m slot
    simp only [cycles, bind_apply, cyclesTrace]
    refine .cons m ?_
    rw [← first]
    cases cycle m with
    | ok more m₁ =>
      cases more with
      | true => exact ih m₁
      | false => exact .nil slot _
    | error f m₁ => exact .nil slot _

theorem tracks_execute (bound : Nat) (frame : Frame) (m : Machine) (slot : Nat) :
    Tracks slot (m.held slot) (executeTrace bound frame m) ((reached (execute bound frame m)).held slot) := by
  by_cases room : m.frames.length < m.limits.maxDepth
  · obtain ⟨run, steps⟩ := execute_of_room bound frame room
    have inside := tracks_cycles bound (entered m frame) slot
    -- A failure leaves the slots as they are.
    have left : ∀ r, (reached (discarding m.operands.size r)).held slot = (reached r).held slot := by
      intro r
      cases r <;> rfl
    rw [← left] at inside
    exact steps ▸ run ▸ inside
  · have full : m.limits.maxDepth ≤ m.frames.length := Nat.le_of_not_lt room
    rw [execute_of_full bound full, executeTrace, pushFrame_apply, if_pos full]
    exact .nil slot _

theorem tracks_executeAll (bound : Nat) (frames : List Frame) (m : Machine) (slot : Nat) :
    Tracks slot (m.held slot) (executeAllTrace bound frames m)
      ((reached (executeAll bound frames m)).held slot) := by
  induction frames generalizing m with
  | nil => exact .nil slot _
  | cons frame rest ih =>
    have first := tracks_execute bound frame m slot
    rw [executeAll_cons, executeAllTrace]
    cases done : execute bound frame m with
    | ok ended m₁ =>
      rw [done] at first
      cases ended with
      | true => exact first.append (ih m₁)
      | false => exact first.append (.nil slot _)
    | error f m₁ =>
      rw [done] at first
      exact first.append (.nil slot _)

/-- At each cycle of a program a slot holds what has been stored into it last. -/
theorem tracks_run (bound : Nat) (p : Program) (m : Machine) (slot : Nat) :
    Tracks slot (m.held slot) (runTrace bound p m) ((reached (run bound p m)).held slot) := by
  rw [run_eq, runTrace]
  exact tracks_executeAll bound p.pieces (m.loading p) slot

end Action

end Monogram
