import Monogram.Proofs.Machine.Alike

/-! # Limits on resources

A run under limits goes exactly as one without, up to the cycle that would use more than they allow;
there it ends with the limit as its failure, whatever handlers are open.

* `Action.cyclesTrace`, `Machine.carriesOut` — what cycles use.
* `CycleOutcome` — a cycle apart from limits, and what limits make of it.
* `cycles_limited`, `cycles_admits`, `cycles_final` — cycles one after the other.
-/

namespace Monogram

open Monogram.Action

/-! ## What limits allow -/

namespace Limits

/-- So many instructions of one run are allowed. -/
def Allows (l : Limits) (instructions : Nat) : Prop :=
  ∀ limit, l.maxInstructions = some limit → instructions ≤ limit

/-- The machine has used no more than is allowed. -/
def Holds (l : Limits) (m : Machine) : Prop :=
  m.frames.length ≤ l.maxDepth ∧ l.Allows m.executed

end Limits

/-! ## What a run uses -/

/-- Whether the frame that runs has an instruction to go on with. -/
def Machine.fetches (m : Machine) : Bool :=
  match m.frames with
  | [] => false
  | frame :: _ => (frame.code.instructions[frame.next]?).isSome

/-- Whether the next cycle carries out an instruction, and does not turn it down. -/
def Machine.carriesOut (m : Machine) : Bool :=
  m.fetches && match cycle m with
    | .error (.instructions _) _ => false
    | _ => true

namespace Action

/-- The machines in front of each cycle. -/
def cyclesTrace : Nat → Machine → List Machine
  | 0, _ => []
  | bound + 1, m =>
    m :: match cycle m with
      | .ok true m' => cyclesTrace bound m'
      | _ => []

end Action

/-- The run has come to an end, and not for want of resources. -/
def Finishes : EStateM.Result Failure Machine Bool → Prop
  | .ok ended _ => ended = true
  | .error f _ => f.isLimit = false

/-- The run has met a limit before it had printed all of the text. -/
def CutShort (r : EStateM.Result Failure Machine Bool) (output : String) : Prop :=
  ∃ f m, r = .error f m ∧ f.isLimit = true ∧ ∃ more, output = m.console.output ++ more

theorem CutShort.not_finishes {r : EStateM.Result Failure Machine Bool} {output : String}
    (cut : CutShort r output) : ¬ Finishes r := by
  obtain ⟨f, m, rfl, limit, -⟩ := cut
  intro finishes
  cases limit.symm.trans finishes

/-! ## One cycle -/

/-- What the next cycle comes to apart from limits, and what it comes to under limits that the machine
has kept so far. -/
structure CycleOutcome (m : Machine) (r : EStateM.Result Failure Machine Bool) : Prop where
  executed : (reached r).executed = m.executed + if m.fetches then 1 else 0
  printed : ∃ more, (reached r).console.output = m.console.output ++ more
  frames : (reached r).frames.length ≤ if m.fetches then m.frames.length + 1 else m.frames.length - 1
  fails : ∀ f m', r = .error f m' → f.isLimit = false ∧ m'.frames.length ≤ m.frames.length
  within : ∀ l : Limits, l.Holds (reached r) → cycle (m.under l) = l.on r
  beyond : ∀ l : Limits, l.Holds m → ¬ l.Holds (reached r) →
    CutShort (cycle (m.under l)) (reached r).console.output

variable {m : Machine} {frame : Frame} {below : List Frame}

theorem Machine.fetches_of_some {i : Instruction} (running : m.frames = frame :: below)
    (here : frame.code.instructions[frame.next]? = some i) : m.fetches = true := by
  rw [fetches, running]
  exact congrArg Option.isSome here

theorem Machine.fetches_of_none (running : m.frames = frame :: below)
    (ended : frame.code.instructions[frame.next]? = none) : m.fetches = false := by
  rw [fetches, running]
  exact congrArg Option.isSome ended

theorem cutShort_of_spent {i : Instruction} {l : Limits} {limit : Nat} {output : String}
    (running : m.frames = frame :: below) (here : frame.code.instructions[frame.next]? = some i)
    (limited : l.maxInstructions = some limit) (spent : limit ≤ m.executed)
    (printed : ∃ more, output = m.console.output ++ more) : CutShort (cycle (m.under l)) output :=
  ⟨_, _, cycle_spent (m := m.under l) running here limited spent, rfl, printed⟩

theorem Limits.spares_of_allows {l : Limits} (allowed : l.Allows (m.executed + 1)) : l.setting.Spares m :=
  fun limit limited => allowed limit limited

theorem outcome_of_idle (idle : m.frames = []) : CycleOutcome m (.ok false m) where
  executed := by rw [Machine.fetches, idle]; rfl
  printed := ⟨"", String.append_empty.symm⟩
  frames := by
    show m.frames.length ≤ _
    rw [idle]
    exact Nat.zero_le _
  fails _ _ := nofun
  within l _ := cycle_idle (m := m.under l) idle
  beyond _ holds broken := absurd holds broken

theorem outcome_of_end (running : m.frames = frame :: below)
    (ended : frame.code.instructions[frame.next]? = none) : CycleOutcome m (cycle m) := by
  have left := cycle_end running ended
  have quiet := Machine.fetches_of_none running ended
  have within : ∀ l : Limits, cycle (m.under l) = l.on (cycle m) := by
    intro l
    have fetches := l.fetches_setting frame below
    rw [ended] at fetches
    rw [← l.placed_setting, cycle_end_alike running ended fetches, l.result_setting]
  constructor
  case executed =>
    rw [left, quiet]
    rfl
  case printed =>
    rw [left]
    exact ⟨"", String.append_empty.symm⟩
  case frames =>
    rw [left, quiet, running]
    exact Nat.le_refl _
  case fails =>
    intro f m' fails
    rw [left] at fails
    cases fails
  case within => exact fun l _ => within l
  case beyond =>
    -- To end a frame uses nothing, so limits that have held still hold.
    intro l holds broken
    refine absurd ⟨?_, ?_⟩ broken
    · have fewer : below.length ≤ m.frames.length := by
        rw [running]
        exact Nat.le_succ _
      rw [left]
      exact Nat.le_trans fewer holds.1
    · rw [left]
      exact holds.2

/-- Limits that have been kept so far are broken by one instruction more, or one frame more. -/
theorem Limits.broken_cases {l : Limits} {m' : Machine} (holds : l.Holds m)
    (executed : m'.executed = m.executed + 1) (broken : ¬ l.Holds m') :
    (∃ limit, l.maxInstructions = some limit ∧ limit ≤ m.executed)
    ∨ l.Allows (m.executed + 1) ∧ m.frames.length < m'.frames.length
        ∧ l.maxDepth < m'.frames.length := by
  by_cases allowed : l.Allows (m.executed + 1)
  · have deep : l.maxDepth < m'.frames.length := by
      by_contra shallow
      exact broken ⟨Nat.le_of_not_lt shallow, executed ▸ allowed⟩
    exact .inr ⟨allowed, Nat.lt_of_le_of_lt holds.1 deep, deep⟩
  · simp only [Allows, not_forall] at allowed
    obtain ⟨limit, limited, spent⟩ := allowed
    exact .inl ⟨limit, limited, by omega⟩

theorem outcome_of_instruction {i : Instruction} (running : m.frames = frame :: below)
    (here : frame.code.instructions[frame.next]? = some i) : ∃ r, CycleOutcome m r := by
  have fetching := Machine.fetches_of_some running here
  have length : (fetched m frame below).frames.length = m.frames.length := by
    rw [running]
    rfl
  have found : ∀ l : Limits, l.setting.Fetches frame below (some i) :=
    fun l => here ▸ l.fetches_setting frame below
  rcases cycle_alike running i with
    ⟨r, precedes, unlimited, cycled⟩ | ⟨callee, m₁, precedes, same, cycled⟩
  · -- The instruction does the same under all limits.
    have executed : (reached r).executed = m.executed + 1 := precedes.executed
    have frames : (reached r).frames.length ≤ m.frames.length := length ▸ precedes.depth
    refine ⟨r, ?_, precedes.printed, ?_, fun f m' fails => ?_, fun l holds => ?_, fun l holds broken => ?_⟩
    · rw [executed, fetching]
      rfl
    · rw [fetching, if_pos rfl]
      exact Nat.le_succ_of_le frames
    · subst fails
      exact ⟨unlimited f m' rfl, frames⟩
    · have spares : l.setting.Spares m := l.spares_of_allows (executed ▸ holds.2)
      rw [← l.placed_setting, cycled _ spares (found l), l.result_setting]
    · rcases l.broken_cases holds executed broken with ⟨limit, limited, spent⟩ | ⟨-, deeper, -⟩
      · exact cutShort_of_spent running here limited spent precedes.printed
      · omega
  · -- A frame starts, unless there are too many.
    have executed : (entered m₁ callee).executed = m.executed + 1 := precedes.executed
    have depth : m₁.frames.length = m.frames.length := by rw [same, length]
    refine ⟨.ok true (entered m₁ callee), ?_, precedes.printed, ?_, fun _ _ => nofun, fun l holds => ?_,
      fun l holds broken => ?_⟩
    · rw [fetching]
      exact executed
    · rw [fetching, if_pos rfl, ← depth]
      exact Nat.le_refl _
    · have spares : l.setting.Spares m := l.spares_of_allows (executed ▸ holds.2)
      have room : ¬ l.maxDepth ≤ m₁.frames.length := Nat.not_le.2 holds.1
      rw [← l.placed_setting, cycled _ spares (found l), ← l.result_setting]
      exact if_neg room
    · rcases l.broken_cases holds executed broken with ⟨limit, limited, spent⟩ | ⟨allowed, -, deep⟩
      · exact cutShort_of_spent running here limited spent precedes.printed
      · have spares : l.setting.Spares m := l.spares_of_allows allowed
        have full : l.maxDepth ≤ m₁.frames.length := Nat.le_of_lt_succ deep
        rw [← l.placed_setting, cycled _ spares (found l)]
        exact ⟨_, _, if_pos full, rfl, "", String.append_empty.symm⟩

/-- What the next cycle comes to. -/
theorem exists_outcome (m : Machine) : ∃ r, CycleOutcome m r := by
  cases running : m.frames with
  | nil => exact ⟨_, outcome_of_idle running⟩
  | cons frame below =>
    cases here : frame.code.instructions[frame.next]? with
    | none => exact ⟨_, outcome_of_end running here⟩
    | some i => exact outcome_of_instruction running here

/-! ## Cycles one after the other -/

section Unrolling

variable {m₁ : Machine} {f : Failure}

theorem cycles_of_next (bound : Nat) (cycled : cycle m = .ok true m₁) :
    cycles (bound + 1) m = cycles bound m₁ := by
  simp only [cycles, bind_apply, cycled, if_true]

theorem cycles_of_none (bound : Nat) (cycled : cycle m = .ok false m₁) :
    cycles (bound + 1) m = .ok true m₁ := by
  simp only [cycles, bind_apply, cycled, Bool.false_eq_true, if_false, pure_apply]

theorem cycles_of_error (bound : Nat) (cycled : cycle m = .error f m₁) :
    cycles (bound + 1) m = .error f m₁ := by
  simp only [cycles, bind_apply, cycled]

theorem cyclesTrace_of_next (bound : Nat) (cycled : cycle m = .ok true m₁) :
    cyclesTrace (bound + 1) m = m :: cyclesTrace bound m₁ := by
  rw [cyclesTrace, cycled]

theorem cyclesTrace_of_none (bound : Nat) (cycled : cycle m = .ok false m₁) :
    cyclesTrace (bound + 1) m = [m] := by
  rw [cyclesTrace, cycled]

theorem cyclesTrace_of_error (bound : Nat) (cycled : cycle m = .error f m₁) :
    cyclesTrace (bound + 1) m = [m] := by
  rw [cyclesTrace, cycled]

end Unrolling

theorem cyclesTrace_head {bound : Nat} (finishes : Finishes (cycles bound m)) :
    m ∈ cyclesTrace bound m := by
  cases bound with
  | zero => cases finishes
  | succ bound => exact List.mem_cons_self

namespace CutShort

variable {r : EStateM.Result Failure Machine Bool} {output : String}

theorem append (cut : CutShort r output) (more : String) : CutShort r (output ++ more) := by
  obtain ⟨f, m, failed, limit, rest, rfl⟩ := cut
  exact ⟨f, m, failed, limit, rest ++ more, String.append_assoc⟩

theorem cycles (cut : CutShort (cycle m) output) (bound : Nat) :
    CutShort (cycles (bound + 1) m) output := by
  obtain ⟨f, m', failed, limit, printed⟩ := cut
  exact ⟨f, m', cycles_of_error bound failed, limit, printed⟩

end CutShort

/-- One cycle of a run that finishes, under limits that it keeps. -/
inductive Finishing (l : Limits) (bound : Nat) (m : Machine) : Prop where
  | goesOn {m₁ : Machine} (outcome : CycleOutcome m (.ok true m₁)) (kept : l.Holds m₁)
    (cycled : cycle (m.under l) = .ok true (m₁.under l))
    (finishes : Finishes (cycles bound (m₁.under l)))
  | ends {m₁ : Machine} (outcome : CycleOutcome m (.ok false m₁)) (kept : l.Holds m₁)
    (cycled : cycle (m.under l) = .ok false (m₁.under l))
  | fails {f : Failure} {m₁ : Machine} (outcome : CycleOutcome m (.error f m₁)) (kept : l.Holds m₁)
    (cycled : cycle (m.under l) = .error f (m₁.under l))

theorem Finishing.of_finishes {l : Limits} {bound : Nat} (holds : l.Holds m)
    (finishes : Finishes (cycles (bound + 1) (m.under l))) : Finishing l bound m := by
  obtain ⟨r, outcome⟩ := exists_outcome m
  have kept : l.Holds (reached r) := by
    by_contra broken
    exact ((outcome.beyond l holds broken).cycles bound).not_finishes finishes
  have cycled := outcome.within l kept
  rcases r with ⟨_ | _, m₁⟩ | ⟨f, m₁⟩
  · exact .ends outcome kept cycled
  · exact .goesOn outcome kept cycled (cycles_of_next bound cycled ▸ finishes)
  · exact .fails outcome kept cycled

namespace CycleOutcome

variable {r : EStateM.Result Failure Machine Bool} {l : Limits}

/-- Where nothing is left to do nothing is used. -/
theorem of_idle {m' : Machine} (outcome : CycleOutcome m (.ok false m')) :
    m.fetches = false ∧ ∀ l : Limits, l.Holds m → l.Holds m' := by
  -- The outcome speaks of limits that hold, so some are needed that surely do.
  have ends : cycle (m.under ⟨m'.frames.length, none⟩) = .ok false (m'.under ⟨m'.frames.length, none⟩) :=
    outcome.within _ ⟨Nat.le_refl _, fun _ => nofun⟩
  have idle : m.frames = [] := (idle_of_cycle ends).1
  have quiet : m.fetches = false := by rw [Machine.fetches, idle]
  have frames : m'.frames.length ≤ _ := outcome.frames
  have executed : m'.executed = _ := outcome.executed
  rw [quiet, if_neg Bool.false_ne_true] at frames executed
  exact ⟨quiet, fun l holds => ⟨by have := holds.1; omega, executed ▸ holds.2⟩⟩

/-- Within the limits an instruction is carried out. -/
theorem carriesOut (outcome : CycleOutcome m r) (kept : l.Holds (reached r)) :
    (m.under l).carriesOut = m.fetches := by
  have same : (m.under l).fetches = m.fetches := rfl
  rw [Machine.carriesOut, outcome.within l kept, same]
  cases r with
  | ok more m' => exact Bool.and_true _
  | error f m' =>
    have unlimited := (outcome.fails f m' rfl).1
    cases f with
    | instructions limit => cases unlimited
    | _ => exact Bool.and_true _

theorem executed_carriesOut (outcome : CycleOutcome m r) (kept : l.Holds (reached r)) :
    (reached r).executed = m.executed + if (m.under l).carriesOut then 1 else 0 :=
  outcome.carriesOut kept ▸ outcome.executed

end CycleOutcome

/-- What the machines of a trace have used, on top of the instructions before, is allowed. -/
def Limits.Admits (l : Limits) (before : Nat) (trace : List Machine) : Prop :=
  l.Allows (before + trace.countP Machine.carriesOut) ∧ ∀ x ∈ trace, x.frames.length ≤ l.maxDepth

theorem Limits.Allows.mono {l : Limits} {n n' : Nat} (allowed : l.Allows n') (fewer : n ≤ n') :
    l.Allows n :=
  fun limit limited => Nat.le_trans fewer (allowed limit limited)

theorem Limits.admits_cons {l : Limits} {before after : Nat} {x : Machine} {trace : List Machine}
    (executed : after = before + if x.carriesOut then 1 else 0) (shallow : x.frames.length ≤ l.maxDepth) :
    l.Admits before (x :: trace) ↔ l.Admits after trace := by
  have sum : before + (x :: trace).countP Machine.carriesOut
      = after + trace.countP Machine.carriesOut := by
    rw [List.countP_cons, executed]
    omega
  rw [Admits, Admits, sum, List.forall_mem_cons]
  exact and_congr_right fun _ => and_iff_right shallow

theorem Limits.admits_nil {l : Limits} {before : Nat} : l.Admits before [] ↔ l.Allows before :=
  and_iff_left fun _ => nofun

section Runs

variable {l l' : Limits}

theorem cycles_printed {bound : Nat} (holds : l.Holds m)
    (finishes : Finishes (cycles bound (m.under l))) :
    ∃ more, (reached (cycles bound (m.under l))).console.output = m.console.output ++ more := by
  induction bound generalizing m with
  | zero => cases finishes
  | succ bound ih =>
    cases Finishing.of_finishes holds finishes with
    | goesOn outcome kept cycled others =>
      obtain ⟨more, printed⟩ := outcome.printed
      obtain ⟨more', printed'⟩ := ih kept others
      rw [cycles_of_next bound cycled]
      refine ⟨more ++ more', ?_⟩
      rw [printed', ← String.append_assoc, ← printed]
      rfl
    | ends outcome kept cycled =>
      rw [cycles_of_none bound cycled]
      exact outcome.printed
    | fails outcome kept cycled =>
      rw [cycles_of_error bound cycled]
      exact outcome.printed

theorem cycles_executed {bound : Nat} (holds : l.Holds m)
    (finishes : Finishes (cycles bound (m.under l))) :
    (reached (cycles bound (m.under l))).executed
      = m.executed + (cyclesTrace bound (m.under l)).countP Machine.carriesOut := by
  induction bound generalizing m with
  | zero => cases finishes
  | succ bound ih =>
    -- A cycle counts one instruction exactly where the trace has a machine that carries one out.
    cases Finishing.of_finishes holds finishes with
    | @goesOn m₁ outcome kept cycled others =>
      have first : m₁.executed = _ := outcome.executed_carriesOut kept
      rw [cycles_of_next bound cycled, cyclesTrace_of_next bound cycled, ih kept others, first,
        List.countP_cons]
      omega
    | ends outcome kept cycled =>
      rw [cycles_of_none bound cycled, cyclesTrace_of_none bound cycled, List.countP_singleton]
      exact outcome.executed_carriesOut kept
    | fails outcome kept cycled =>
      rw [cycles_of_error bound cycled, cyclesTrace_of_error bound cycled, List.countP_singleton]
      exact outcome.executed_carriesOut kept

/-- A run that finishes under some limits goes the same under others that admit what it has used, and
is cut short under those that do not. -/
theorem cycles_limited {bound : Nat} (holds : l.Holds m) (holds' : l'.Holds m)
    (finishes : Finishes (cycles bound (m.under l))) :
    (l'.Admits m.executed (cyclesTrace bound (m.under l)) →
      cycles bound (m.under l') = l'.on (cycles bound (m.under l)))
    ∧ (¬ l'.Admits m.executed (cyclesTrace bound (m.under l)) →
      CutShort (cycles bound (m.under l')) (reached (cycles bound (m.under l))).console.output) := by
  -- one cycle under both limits, after which both hold of the same machine or the second is broken
  induction bound generalizing m with
  | zero => cases finishes
  | succ bound ih =>
    cases Finishing.of_finishes holds finishes with
    | @goesOn m₁ outcome kept cycled others =>
      rw [cycles_of_next bound cycled, cyclesTrace_of_next bound cycled,
        Limits.admits_cons (outcome.executed_carriesOut kept) holds'.1]
      by_cases kept' : l'.Holds m₁
      · rw [cycles_of_next bound (outcome.within l' kept')]
        exact ih kept kept' others
      · -- What follows needs no less than the next machine has used.
        obtain ⟨more, printed⟩ := cycles_printed kept others
        refine ⟨fun admitted => absurd ?_ kept', fun _ => ?_⟩
        · have shallow : m₁.frames.length ≤ l'.maxDepth :=
            admitted.2 (m₁.under l) (cyclesTrace_head others)
          exact ⟨shallow, admitted.1.mono (Nat.le_add_right _ _)⟩
        · rw [printed]
          exact ((outcome.beyond l' holds' kept').cycles bound).append more
    | @ends m₁ outcome kept cycled =>
      have kept' : l'.Holds m₁ := outcome.of_idle.2 l' holds'
      rw [cycles_of_none bound cycled, cyclesTrace_of_none bound cycled,
        cycles_of_none bound (outcome.within l' kept'),
        Limits.admits_cons (outcome.executed_carriesOut kept) holds'.1, Limits.admits_nil]
      exact ⟨fun _ => rfl, fun broken => absurd kept'.2 broken⟩
    | @fails f m₁ outcome kept cycled =>
      rw [cycles_of_error bound cycled, cyclesTrace_of_error bound cycled,
        Limits.admits_cons (outcome.executed_carriesOut kept) holds'.1, Limits.admits_nil]
      by_cases kept' : l'.Holds m₁
      · rw [cycles_of_error bound (outcome.within l' kept')]
        exact ⟨fun _ => rfl, fun broken => absurd kept'.2 broken⟩
      · refine ⟨fun admitted => absurd ?_ kept', fun _ => ?_⟩
        · exact ⟨Nat.le_trans (outcome.fails f m₁ rfl).2 holds'.1, admitted⟩
        · exact (outcome.beyond l' holds' kept').cycles bound

theorem allows_of_carriesOut (carries : (m.under l).carriesOut = true) : l.Allows (m.executed + 1) := by
  intro limit limited
  by_contra spent
  rw [Machine.carriesOut, Bool.and_eq_true] at carries
  obtain ⟨fetching, carried⟩ := carries
  cases running : m.frames with
  | nil =>
    rw [Machine.fetches, Machine.under, running] at fetching
    cases fetching
  | cons frame below =>
    cases here : frame.code.instructions[frame.next]? with
    | none => cases (Machine.fetches_of_none running here).symm.trans fetching
    | some i =>
      rw [cycle_spent (m := m.under l) running here limited (by omega : limit ≤ m.executed)] at carried
      cases carried

/-- A run uses no more than its limits admit. -/
theorem cycles_admits (bound : Nat) (holds : l.Holds m) :
    l.Admits m.executed (cyclesTrace bound (m.under l)) := by
  induction bound generalizing m with
  | zero => exact Limits.admits_nil.2 holds.2
  | succ bound ih =>
    -- A trace that ends here has this machine as its last.
    have last : l.Admits m.executed [m.under l] := by
      refine (Limits.admits_cons (x := m.under l) rfl holds.1).2 (Limits.admits_nil.2 ?_)
      cases carries : (m.under l).carriesOut with
      | true => exact allows_of_carriesOut carries
      | false => exact holds.2
    obtain ⟨r, outcome⟩ := exists_outcome m
    by_cases kept : l.Holds (reached r)
    · have cycled := outcome.within l kept
      rcases r with ⟨_ | _, m₁⟩ | ⟨f, m₁⟩
      · rw [cyclesTrace_of_none bound cycled]
        exact last
      · rw [cyclesTrace_of_next bound cycled]
        exact (Limits.admits_cons (outcome.executed_carriesOut kept) holds.1).2 (ih kept)
      · rw [cyclesTrace_of_error bound cycled]
        exact last
    · obtain ⟨f, m', failed, -, -⟩ := outcome.beyond l holds kept
      rw [cyclesTrace_of_error bound failed]
      exact last

/-- With so many cycles a run under a limit on instructions comes to an end: each of them either
carries out an instruction or ends a frame. -/
theorem cycles_final {bound limit : Nat} (limited : l.maxInstructions = some limit) (holds : l.Holds m)
    (enough : 2 * (limit - m.executed) + m.frames.length < bound) :
    Final (cycles bound (m.under l)) := by
  induction bound generalizing m with
  | zero => omega
  | succ bound ih =>
    obtain ⟨r, outcome⟩ := exists_outcome m
    by_cases kept : l.Holds (reached r)
    · have cycled := outcome.within l kept
      rcases r with ⟨_ | _, m₁⟩ | ⟨f, m₁⟩
      · rw [cycles_of_none bound cycled]
        rfl
      · rw [cycles_of_next bound cycled]
        refine ih kept ?_
        have executed : m₁.executed = _ := outcome.executed
        have frames : m₁.frames.length ≤ _ := outcome.frames
        have allowed : m₁.executed ≤ limit := kept.2 limit limited
        -- An instruction takes two from the measure and adds one frame at most; the end of a frame takes
        -- one.
        cases fetching : m.fetches with
        | true =>
          rw [fetching, if_pos rfl] at executed frames
          omega
        | false =>
          rw [fetching, if_neg Bool.false_ne_true] at executed frames
          have running : m.frames.length ≠ 0 := by
            intro none
            have idle : (m.under l).frames = [] := List.length_eq_zero_iff.1 none
            rw [cycle_idle idle] at cycled
            cases cycled
          omega
      · rw [cycles_of_error bound cycled]
        trivial
    · obtain ⟨f, m', failed, -, -⟩ := outcome.beyond l holds kept
      rw [cycles_of_error bound failed]
      trivial

end Runs

end Monogram
