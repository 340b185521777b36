import Monogram.Lowering.Program
import Monogram.Proofs.Machine.Limits

/-! # Runs of programs under limits

The pieces of a program share one count of instructions.  What is known of cycles under limits holds of
each piece, and of all of them one after the other.

* `Action.runTrace`, `Limits.Suffice` — what a run uses, and limits that allow it.
* `Metered` — what is known of a run under limits.
* `Metered.execute`, `Metered.executeAll` — a piece, and pieces one after the other.
* `Action.run_limited` — limits are exact and change nothing else.
-/

namespace Monogram

open Monogram.Action

/-! ## The machines of a run -/

namespace Action

/-- The machines in front of each cycle of a piece of code. -/
def executeTrace (bound : Nat) (frame : Frame) (m : Machine) : List Machine :=
  match pushFrame frame m with
  | .ok _ m' => cyclesTrace bound m'
  | .error _ _ => []

/-- The machines in front of each cycle of pieces of code. -/
def executeAllTrace (bound : Nat) : List Frame → Machine → List Machine
  | [], _ => []
  | frame :: rest, m =>
    executeTrace bound frame m ++ match execute bound frame m with
      | .ok true m' => executeAllTrace bound rest m'
      | _ => []

/-- The machines in front of each cycle of a program, its static initializers included. -/
def runTrace (bound : Nat) (p : Program) (m : Machine) : List Machine :=
  executeAllTrace bound p.pieces (m.loading p)

end Action

variable {m : Machine} {frame : Frame}

/-! ## Runs that are metered -/

/-- A run and the machines in front of its cycles, as far as limits are concerned. -/
structure Metered (run : Action Bool) (trace : Machine → List Machine) (m : Machine) : Prop where
  printed : ∀ l : Limits, l.Holds m → Finishes (run (m.under l)) →
    ∃ more, (reached (run (m.under l))).console.output = m.console.output ++ more
  executed : ∀ l : Limits, l.Holds m → Finishes (run (m.under l)) →
    (reached (run (m.under l))).executed = m.executed + (trace (m.under l)).countP Machine.carriesOut
  limited : ∀ l l' : Limits, l.Holds m → l'.Holds m → Finishes (run (m.under l)) →
    (l'.Admits m.executed (trace (m.under l)) → run (m.under l') = l'.on (run (m.under l)))
    ∧ (¬ l'.Admits m.executed (trace (m.under l)) →
      CutShort (run (m.under l')) (reached (run (m.under l))).console.output)
  admits : ∀ l : Limits, l.Holds m → l.Admits m.executed (trace (m.under l))

namespace Metered

theorem cycles (bound : Nat) (m : Machine) : Metered (cycles bound) (cyclesTrace bound) m :=
  ⟨fun _ => cycles_printed, fun _ => cycles_executed, fun _ _ => cycles_limited,
    fun _ => cycles_admits bound⟩

/-- Only the limits of a machine are other ones. -/
theorem on_self {run : Action Bool} {trace : Machine → List Machine} (metered : Metered run trace m)
    {l : Limits} (holds : l.Holds m) (finishes : Finishes (run (m.under l))) :
    run (m.under l) = l.on (run (m.under l)) :=
  (metered.limited l l holds holds finishes).1 (metered.admits l holds)

theorem loosened {run : Action Bool} {trace : Machine → List Machine} (metered : Metered run trace m)
    {l : Limits} (holds : l.Holds m) (finishes : Finishes (run (m.under l))) :
    Finishes (run (m.under ⟨l.maxDepth, none⟩)) := by
  have admitted : (Limits.mk l.maxDepth none).Admits m.executed (trace (m.under l)) :=
    ⟨fun _ => nofun, (metered.admits l holds).2⟩
  have same := (metered.limited l ⟨l.maxDepth, none⟩ holds ⟨holds.1, fun _ => nofun⟩ finishes).1 admitted
  rw [same]
  cases result : run (m.under l) with
  | ok ended m' =>
    rw [result] at finishes
    exact finishes
  | error f m' =>
    rw [result] at finishes
    exact finishes

end Metered

/-- What a failure leaves of a result: no frames, and only the operands that were there before. -/
def discarding (size : Nat) : EStateM.Result Failure Machine Bool → EStateM.Result Failure Machine Bool
  | .ok ended m => .ok ended m
  | .error f m => .error f { m with frames := [], operands := m.operands.truncate size }

section Discarding

variable {size : Nat} {r : EStateM.Result Failure Machine Bool}

theorem finishes_discarding : Finishes (discarding size r) ↔ Finishes r := by
  cases r <;> rfl

theorem console_discarding : (reached (discarding size r)).console = (reached r).console := by
  cases r <;> rfl

theorem executed_discarding : (reached (discarding size r)).executed = (reached r).executed := by
  cases r <;> rfl

theorem on_discarding (l : Limits) : l.on (discarding size r) = discarding size (l.on r) := by
  cases r <;> rfl

theorem CutShort.discarding {output : String} (cut : CutShort r output) :
    CutShort (discarding size r) output := by
  obtain ⟨f, m, rfl, limit, printed⟩ := cut
  exact ⟨f, _, rfl, limit, printed⟩

end Discarding

section Pieces

variable {l : Limits} {bound : Nat}

theorem execute_under (room : m.frames.length < l.maxDepth) :
    execute bound frame (m.under l) = discarding m.operands.size (cycles bound ((entered m frame).under l))
    ∧ executeTrace bound frame (m.under l) = cyclesTrace bound ((entered m frame).under l) := by
  constructor
  · cases result : cycles bound ((entered m frame).under l) with
    | ok ended m' => exact execute_of_ok (m := m.under l) room result
    | error f m' => exact execute_of_error (m := m.under l) room result
  · have spare : ¬ (m.under l).limits.maxDepth ≤ (m.under l).frames.length := Nat.not_le.2 room
    rw [executeTrace, pushFrame_apply, if_neg spare]
    rfl

/-- The same under the limits that the machine has. -/
theorem execute_of_room (bound : Nat) (frame : Frame) (room : m.frames.length < m.limits.maxDepth) :
    execute bound frame m = discarding m.operands.size (cycles bound (entered m frame))
    ∧ executeTrace bound frame m = cyclesTrace bound (entered m frame) :=
  execute_under room

theorem execute_under_full (bound : Nat) (frame : Frame) (full : l.maxDepth ≤ m.frames.length) :
    (∀ output, (∃ more, output = m.console.output ++ more) →
      CutShort (execute bound frame (m.under l)) output)
    ∧ executeTrace bound frame (m.under l) = [] := by
  constructor
  · intro output printed
    exact ⟨_, _, execute_of_full bound (m := m.under l) full, rfl, printed⟩
  · have none : (m.under l).limits.maxDepth ≤ (m.under l).frames.length := full
    rw [executeTrace, pushFrame_apply, if_pos none]

theorem Limits.Holds.entered (holds : l.Holds m) (room : m.frames.length < l.maxDepth) :
    l.Holds (entered m frame) :=
  ⟨room, holds.2⟩

theorem Metered.execute (bound : Nat) (frame : Frame) (m : Machine) :
    Metered (execute bound frame) (executeTrace bound frame) m := by
  have inside := Metered.cycles bound (Action.entered m frame)
  have room : ∀ l : Limits, Finishes (Action.execute bound frame (m.under l)) →
      m.frames.length < l.maxDepth := by
    -- A piece that finds no room for its frame is cut short at once.
    intro l finishes
    by_contra full
    have cut := (execute_under_full bound frame (Nat.le_of_not_lt full)).1 _
      ⟨"", String.append_empty.symm⟩
    exact cut.not_finishes finishes
  constructor
  case printed =>
    intro l holds finishes
    have spare := room l finishes
    rw [(execute_under spare).1] at finishes ⊢
    rw [console_discarding]
    exact inside.printed l (holds.entered spare) (finishes_discarding.1 finishes)
  case executed =>
    intro l holds finishes
    have spare := room l finishes
    rw [(execute_under spare).1] at finishes ⊢
    rw [(execute_under spare).2, executed_discarding]
    exact inside.executed l (holds.entered spare) (finishes_discarding.1 finishes)
  case limited =>
    intro l l' holds holds' finishes
    have spare := room l finishes
    rw [(execute_under spare).1] at finishes ⊢
    rw [(execute_under spare).2, console_discarding]
    have finishes := finishes_discarding.1 finishes
    -- The other limits may leave no room for the frame.  Then they do not admit the trace either, which
    -- starts with a machine that has the frame.
    by_cases spare' : m.frames.length < l'.maxDepth
    · obtain ⟨same, cut⟩ := inside.limited l l' (holds.entered spare) (holds'.entered spare') finishes
      rw [(execute_under spare').1, on_discarding]
      exact ⟨fun admitted => congrArg _ (same admitted), fun broken => (cut broken).discarding⟩
    · refine ⟨fun admitted => ?_, fun _ => ?_⟩
      · exact absurd (admitted.2 _ (cyclesTrace_head finishes)) (by exact spare')
      · exact (execute_under_full bound frame (Nat.le_of_not_lt spare')).1 _
          (inside.printed l (holds.entered spare) finishes)
  case admits =>
    intro l holds
    by_cases spare : m.frames.length < l.maxDepth
    · rw [(execute_under spare).2]
      exact inside.admits l (holds.entered spare)
    · rw [(execute_under_full bound frame (Nat.le_of_not_lt spare)).2]
      exact Limits.admits_nil.2 holds.2

theorem executeAll_of_next {rest : List Frame} {m₁ : Machine}
    (first : execute bound frame m = .ok true m₁) :
    executeAll bound (frame :: rest) m = executeAll bound rest m₁
    ∧ executeAllTrace bound (frame :: rest) m
        = executeTrace bound frame m ++ executeAllTrace bound rest m₁ := by
  rw [executeAll_cons, executeAllTrace, first]
  exact ⟨rfl, rfl⟩

theorem executeAll_of_error {rest : List Frame} {m₁ : Machine} {f : Failure}
    (first : execute bound frame m = .error f m₁) :
    executeAll bound (frame :: rest) m = .error f m₁
    ∧ executeAllTrace bound (frame :: rest) m = executeTrace bound frame m := by
  rw [executeAll_cons, executeAllTrace, first]
  exact ⟨rfl, List.append_nil _⟩

theorem idle_of_execute {m₁ : Machine} (ended : execute bound frame m = .ok true m₁) : m₁.frames = [] := by
  by_cases room : m.frames.length < m.limits.maxDepth
  · cases result : cycles bound (entered m frame) with
    | ok more m' =>
      rw [execute_of_ok room result] at ended
      cases ended
      obtain ⟨-, -, -, idle⟩ := cycles_finished result
      exact idle
    | error f m' =>
      rw [execute_of_error room result] at ended
      cases ended
  · rw [execute_of_full bound (Nat.le_of_not_lt room)] at ended
    cases ended

theorem CutShort.executeAll {output : String} (cut : CutShort (execute bound frame m) output)
    (rest : List Frame) : CutShort (executeAll bound (frame :: rest) m) output := by
  obtain ⟨f, m', failed, limit, printed⟩ := cut
  exact ⟨f, m', (executeAll_of_error failed).1, limit, printed⟩

theorem Limits.admits_append {l : Limits} {before : Nat} {trace trace' : List Machine} :
    l.Admits before (trace ++ trace') ↔
      l.Admits before trace ∧ l.Admits (before + trace.countP Machine.carriesOut) trace' := by
  simp only [Admits, List.countP_append, List.forall_mem_append, ← Nat.add_assoc]
  constructor
  · rintro ⟨allowed, shallow, shallow'⟩
    exact ⟨⟨allowed.mono (Nat.le_add_right _ _), shallow⟩, allowed, shallow'⟩
  · rintro ⟨⟨-, shallow⟩, allowed, shallow'⟩
    exact ⟨allowed, shallow, shallow'⟩

/-- Behind a piece that has ended the machine is idle, and has used what the trace says. -/
theorem Metered.next {m₁ : Machine} (holds : l.Holds m)
    (ended : Action.execute bound frame (m.under l) = .ok true m₁) :
    m₁.under l = m₁ ∧ m₁.frames = []
    ∧ m₁.executed = m.executed + (executeTrace bound frame (m.under l)).countP Machine.carriesOut
    ∧ ∀ l' : Limits, l'.Admits m.executed (executeTrace bound frame (m.under l)) → l'.Holds m₁ := by
  have metered := Metered.execute bound frame m
  have finishes : Finishes (Action.execute bound frame (m.under l)) := by
    rw [ended]
    rfl
  have same := metered.on_self holds finishes
  have executed := metered.executed l holds finishes
  rw [ended] at same executed
  have idle := idle_of_execute ended
  refine ⟨?_, idle, executed, fun l' admitted => ⟨?_, ?_⟩⟩
  · injection same with _ same
    exact same.symm
  · rw [idle]
    exact Nat.zero_le _
  · have counted : m₁.executed = _ := executed
    rw [counted]
    exact admitted.1

/-- The first of several pieces, under limits with which all of them complete. -/
inductive FirstPiece (l : Limits) (bound : Nat) (frame : Frame) (rest : List Frame) (m : Machine) :
    Prop where
  | ends {m₁ : Machine} (ended : Action.execute bound frame (m.under l) = .ok true (m₁.under l))
    (idle : m₁.frames = [])
    (executed : m₁.executed
      = m.executed + (executeTrace bound frame (m.under l)).countP Machine.carriesOut)
    (kept : ∀ l' : Limits, l'.Admits m.executed (executeTrace bound frame (m.under l)) → l'.Holds m₁)
    (finishes : Finishes (Action.executeAll bound rest (m₁.under l)))
  | fails {f : Failure} {m₁ : Machine} (failed : Action.execute bound frame (m.under l) = .error f m₁)

theorem FirstPiece.of_finishes {rest : List Frame} (holds : l.Holds m)
    (finishes : Finishes (Action.executeAll bound (frame :: rest) (m.under l))) :
    Finishes (Action.execute bound frame (m.under l)) ∧ FirstPiece l bound frame rest m := by
  cases first : Action.execute bound frame (m.under l) with
  | ok ended m₁ =>
    cases ended with
    | true =>
      obtain ⟨same, idle, executed, kept⟩ := Metered.next holds first
      rw [(executeAll_of_next first).1, ← same] at finishes
      rw [← same] at first
      exact ⟨rfl, .ends first idle executed kept finishes⟩
    | false =>
      rw [executeAll_cons, first] at finishes
      cases finishes
  | error f m₁ =>
    rw [(executeAll_of_error first).1] at finishes
    exact ⟨finishes, .fails first⟩

theorem Metered.executeAll (bound : Nat) (frames : List Frame) :
    ∀ m : Machine, m.frames = [] → Metered (executeAll bound frames) (executeAllTrace bound frames) m := by
  induction frames with
  | nil =>
    intro m idle
    refine ⟨fun l _ _ => ⟨"", String.append_empty.symm⟩, fun l _ _ => rfl, fun l l' _ holds' _ => ?_,
      fun l holds => Limits.admits_nil.2 holds.2⟩
    exact ⟨fun _ => rfl, fun broken => absurd (Limits.admits_nil.2 holds'.2) broken⟩
  | cons frame rest ih =>
    intro m idle
    have metered := Metered.execute bound frame m
    constructor
    case printed =>
      intro l holds finishes
      obtain ⟨firstFinishes, first⟩ := FirstPiece.of_finishes holds finishes
      have printed := metered.printed l holds firstFinishes
      cases first with
      | @ends m₁ ended idle executed kept others =>
        rw [(executeAll_of_next ended).1]
        rw [ended] at printed
        obtain ⟨more, printed⟩ := printed
        obtain ⟨more', printed'⟩ := (ih m₁ idle).printed l (kept l (metered.admits l holds)) others
        have front : m₁.console.output = m.console.output ++ more := printed
        rw [front, String.append_assoc] at printed'
        exact ⟨more ++ more', printed'⟩
      | fails failed =>
        rw [(executeAll_of_error failed).1, ← failed]
        exact printed
    case executed =>
      intro l holds finishes
      obtain ⟨firstFinishes, first⟩ := FirstPiece.of_finishes holds finishes
      cases first with
      | @ends m₁ ended idle executed kept others =>
        have remaining := (ih m₁ idle).executed l (kept l (metered.admits l holds)) others
        rw [(executeAll_of_next ended).1, (executeAll_of_next ended).2, List.countP_append, ← Nat.add_assoc,
          ← executed, remaining]
      | fails failed =>
        rw [(executeAll_of_error failed).1, (executeAll_of_error failed).2, ← failed]
        exact metered.executed l holds firstFinishes
    case limited =>
      intro l l' holds holds' finishes
      obtain ⟨firstFinishes, first⟩ := FirstPiece.of_finishes holds finishes
      obtain ⟨same, cut⟩ := metered.limited l l' holds holds' firstFinishes
      cases first with
      | @ends m₁ ended idle executed kept others =>
        have heldOn := kept l (metered.admits l holds)
        rw [(executeAll_of_next ended).1, (executeAll_of_next ended).2, Limits.admits_append, ← executed]
        rw [ended] at same cut
        -- The later pieces are reached only if the first one is admitted.
        by_cases admitted : l'.Admits m.executed (executeTrace bound frame (m.under l))
        · have ended' : Action.execute bound frame (m.under l') = .ok true (m₁.under l') := same admitted
          rw [(executeAll_of_next ended').1, and_iff_right admitted]
          exact (ih m₁ idle).limited l l' heldOn (kept l' admitted) others
        · obtain ⟨more, printed⟩ := (ih m₁ idle).printed l heldOn others
          refine ⟨fun both => absurd both.1 admitted, fun _ => ?_⟩
          rw [printed]
          exact ((cut admitted).append more).executeAll rest
      | fails failed =>
        rw [(executeAll_of_error failed).1, (executeAll_of_error failed).2, ← failed]
        refine ⟨fun admitted => ?_, fun broken => (cut broken).executeAll rest⟩
        have failed' := same admitted
        rw [failed] at failed' ⊢
        exact (executeAll_of_error failed').1
    case admits =>
      intro l holds
      have admitted := metered.admits l holds
      rw [executeAllTrace]
      split
      · next m₁ ended =>
        obtain ⟨same, idle, executed, kept⟩ := Metered.next holds ended
        rw [Limits.admits_append, ← executed]
        have remaining := (ih m₁ idle).admits l (kept l admitted)
        rw [same] at remaining
        exact ⟨admitted, remaining⟩
      · rw [List.append_nil]
        exact admitted

/-- A run under a limit on instructions comes to an end. -/
theorem executeAll_final {limit : Nat} (limited : l.maxInstructions = some limit) (frames : List Frame) :
    ∀ m : Machine, m.frames = [] → l.Holds m →
      Final (Action.executeAll (2 * limit + 2) frames (m.under l)) := by
  induction frames with
  | nil => exact fun _ _ _ => rfl
  | cons frame rest ih =>
    intro m idle holds
    cases first : Action.execute (2 * limit + 2) frame (m.under l) with
    | ok ended m₁ =>
      cases ended with
      | true =>
        obtain ⟨same, idle, -, kept⟩ := Metered.next holds first
        have remaining := ih m₁ idle (kept l ((Metered.execute _ _ _).admits l holds))
        rw [(executeAll_of_next first).1, ← same]
        exact remaining
      | false =>
        -- Each piece starts with one frame, so there are cycles enough for all of it.
        exfalso
        by_cases room : m.frames.length < l.maxDepth
        · have one : (entered m frame).frames.length = 1 := by
            rw [entered, idle]
            rfl
          have enough : 2 * (limit - (entered m frame).executed) + (entered m frame).frames.length
              < 2 * limit + 2 := by omega
          have final := cycles_final limited (holds.entered room) enough
          rw [(execute_under room).1] at first
          cases result : cycles (2 * limit + 2) ((entered m frame).under l) with
          | ok more m' =>
            rw [result] at first final
            cases first
            cases final
          | error f m' =>
            rw [result] at first
            cases first
        · obtain ⟨f, m', failed, -⟩ := (execute_under_full (2 * limit + 2) frame
            (Nat.le_of_not_lt room)).1 _ ⟨"", String.append_empty.symm⟩
          cases first.symm.trans failed
    | error f m₁ =>
      rw [(executeAll_of_error first).1]
      trivial

end Pieces

/-! ## Runs of programs -/

instance (r : EStateM.Result Failure Machine Bool) : Decidable (Finishes r) :=
  match r with
  | .ok ended _ => inferInstanceAs (Decidable (ended = true))
  | .error f _ => inferInstanceAs (Decidable (f.isLimit = false))

/-- The number of instructions that are carried out. -/
def instructionsOf (trace : List Machine) : Nat := trace.countP Machine.carriesOut

/-- The greatest number of frames that live at a time. -/
def depthOf (trace : List Machine) : Nat := (trace.map fun m => m.frames.length).foldl max 0

/-- The limits allow what the machines of a trace use. -/
def Limits.Suffice (l : Limits) (trace : List Machine) : Prop :=
  l.Allows (instructionsOf trace) ∧ depthOf trace ≤ l.maxDepth

theorem depthOf_le_iff {trace : List Machine} {depth : Nat} :
    depthOf trace ≤ depth ↔ ∀ x ∈ trace, x.frames.length ≤ depth := by
  have bounded : ∀ (l : List Nat) (start : Nat),
      l.foldl max start ≤ depth ↔ start ≤ depth ∧ ∀ n ∈ l, n ≤ depth := by
    intro l
    induction l with
    | nil => simp
    | cons n rest ih =>
      intro start
      rw [List.foldl_cons, ih, List.forall_mem_cons, Nat.max_le, and_assoc]
  rw [depthOf, bounded]
  simp

theorem Limits.admits_zero_iff {l : Limits} {trace : List Machine} :
    l.Admits 0 trace ↔ l.Suffice trace := by
  rw [Admits, Suffice, Nat.zero_add, depthOf_le_iff]
  rfl

/-- Limits are exact and change nothing else.  A run that finishes under a limit on frames alone goes
the same under limits that suffice for it, and is cut short under others.  A run that never finishes
meets a limit when its instructions are limited.  Limits suffice for every run under them. -/
theorem Action.run_limited (p : Program) {m : Machine} (idle : m.frames = []) (l : Limits) :
    (∀ depth bound, Finishes (run bound p (m.under ⟨depth, none⟩)) →
      (l.Suffice (runTrace bound p (m.under ⟨depth, none⟩)) →
        run bound p (m.under l) = l.on (run bound p (m.under ⟨depth, none⟩)))
      ∧ (¬ l.Suffice (runTrace bound p (m.under ⟨depth, none⟩)) →
        CutShort (run bound p (m.under l)) (reached (run bound p (m.under ⟨depth, none⟩))).console.output))
    ∧ ((∀ depth bound, ¬ Finishes (run bound p (m.under ⟨depth, none⟩))) →
      ∀ limit, l.maxInstructions = some limit →
        ∃ bound f m', run bound p (m.under l) = .error f m' ∧ f.isLimit = true)
    ∧ ∀ bound, l.Suffice (runTrace bound p (m.under l)) := by
  have started : (m.loading p).frames = [] := idle
  have holds : ∀ l : Limits, l.Holds (m.loading p) := by
    intro l
    refine ⟨?_, fun limit _ => Nat.zero_le limit⟩
    rw [started]
    exact Nat.zero_le _
  have metered := fun bound => Metered.executeAll bound p.pieces (m.loading p) started
  have runs : ∀ bound (l : Limits),
      run bound p (m.under l) = executeAll bound p.pieces ((m.loading p).under l) :=
    fun bound l => run_eq bound p (m.under l)
  -- No instruction has been counted when the pieces start, so limits admit a trace on top of nothing.
  refine ⟨fun depth bound finishes => ?_, fun never limit limited => ?_, fun bound => ?_⟩
  · rw [runs] at finishes ⊢
    rw [runs, ← Limits.admits_zero_iff]
    exact (metered bound).limited ⟨depth, none⟩ l (holds _) (holds l) finishes
  -- A run that has come to its end within this bound has either finished or met a limit.
  · have final := executeAll_final limited p.pieces (m.loading p) started (holds l)
    have incomplete : ¬ Finishes (executeAll (2 * limit + 2) p.pieces ((m.loading p).under l)) := by
      intro finishes
      have unlimited := (metered _).loosened (holds l) finishes
      rw [← runs] at unlimited
      exact never _ _ unlimited
    refine ⟨2 * limit + 2, ?_⟩
    rw [runs]
    cases result : executeAll (2 * limit + 2) p.pieces ((m.loading p).under l) with
    | ok ended m' =>
      rw [result] at final incomplete
      exact absurd final incomplete
    | error f m' =>
      rw [result] at incomplete
      exact ⟨f, m', rfl, eq_true_of_ne_false incomplete⟩
  · rw [← Limits.admits_zero_iff]
    exact (metered bound).admits l (holds l)

/-- A class with a static field, and a method of its objects that raises a value; the text that called
it prints what was raised. -/
def alarm : List Stmt :=
  [.classDecl ⟨"Alarm", none,
      [⟨"ring", [], [.expression (.call (.member (.variable "z") "t") [])], 0, none, false⟩],
      [⟨5, "count", some (.list []), none, true⟩], [], false⟩,
    .tryHandle [.expression (.call (.member (.construct "Alarm" []) "ring") [])] 0 "e"
      [.expression (.call (.member (.variable "z") "o") [.variable "e"])]]

/-- Its code. -/
def alarmProgram : Program :=
  match Names.empty.lowerProgram alarm with
  | .ok (p, _) => p
  | .error _ => default

/-- A machine to run it on. -/
def bare : Machine := .new .usual default

/-- It carries out sixteen instructions, with two frames at most, and one less of either is too few. -/
theorem Action.run_limited_alarm :
    Finishes (run 40 alarmProgram (bare.under ⟨8, none⟩))
    ∧ run 40 alarmProgram (bare.under ⟨2, some 16⟩)
        = (Limits.mk 2 (some 16)).on (run 40 alarmProgram (bare.under ⟨8, none⟩))
    ∧ CutShort (run 40 alarmProgram (bare.under ⟨2, some 15⟩))
        (reached (run 40 alarmProgram (bare.under ⟨8, none⟩))).console.output
    ∧ CutShort (run 40 alarmProgram (bare.under ⟨1, some 16⟩))
        (reached (run 40 alarmProgram (bare.under ⟨8, none⟩))).console.output := by
  have instructions : instructionsOf (runTrace 40 alarmProgram (bare.under ⟨8, none⟩)) = 16 := by
    decide +kernel
  have depth : depthOf (runTrace 40 alarmProgram (bare.under ⟨8, none⟩)) = 2 := by decide +kernel
  have limited := fun l => (run_limited alarmProgram (m := bare) rfl l).1 8 40 (by decide +kernel)
  have enough : (Limits.mk 2 (some 16)).Suffice (runTrace 40 alarmProgram (bare.under ⟨8, none⟩)) := by
    rw [Limits.Suffice, Limits.Allows, instructions, depth]
    simp
  have few : ¬ (Limits.mk 2 (some 15)).Suffice (runTrace 40 alarmProgram (bare.under ⟨8, none⟩)) := by
    rw [Limits.Suffice, Limits.Allows, instructions, depth]
    simp
  have shallow : ¬ (Limits.mk 1 (some 16)).Suffice (runTrace 40 alarmProgram (bare.under ⟨8, none⟩)) := by
    rw [Limits.Suffice, Limits.Allows, instructions, depth]
    simp
  exact ⟨by decide +kernel, (limited _).1 enough, (limited _).2 few, (limited _).2 shallow⟩

end Monogram
