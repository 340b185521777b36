import Monogram.Proofs.Machine.Run

/-! # Histories of runs

A machine keeps of the past only what its frames hold.  A history keeps more: for every frame that
lives the machine as the frame started, the machines that had installed a handler which is still
pending, and the values that the frame has stored into the name `this`.  It is a record of what has
been carried out, and does not look at what the frames hold.

* `Machine.event` — what the next cycle is, as far as a history is concerned.
* `Event.record` — the history behind a cycle.
* `Passes` — the machines that a run of pieces comes through, each with its history.
* `Passes.after` — the same as a function of the number of steps.
* `Passes.of_executeAll` — a run of pieces comes through every machine that it gets to.
* `Underway.fails` — a cycle that fails on the way ends the run.
-/

namespace Monogram

open Monogram.Action

/-! ## Events -/

/-- The past of a frame that lives. -/
structure Activation where
  /-- The machine as the frame started, its receiver and arguments taken. -/
  entry : Machine
  /-- The machines that were about to install the handlers that are pending, the latest first. -/
  tries : List Machine
  /-- What the frame has stored into the name `this`, the latest first. -/
  stores : List Value

/-- A frame that has only just started. -/
def Activation.start (entry : Machine) : Activation := ⟨entry, [], []⟩

/-- What a cycle does to a history. -/
inductive Event where
  | stays
  /-- A frame starts. -/
  | enters
  /-- The frame that runs ends. -/
  | leaves
  /-- All frames end. -/
  | halts
  | opens
  | closes
  | stores (v : Value)
  | raises (v : Value)

/-- The value that is raised. -/
def Event.raised? : Event → Option Value
  | .raises v => some v
  | _ => none

/-- The event of a call, given its receiver. -/
def Event.ofCall (method : String) : Value → Event
  | .object _ | .classRef _ => .enters
  | .system => if method = "t" then .raises (.string customError) else .stays
  | _ => .stays

/-- The event of an instruction, given the operands. -/
def Event.ofInstruction (operands : List Value) : Instruction → Event
  | .halt => .halts
  | .giveBack => .leaves
  | .openHandler _ => .opens
  | .closeHandler => .closes
  | .raise => (operands.head?.map Event.raises).getD .stays
  | .storeName name =>
    if name = "this" then (operands.head?.map Event.stores).getD .stays else .stays
  | .call method argc => ((operands[argc]?).map (Event.ofCall method)).getD .stays
  | _ => .stays

theorem Event.ofInstruction_call (method : String) (receiver : Value) (args rest : List Value) :
    Event.ofInstruction (args.reverse ++ receiver :: rest) (.call method args.length)
      = .ofCall method receiver := by
  simp [Event.ofInstruction]

/-- What the next cycle is. -/
def Machine.event (m : Machine) : Event :=
  match m.frames with
  | [] => .stays
  | frame :: _ =>
    match frame.code.instructions[frame.next]? with
    | none => .leaves
    | some i => .ofInstruction m.operands.items i

/-- The activations from the innermost on that has a handler pending. -/
def unwind : List Activation → List Activation
  | [] => []
  | a :: older =>
    match a.tries with
    | [] => unwind older
    | _ :: _ => a :: older

/-- Changes the activation of the frame that runs. -/
def modifyActivation (change : Activation → Activation) : List Activation → List Activation
  | [] => []
  | a :: older => change a :: older

/-- The history behind a cycle that led from one machine to the other. -/
def Event.record (before after : Machine) (history : List Activation) : Event → List Activation
  | .stays => history
  | .enters => .start after :: history
  | .leaves => history.tail
  | .halts => []
  | .opens => modifyActivation (fun a => { a with tries := before :: a.tries }) history
  | .closes => modifyActivation (fun a => { a with tries := a.tries.tail }) history
  | .stores v => modifyActivation (fun a => { a with stores := v :: a.stores }) history
  | .raises _ => modifyActivation (fun a => { a with tries := a.tries.tail }) (unwind history)

/-! ## Runs with their histories -/

/-- A run of pieces comes through a machine with a history, while some pieces have yet to start. -/
inductive Passes (pieces : List Frame) (first : Machine) :
    List Frame → Machine → List Activation → Prop where
  | start : Passes pieces first pieces first []
  | enter {piece : Frame} {later : List Frame} {m m' : Machine} {history : List Activation}
      (before : Passes pieces first (piece :: later) m history) (idle : m.frames = [])
      (pushed : pushFrame piece m = .ok () m') : Passes pieces first later m' [.start m']
  | cycle {later : List Frame} {m m' : Machine} {history : List Activation}
      (before : Passes pieces first later m history) (cycled : cycle m = .ok true m') :
      Passes pieces first later m' (m.event.record m m' history)

namespace Passes

variable {pieces later : List Frame} {first m m' : Machine} {history : List Activation}

theorem steps {k : Nat} (h : Passes pieces first later m history) (steps : Steps k m m') :
    ∃ history', Passes pieces first later m' history' := by
  induction steps generalizing history with
  | refl m => exact ⟨history, h⟩
  | step cycled others ih => exact ih (h.cycle cycled)

/-- Where a run of pieces gets to within a bound, it comes through. -/
theorem of_executeAll {bound : Nat} (h : Passes pieces first later m history) (idle : m.frames = [])
    {m' : Machine} {ended : Bool} (executed : executeAll bound later m = .ok ended m') :
    ∃ later' history', Passes pieces first later' m' history'
      ∧ (ended → later' = [] ∧ m'.frames = []) := by
  induction later generalizing m history with
  | nil =>
    cases executed
    exact ⟨[], history, h, fun _ => ⟨rfl, idle⟩⟩
  | cons piece later ih =>
    rw [executeAll_cons] at executed
    by_cases room : m.frames.length < m.limits.maxDepth
    · have pushed : pushFrame piece m = .ok () (entered m piece) := by
        rw [pushFrame_apply, if_neg (Nat.not_le.2 room)]
      have inside := h.enter idle pushed
      cases result : cycles bound (entered m piece) with
      | ok done mid =>
        rw [execute_of_ok room result] at executed
        cases done with
        | true =>
          obtain ⟨k, -, steps, finished⟩ := cycles_finished result
          obtain ⟨history', passes⟩ := inside.steps steps
          exact ih passes finished executed
        | false =>
          cases executed
          obtain ⟨history', passes⟩ := inside.steps (steps_of_cycles result)
          exact ⟨later, history', passes, fun h => by cases h⟩
      | error f mid =>
        rw [execute_of_error room result] at executed
        cases executed
    · rw [execute_of_full bound (by omega)] at executed
      cases executed

/-- What a run of pieces has come to: the pieces to start later, the machine and its history. -/
abbrev Progress := List Frame × Machine × List Activation

/-- The next cycle of a run of pieces, or its next piece where none runs. -/
def advance : Progress → Option Progress
  | (later, m, history) =>
    match Action.cycle m with
    | .ok true m' => some (later, m', m.event.record m m' history)
    | .ok false _ =>
      match later with
      | [] => none
      | piece :: later =>
        match pushFrame piece m with
        | .ok () m' => some (later, m', [.start m'])
        | .error _ _ => none
    | .error _ _ => none

/-- The next step of a run is a cycle, or starts the next piece. -/
theorem advance_cases {progress : Progress} (next : advance (later, m, history) = some progress) :
    (∃ m', Action.cycle m = .ok true m' ∧ progress = (later, m', m.event.record m m' history))
      ∨ ∃ piece rest m', later = piece :: rest ∧ m.frames = [] ∧ pushFrame piece m = .ok () m'
        ∧ progress = (rest, m', [.start m']) := by
  simp only [advance] at next
  cases cycled : Action.cycle m with
  | error f m' =>
    rw [cycled] at next
    cases next
  | ok more m' =>
    rw [cycled] at next
    cases more with
    | true => exact .inl ⟨m', rfl, (Option.some.inj next).symm⟩
    | false =>
      cases later with
      | nil => cases next
      | cons piece rest =>
        cases pushed : pushFrame piece m with
        | ok _ m' =>
          simp only [pushed, Option.some.injEq] at next
          exact .inr ⟨piece, rest, m', rfl, (idle_of_cycle cycled).1, pushed, next.symm⟩
        | error f m' => simp [pushed] at next

theorem of_advance {progress : Progress} (h : Passes pieces first later m history)
    (next : advance (later, m, history) = some progress) :
    Passes pieces first progress.1 progress.2.1 progress.2.2 := by
  rcases advance_cases next with ⟨m', cycled, rfl⟩ | ⟨piece, rest, m', rfl, idle, pushed, rfl⟩
  · exact h.cycle cycled
  · exact h.enter idle pushed

/-- The run of pieces after so many steps. -/
def after (pieces : List Frame) (first : Machine) : Nat → Option Progress
  | 0 => some (pieces, first, [])
  | n + 1 => (after pieces first n).bind advance

theorem of_after {n : Nat} {progress : Progress} (reached : after pieces first n = some progress) :
    Passes pieces first progress.1 progress.2.1 progress.2.2 := by
  induction n generalizing progress with
  | zero =>
    cases reached
    exact .start
  | succ n ih =>
    obtain ⟨before, earlier, next⟩ := Option.bind_eq_some_iff.1 reached
    exact (ih earlier).of_advance next

end Passes

/-! ## What a run comes to from there -/

/-- The pieces in front of the later ones have come to this machine. -/
def Onward (pieces : List Frame) (first : Machine) (later : List Frame) (m : Machine) : Prop :=
  ∃ front, pieces = front ++ later ∧ Comes front first (.ok true m)

/-- What a run of pieces comes to is what it comes to from here on. -/
theorem Onward.comes {pieces later : List Frame} {first m : Machine}
    {result : EStateM.Result Failure Machine Bool} (onward : Onward pieces first later m)
    (comes : Comes later m result) : Comes pieces first result := by
  obtain ⟨front, rfl, passed⟩ := onward
  exact passed.append comes

/-- The run of pieces is between two pieces, or so many cycles inside of one. -/
inductive Underway (pieces : List Frame) (first : Machine) (later : List Frame) : Machine → Prop where
  | between {m : Machine} (idle : m.frames = []) (onward : Onward pieces first later m) :
      Underway pieces first later m
  | inside {piece : Frame} {m₀ m : Machine} {k : Nat}
      (onward : Onward pieces first (piece :: later) m₀) (idle : m₀.frames = [])
      (room : m₀.frames.length < m₀.limits.maxDepth) (steps : Steps k (entered m₀ piece) m) :
      Underway pieces first later m

namespace Underway

variable {pieces later : List Frame} {first m m' : Machine}

/-- A piece that has ended leads on to the later ones. -/
theorem onward (h : Underway pieces first later m) (idle : m.frames = []) :
    Onward pieces first later m := by
  cases h with
  | between _ onward => exact onward
  | inside onward _ room steps =>
    obtain ⟨front, same, passed⟩ := onward
    exact ⟨_, same.trans (List.append_cons ..), passed.append (Comes.of_idle room steps idle)⟩

theorem enter {piece : Frame} (h : Underway pieces first (piece :: later) m) (idle : m.frames = [])
    (pushed : pushFrame piece m = .ok () m') : Underway pieces first later m' := by
  rw [pushFrame_apply] at pushed
  split at pushed
  · cases pushed
  · next room =>
    cases pushed
    exact .inside (h.onward idle) idle (Nat.lt_of_not_le room) (.refl _)

theorem cycle (h : Underway pieces first later m) (cycled : cycle m = .ok true m') :
    Underway pieces first later m' := by
  cases h with
  | between idle _ =>
    rw [cycle_idle idle] at cycled
    cases cycled
  | inside onward idle room steps => exact .inside onward idle room (steps.trans (.one cycled))

/-- A cycle that fails ends the run. -/
theorem fails {f : Failure} (h : Underway pieces first later m) (failed : Action.cycle m = .error f m') :
    ∃ size, Comes pieces first
      (.error f { m' with frames := [], operands := m'.operands.truncate size }) := by
  cases h with
  | between idle _ =>
    rw [cycle_idle idle] at failed
    cases failed
  | @inside piece m₀ _ _ onward _ room steps =>
    exact ⟨m₀.operands.size, onward.comes (Comes.of_failure room steps failed).cons_error⟩

end Underway

theorem Passes.underway {pieces later : List Frame} {first m : Machine} {history : List Activation}
    (rested : first.frames = []) (h : Passes pieces first later m history) :
    Underway pieces first later m := by
  induction h with
  | start => exact .between rested ⟨[], rfl, rfl, 0, rfl⟩
  | enter before idle pushed ih => exact ih.enter idle pushed
  | cycle before cycled ih => exact ih.cycle cycled

end Monogram
