import Monogram.Proofs.Machine.Setting

/-! # Cycles of machines that are set up differently

A call is an action that does the same however a machine is set up, and then the start of a frame,
which looks at the limit on frames.  Jumps and handlers refer to addresses of the frame that runs.

* `Action.prepareCall`, `Action.step_call_eq` — the two parts of a call.
* `Action.step_alike` — an instruction does the same, or starts the same frame.
* `Action.cycle_alike` — so does a cycle, where the instruction is found and may be counted.
-/

namespace Monogram

open Monogram.Action

/-! ## Calls -/

namespace Action

/-- What a call of a method does before a frame starts, and the frame that it starts, if any. -/
def prepareCallOf (method : String) (receiver : Value) (arguments : List Value) :
    Action (Option Frame) := do
  let m ← get
  match receiver with
  | .object address =>
    let code ← lift (m.classes.resolveMethod (m.heap.object address).image method m.callerClass)
    return some (.start code .method (some receiver))
  | .classRef id =>
    let code ← lift (m.classes.resolveStatic id method)
    return some (.start code .staticMethod none)
  | .system =>
    match ← system method arguments with
    | .value v => push v
    | .raised v => raiseValue v
    return none
  | _ => fault (.invalidReceiver method receiver.sort)

/-- The same, with the operands that the call takes. -/
def prepareCall (method : String) (argc : Nat) : Action (Option Frame) := do
  let arguments ← popArguments argc
  let receiver ← pop
  prepareCallOf method receiver arguments

/-- Starts the frame that a call has prepared. -/
def startCall : Option Frame → Action Flow
  | some callee => goingOn (pushFrame callee)
  | none => return .next

/-- What a call does, given what it has prepared. -/
def starting : EStateM.Result Failure Machine (Option Frame) → EStateM.Result Failure Machine Flow
  | .ok callee m => startCall callee m
  | .error f m => .error f m

theorem step_call_eq (method : String) (argc : Nat) :
    step (.call method argc) = prepareCall method argc >>= startCall := by
  have rest : ∀ receiver arguments, (do call method receiver arguments; return Flow.next)
      = prepareCallOf method receiver arguments >>= startCall := by
    intro receiver arguments
    -- Only the two sorts of receivers that have methods start a frame.
    cases receiver with
    | object | classRef =>
      simp only [call, prepareCallOf, bind_assoc, pure_bind, startCall, goingOn]
    | system =>
      simp only [call, prepareCallOf, bind_assoc]
      -- The system object answers at once, with a value or with one that is raised.
      refine bind_congr fun _ => bind_congr fun outcome => ?_
      cases outcome <;> simp only [bind_assoc, pure_bind, startCall]
    | _ => rfl
  simp only [step, prepareCall, bind_assoc, rest]

theorem step_call_apply (method : String) (argc : Nat) (m : Machine) :
    step (.call method argc) m = starting (prepareCall method argc m) := by
  rw [step_call_eq, bind_apply]
  cases prepareCall method argc m <;> rfl

end Action

namespace Oblivious

theorem prepareCallOf (method : String) (receiver : Value) (arguments : List Value) :
    Oblivious (prepareCallOf method receiver arguments) := by
  cases receiver with
  | object address =>
    refine look (fun σ m => ?_) fun m => (composes.lift _).bind fun _ => value _
    simp only [callerClass_placed]
    rfl
  | classRef id => exact look (fun _ _ => rfl) fun m => (composes.lift _).bind fun _ => value _
  | system =>
    refine look (fun _ _ => rfl) fun m => (calculates.system method arguments).bind fun outcome => ?_
    cases outcome with
    | value v => exact (composes.push v).bind fun _ => value _
    | raised v => exact (raiseValue v).bind fun _ => value _
  | _ => exact look (fun _ _ => rfl) fun m => fault _

theorem prepareCall (method : String) (argc : Nat) : Oblivious (prepareCall method argc) :=
  (composes.popArguments argc).bind fun _ => composes.pop.bind fun _ => prepareCallOf _ _ _

end Oblivious

namespace Action

theorem bind_eq_ok {α γ : Type} {p : Action α} {q : α → Action γ} {c : γ} {m m' : Machine}
    (done : (p >>= q) m = .ok c m') : ∃ a m₁, p m = .ok a m₁ ∧ q a m₁ = .ok c m' := by
  rw [bind_apply] at done
  cases first : p m with
  | ok a m₁ =>
    rw [first] at done
    exact ⟨a, m₁, rfl, done⟩
  | error f m₁ =>
    rw [first] at done
    cases done

theorem lift_eq_ok {α : Type} {result : Except Fault α} {a : α} {m m' : Machine}
    (done : lift result m = .ok a m') : m' = m := by
  cases result with
  | ok => cases done; rfl
  | error => cases done

theorem pop_frames {m m' : Machine} {v : Value} (popped : pop m = .ok v m') : m'.frames = m.frames := by
  rw [pop_apply] at popped
  split at popped <;> cases popped
  rfl

theorem popArguments_frames {argc : Nat} {m m' : Machine} {args : List Value}
    (popped : popArguments argc m = .ok args m') : m'.frames = m.frames := by
  induction argc generalizing m args with
  | zero =>
    cases popped
    rfl
  | succ argc ih =>
    obtain ⟨v, m₁, first, popped⟩ := bind_eq_ok popped
    obtain ⟨front, m₂, others, popped⟩ := bind_eq_ok popped
    cases popped
    exact (ih others).trans (pop_frames first)

theorem prepareCallOf_machine {method : String} {receiver : Value} {arguments : List Value}
    {m m' : Machine} {callee : Frame}
    (prepared : prepareCallOf method receiver arguments m = .ok (some callee) m') : m' = m := by
  obtain ⟨_, _, looked, prepared⟩ := bind_eq_ok prepared
  cases looked
  cases receiver with
  | object address =>
    obtain ⟨code, m₁, resolved, prepared⟩ := bind_eq_ok prepared
    cases prepared
    exact lift_eq_ok resolved
  | classRef id =>
    obtain ⟨code, m₁, resolved, prepared⟩ := bind_eq_ok prepared
    cases prepared
    exact lift_eq_ok resolved
  | system =>
    -- The system object starts no frame.
    obtain ⟨outcome, m₁, -, prepared⟩ := bind_eq_ok prepared
    cases outcome <;>
    · obtain ⟨_, _, -, prepared⟩ := bind_eq_ok prepared
      cases prepared
  | _ => cases prepared

/-- The frames are as they were when the called one starts. -/
theorem prepareCall_frames {method : String} {argc : Nat} {m m' : Machine} {callee : Frame}
    (prepared : prepareCall method argc m = .ok (some callee) m') : m'.frames = m.frames := by
  obtain ⟨arguments, m₁, taken, prepared⟩ := bind_eq_ok prepared
  obtain ⟨receiver, m₂, popped, prepared⟩ := bind_eq_ok prepared
  rw [prepareCallOf_machine prepared, pop_frames popped, popArguments_frames taken]

end Action

/-! ## Instructions and cycles -/

theorem Setting.frames_of_running (σ : Setting) {m : Machine} {frame : Frame} {below : List Frame}
    (running : m.frames = frame :: below) :
    (m.placed σ).frames = σ.frame below frame :: σ.frames below :=
  congrArg σ.frames running

namespace Action

variable {m : Machine} {frame : Frame} {below : List Frame}

/-- The instruction, which refers to addresses of the frame that runs, does the same however the
machine is set up, and meets no limit. -/
structure Alike (m : Machine) (below : List Frame) (i : Instruction) : Prop where
  placed : ∀ σ : Setting, step (i.moved (σ.shift below)) (m.placed σ) = σ.result (step i m)
  precedes : Precedes m (reached (step i m))
  unlimited : ∀ f m', step i m = .error f m' → f.isLimit = false

theorem Alike.of_eq {i : Instruction} {r : EStateM.Result Failure Machine Flow} (here : step i m = r)
    (placed : ∀ σ : Setting, step (i.moved (σ.shift below)) (m.placed σ) = σ.result r)
    (precedes : Precedes m (reached r)) (unlimited : ∀ f m', r = .error f m' → f.isLimit = false) :
    Alike m below i := by
  subst here
  exact ⟨placed, precedes, unlimited⟩

theorem alike_of_oblivious {i : Instruction} (oblivious : Oblivious (step i)) (aimless : i.target? = none) :
    Alike m below i := by
  refine ⟨fun σ => ?_, oblivious.precedes m, oblivious.unlimited m⟩
  have same : i.moved (σ.shift below) = i := by
    cases i <;> first | rfl | cases aimless
  rw [same]
  exact oblivious.placed σ m

theorem alike_jump (running : m.frames = frame :: below) (target : Nat) :
    Alike m below (.jump target) :=
  .of_eq (step_jump running target)
    (fun σ => step_jump (σ.frames_of_running running) (target + σ.shift below))
    (.of_same rfl rfl rfl (congrArg (List.map Frame.ground) running).symm)
    fun _ _ => nofun

theorem alike_openHandler (running : m.frames = frame :: below) (target : Nat) :
    Alike m below (.openHandler target) :=
  .of_eq (step_openHandler running target)
    (fun σ => step_openHandler (σ.frames_of_running running) (target + σ.shift below))
    (.of_same rfl rfl rfl (congrArg (List.map Frame.ground) running).symm)
    fun _ _ => nofun

theorem alike_jumpIfFalse (running : m.frames = frame :: below) (target : Nat) :
    Alike m below (.jumpIfFalse target) := by
  cases taken : m.operands.items with
  | nil =>
    have fails : ∀ (m : Machine) target, m.operands.items = [] →
        step (.jumpIfFalse target) m = .error (.fault .operandUnderflow) m := by
      intro m target none
      simp only [step, bind_apply, pop_apply, none]
    refine .of_eq (fails m target taken) (fun σ => fails (m.placed σ) _ taken) (.refl m) fun f m' same => ?_
    cases same
    rfl
  | cons condition rest =>
    have operands : m.operands = ⟨condition :: rest⟩ := congrArg Operands.mk taken
    refine .of_eq (step_jumpIfFalse running target condition operands) (fun σ => ?_)
      (.of_same rfl rfl rfl (congrArg (List.map Frame.ground) running).symm) fun f m' fails => ?_
    · refine (step_jumpIfFalse (σ.frames_of_running running) (target + σ.shift below) condition
        operands).trans ?_
      have same : (m.placed σ).heap = m.heap := rfl
      rw [same]
      cases m.heap.truthy condition <;> rfl
    · cases fails

/-- A call does the same, or starts the same frame. -/
theorem alike_call (method : String) (argc : Nat) :
    Alike m below (.call method argc)
    ∨ ∃ callee m₁, Precedes m m₁ ∧ m₁.frames = m.frames
        ∧ ∀ σ : Setting, step (.call method argc) (m.placed σ)
            = goingOn (pushFrame callee) (m₁.placed σ) := by
  have oblivious := Oblivious.prepareCall method argc
  have precedes := oblivious.precedes m
  have here : step (.call method argc) m = starting (prepareCall method argc m) :=
    step_call_apply method argc m
  have there : ∀ σ : Setting, step (.call method argc) (m.placed σ)
      = starting (σ.result (prepareCall method argc m)) :=
    fun σ => (step_call_apply method argc _).trans (congrArg starting (oblivious.placed σ m))
  cases prepared : prepareCall method argc m with
  | error f m₁ =>
    rw [prepared] at precedes here there
    have unlimited := oblivious.unlimited m f m₁ prepared
    refine .inl (.of_eq here there precedes fun e m' same => ?_)
    cases same
    exact unlimited
  | ok callee? m₁ =>
    rw [prepared] at precedes here there
    cases callee? with
    -- A call that starts no frame has done all its work by now.
    | none => exact .inl (.of_eq here there precedes fun _ _ => nofun)
    | some callee => exact .inr ⟨callee, m₁, precedes, prepareCall_frames prepared, there⟩

/-- An instruction does the same, or starts the same frame, however a machine is set up. -/
theorem step_alike (running : m.frames = frame :: below) (i : Instruction) :
    Alike m below i
    ∨ ∃ callee m₁, Precedes m m₁ ∧ m₁.frames = m.frames
        ∧ ∀ σ : Setting, step (i.moved (σ.shift below)) (m.placed σ)
            = goingOn (pushFrame callee) (m₁.placed σ) := by
  cases aim : i.target? with
  | some target =>
    refine .inl ?_
    cases i with
    | jump target => exact alike_jump running target
    | jumpIfFalse target => exact alike_jumpIfFalse running target
    | openHandler target => exact alike_openHandler running target
    | _ => cases aim
  | none =>
    by_cases calls : ∃ method argc, i = .call method argc
    · obtain ⟨method, argc, rfl⟩ := calls
      exact alike_call method argc
    · push Not at calls
      exact .inl (alike_of_oblivious (Oblivious.step aim calls) aim)

theorem cycle_end_alike (running : m.frames = frame :: below)
    (ended : frame.code.instructions[frame.next]? = none) {σ : Setting}
    (fetches : σ.Fetches frame below none) : cycle (m.placed σ) = σ.result (cycle m) := by
  rw [cycle_end running ended, cycle_end (σ.frames_of_running running) fetches, Setting.isEmpty_frames]
  have same : (m.placed σ).operands = m.operands := rfl
  rw [same]
  -- Whether the caller gets a nil depends on what stays the same in every setting.
  cases kind : frame.kind.givesValue && !below.isEmpty <;>
  · have kind' : ((σ.frame below frame).kind.givesValue && !below.isEmpty) = _ := kind
    rw [kind']
    rfl

theorem fetched_placed (σ : Setting) (m : Machine) (frame : Frame) (below : List Frame) :
    fetched (m.placed σ) (σ.frame below frame) (σ.frames below) = (fetched m frame below).placed σ := by
  simp only [fetched, Machine.placed, Setting.frames, Setting.frame, Nat.add_right_comm]

theorem closing_result (σ : Setting) (r : EStateM.Result Failure Machine Flow) :
    closing (σ.result r) = σ.result (closing r) := by
  rcases r with ⟨flow, m⟩ | ⟨f, m⟩
  · cases flow <;> rfl
  · rfl

theorem precedes_closing {r : EStateM.Result Failure Machine Flow} (h : Precedes m (reached r)) :
    Precedes m (reached (closing r)) := by
  rcases r with ⟨flow, m'⟩ | ⟨f, m'⟩
  · cases flow with
    | next => exact h
    | halt => exact ⟨h.limits, h.executed, h.printed, List.nil_suffix⟩
  · exact h

theorem unlimited_closing {r : EStateM.Result Failure Machine Flow}
    (h : ∀ f m', r = .error f m' → f.isLimit = false) :
    ∀ f m', closing r = .error f m' → f.isLimit = false := by
  rcases r with ⟨flow, m⟩ | ⟨e, m⟩
  · cases flow <;> exact fun _ _ => nofun
  · intro f m' same
    cases same
    exact h e m rfl

theorem entered_placed (σ : Setting) (running : m.frames ≠ []) (callee : Frame) :
    entered (m.placed σ) callee = (entered m callee).placed σ := by
  simp only [entered, Machine.placed, Setting.frames, σ.frame_of_ne running]

/-- A cycle does the same, or starts the same frame, however a machine is set up. -/
theorem cycle_alike (running : m.frames = frame :: below) (i : Instruction) :
    (∃ r, Precedes (fetched m frame below) (reached r) ∧ (∀ f m', r = .error f m' → f.isLimit = false)
      ∧ ∀ σ : Setting, σ.Spares m → σ.Fetches frame below (some i) → cycle (m.placed σ) = σ.result r)
    ∨ ∃ callee m₁, Precedes (fetched m frame below) m₁ ∧ m₁.frames = (fetched m frame below).frames
      ∧ ∀ σ : Setting, σ.Spares m → σ.Fetches frame below (some i) → cycle (m.placed σ)
          = if σ.limits.maxDepth ≤ m₁.frames.length then
              .error (.callDepth (m₁.frames.length + 1) σ.limits.maxDepth) (m₁.placed σ)
            else .ok true ((entered m₁ callee).placed σ) := by
  have cycled : ∀ σ : Setting, σ.Spares m → σ.Fetches frame below (some i) → cycle (m.placed σ)
      = closing (step (i.moved (σ.shift below)) ((fetched m frame below).placed σ)) := by
    intro σ spares fetches
    rw [cycle_step (σ.frames_of_running running) fetches spares, fetched_placed]
  -- Fetching and counting commute with the setting, so what is left is one instruction.
  have counted : (fetched m frame below).frames = { frame with next := frame.next + 1 } :: below := rfl
  rcases step_alike counted i with ⟨alike, precedes, unlimited⟩ | ⟨callee, m₁, precedes, same, alike⟩
  · refine .inl ⟨closing (step i (fetched m frame below)), precedes_closing precedes,
      unlimited_closing unlimited, fun σ spares fetches => ?_⟩
    rw [cycled σ spares fetches, alike σ, closing_result]
  · refine .inr ⟨callee, m₁, precedes, same, fun σ spares fetches => ?_⟩
    rw [cycled σ spares fetches, alike σ]
    -- The caller is still there, so the new frame is not the outermost one and stays as it is.
    have alive : m₁.frames ≠ [] := by
      rw [same]
      exact List.cons_ne_nil _ _
    simp only [goingOn, bind_apply, pushFrame_apply, ← entered_placed σ alive]
    have length : (m₁.placed σ).frames.length = m₁.frames.length := σ.length_frames m₁.frames
    have limits : (m₁.placed σ).limits = σ.limits := rfl
    rw [length, limits]
    by_cases full : σ.limits.maxDepth ≤ m₁.frames.length
    · rw [if_pos full, if_pos full]
      rfl
    · rw [if_neg full, if_neg full]
      rfl

end Action

end Monogram
