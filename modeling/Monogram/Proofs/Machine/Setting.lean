import Monogram.Proofs.Machine.Composition
import Monogram.Proofs.Machine.Run

/-! # Machines that are set up differently

What an instruction does depends neither on the limits nor on the instructions counted so far, and the
code of the outermost frame may stand at other addresses.  Two machines that differ in nothing else do
the same, and go on to differ in nothing else.

* `Setting`, `Machine.placed` — the machine set up in another way.
* `Machine.under`, `Limits.on` — the same machine and the same result under other limits.
* `Precedes` — what every instruction leaves as it is.
* `Oblivious` — an action that does the same on machines that are set up differently.
* `Oblivious.step` — every instruction that neither refers to an address nor calls.
-/

namespace Monogram

open Monogram.Action

/-! ## Settings -/

/-- How a machine is set up apart from what it works on. -/
structure Setting where
  limits : Limits
  /-- What the outermost frame runs in place of its code. -/
  code : Code → Code
  /-- By how much its addresses are higher. -/
  offset : Nat
  /-- The instructions counted before. -/
  count : Nat

/-- The handler at an address that is higher by so much. -/
def Handler.moved (k : Nat) (h : Handler) : Handler := { h with address := h.address + k }

/-- The instruction with the address it refers to higher by so much. -/
def Instruction.moved (k : Nat) : Instruction → Instruction
  | .jump target => .jump (target + k)
  | .jumpIfFalse target => .jumpIfFalse (target + k)
  | .openHandler target => .openHandler (target + k)
  | i => i

namespace Setting

/-- By how much the addresses of a frame above others are higher: not at all unless it is the outermost
one. -/
def shift (σ : Setting) (below : List Frame) : Nat := if below.isEmpty then σ.offset else 0

/-- A frame above others. -/
def frame (σ : Setting) (below : List Frame) (f : Frame) : Frame :=
  { f with
    code := if below.isEmpty then σ.code f.code else f.code
    next := f.next + σ.shift below
    handlers := f.handlers.map (Handler.moved (σ.shift below)) }

/-- All frames. -/
def frames (σ : Setting) : List Frame → List Frame
  | [] => []
  | f :: below => σ.frame below f :: σ.frames below

end Setting

/-- The machine, set up in another way. -/
def Machine.placed (m : Machine) (σ : Setting) : Machine :=
  { m with limits := σ.limits, frames := σ.frames m.frames, executed := m.executed + σ.count }

namespace Setting

/-- The machine finds the instruction, with its addresses moved, where it goes on when it is set up so. -/
def Fetches (σ : Setting) (frame : Frame) (below : List Frame) (i? : Option Instruction) : Prop :=
  (σ.frame below frame).code.instructions[(σ.frame below frame).next]?
    = i?.map (Instruction.moved (σ.shift below))

/-- One more instruction may be counted when the machine is set up so. -/
def Spares (σ : Setting) (m : Machine) : Prop :=
  ∀ limit, σ.limits.maxInstructions = some limit → m.executed + σ.count < limit

variable {α : Type}

/-- A result on a machine that is set up in another way. -/
def result (σ : Setting) : EStateM.Result Failure Machine α → EStateM.Result Failure Machine α
  | .ok a m => .ok a (m.placed σ)
  | .error f m => .error f (m.placed σ)

variable (σ : Setting)

@[simp] theorem isEmpty_frames (frames : List Frame) : (σ.frames frames).isEmpty = frames.isEmpty := by
  cases frames <;> rfl

@[simp] theorem length_frames (frames : List Frame) : (σ.frames frames).length = frames.length := by
  induction frames with
  | nil => rfl
  | cons f below ih => exact congrArg (· + 1) ih

theorem tail_frames (frames : List Frame) : (σ.frames frames).tail = σ.frames frames.tail := by
  cases frames <;> rfl

/-- Above other frames nothing changes. -/
theorem frame_of_ne {below : List Frame} (above : below ≠ []) (f : Frame) : σ.frame below f = f := by
  have inner : below.isEmpty = false := by
    cases below with
    | nil => exact absurd rfl above
    | cons => rfl
  obtain ⟨code, next, this, handlers, kind⟩ := f
  -- The addresses are the same ones; only the list of handlers has been gone through.
  simp only [frame, shift, inner, Bool.false_eq_true, if_false, Nat.add_zero, Frame.mk.injEq, true_and,
    and_true]
  exact List.map_id' handlers

end Setting

@[simp] theorem Instruction.moved_zero (i : Instruction) : i.moved 0 = i := by
  cases i <;> rfl

/-! ## Other limits alone -/

/-- The machine under these limits. -/
def Machine.under (m : Machine) (l : Limits) : Machine := { m with limits := l }

theorem Machine.placed_under (m : Machine) (l : Limits) (σ : Setting) :
    (m.under l).placed σ = m.placed σ := rfl

namespace Limits

/-- The result under these limits. -/
def on {α : Type} (l : Limits) : EStateM.Result Failure Machine α → EStateM.Result Failure Machine α
  | .ok a m => .ok a (m.under l)
  | .error f m => .error f (m.under l)

/-- Nothing is set up differently but the limits. -/
def setting (l : Limits) : Setting := ⟨l, id, 0, 0⟩

theorem shift_setting (l : Limits) (below : List Frame) : l.setting.shift below = 0 := ite_self 0

theorem frame_setting (l : Limits) (below : List Frame) (frame : Frame) :
    l.setting.frame below frame = frame := by
  cases below with
  | nil =>
    obtain ⟨code, next, this, handlers, kind⟩ := frame
    exact congrArg (Frame.mk code next this · kind) (List.map_id' handlers)
  | cons => exact l.setting.frame_of_ne (List.cons_ne_nil _ _) frame

theorem placed_setting (l : Limits) (m : Machine) : m.placed l.setting = m.under l := by
  have frames : l.setting.frames m.frames = m.frames := by
    induction m.frames with
    | nil => rfl
    | cons frame below ih => rw [Setting.frames, frame_setting, ih]
  rw [Machine.placed, frames]
  rfl

theorem result_setting {α : Type} (l : Limits) (r : EStateM.Result Failure Machine α) :
    l.setting.result r = l.on r := by
  cases r <;> simp only [Setting.result, on, placed_setting]

theorem result_on {α : Type} (l : Limits) (σ : Setting) (r : EStateM.Result Failure Machine α) :
    σ.result (l.on r) = σ.result r := by
  cases r <;> rfl

/-- The code is where it was. -/
theorem fetches_setting (l : Limits) (frame : Frame) (below : List Frame) :
    l.setting.Fetches frame below frame.code.instructions[frame.next]? := by
  rw [Setting.Fetches, frame_setting, shift_setting]
  cases frame.code.instructions[frame.next]? <;> simp

end Limits

/-! ## What instructions leave as it is -/

/-- The machine that an action has come to. -/
def reached {α : Type} : EStateM.Result Failure Machine α → Machine
  | .ok _ m | .error _ m => m

/-- What holds between a machine and the one that each of two actions comes to holds for both, one
behind the other. -/
theorem reached_bind {α γ : Type} {R : Machine → Machine → Prop} {p : Action α} {q : α → Action γ}
    (trans : ∀ {m m₁ m₂}, R m m₁ → R m₁ m₂ → R m m₂) (first : ∀ m, R m (reached (p m)))
    (others : ∀ a m, R m (reached (q a m))) (m : Machine) : R m (reached ((p >>= q) m)) := by
  have front := first m
  rw [bind_apply]
  cases done : p m with
  | ok a m₁ =>
    rw [done] at front
    exact trans front (others a m₁)
  | error f m₁ =>
    rw [done] at front
    exact front

/-- What of a frame stays for as long as it lives. -/
def Frame.ground (f : Frame) : Code × FrameKind × Bool := (f.code, f.kind, f.this.isSome)

/-- From the first machine to the second the setting stays, printed text is only added to, and frames
only end. -/
structure Precedes (m m' : Machine) : Prop where
  limits : m'.limits = m.limits
  executed : m'.executed = m.executed
  printed : ∃ more, m'.console.output = m.console.output ++ more
  frames : m'.frames.map Frame.ground <:+ m.frames.map Frame.ground

namespace Precedes

theorem of_same {m m' : Machine} (limits : m'.limits = m.limits) (executed : m'.executed = m.executed)
    (console : m'.console = m.console) (frames : m'.frames.map Frame.ground = m.frames.map Frame.ground) :
    Precedes m m' :=
  ⟨limits, executed, ⟨"", by rw [console, String.append_empty]⟩, frames ▸ List.suffix_refl _⟩

theorem refl (m : Machine) : Precedes m m := of_same rfl rfl rfl rfl

theorem trans {m m₁ m₂ : Machine} (h : Precedes m m₁) (h' : Precedes m₁ m₂) : Precedes m m₂ := by
  obtain ⟨more, printed⟩ := h.printed
  obtain ⟨more', printed'⟩ := h'.printed
  exact ⟨h'.limits.trans h.limits, h'.executed.trans h.executed,
    ⟨more ++ more', by rw [printed', printed, String.append_assoc]⟩, h'.frames.trans h.frames⟩

theorem depth {m m' : Machine} (h : Precedes m m') : m'.frames.length ≤ m.frames.length := by
  have shorter := h.frames.length_le
  rwa [List.length_map, List.length_map] at shorter

end Precedes

/-! ## Actions that do the same -/

/-- The action does the same on machines that are set up differently. -/
structure Oblivious {α : Type} (a : Action α) : Prop where
  placed : ∀ (σ : Setting) (m : Machine), a (m.placed σ) = σ.result (a m)
  precedes : ∀ m : Machine, Precedes m (reached (a m))
  unlimited : ∀ (m : Machine) f m', a m = .error f m' → f.isLimit = false

namespace Oblivious

variable {α γ : Type}

theorem value (a : α) : Oblivious (pure a : Action α) :=
  ⟨fun _ _ => rfl, Precedes.refl, fun _ _ _ => nofun⟩

theorem fault (f : Fault) : Oblivious (fault f : Action α) :=
  ⟨fun _ _ => rfl, Precedes.refl, fun _ _ _ fails => by cases fails; rfl⟩

theorem bind {p : Action α} {q : α → Action γ} (first : Oblivious p) (others : ∀ a, Oblivious (q a)) :
    Oblivious (p >>= q) := by
  constructor
  · intro σ m
    rw [bind_apply, bind_apply, first.placed]
    cases p m with
    | ok a m₁ => exact (others a).placed σ m₁
    | error f m₁ => rfl
  · exact reached_bind Precedes.trans first.precedes fun a => (others a).precedes
  · intro m f m' fails
    rw [bind_apply] at fails
    cases done : p m with
    | ok a m₁ =>
      rw [done] at fails
      exact (others a).unlimited m₁ f m' fails
    | error e m₁ =>
      rw [done] at fails
      cases fails
      exact first.unlimited m _ _ done

/-- What is looked at is the same. -/
theorem look {q : Machine → Action α} (same : ∀ (σ : Setting) m, q (m.placed σ) = q m)
    (others : ∀ m, Oblivious (q m)) : Oblivious (get >>= q) := by
  constructor
  · intro σ m
    rw [bind_apply, bind_apply, get_apply, get_apply]
    -- Both machines choose the same action, which is then carried out on different ones.
    exact (congrFun (same σ m) _).trans ((others m).placed σ m)
  · intro m
    exact (others m).precedes m
  · intro m
    exact (others m).unlimited m

theorem change {f : Machine → Machine} (placed : ∀ σ m, f (m.placed σ) = (f m).placed σ)
    (precedes : ∀ m, Precedes m (f m)) : Oblivious (modify f : Action Unit) :=
  ⟨fun σ m => congrArg (EStateM.Result.ok ()) (placed σ m), precedes, fun _ _ _ => nofun⟩

/-- A change of what is not set up. -/
theorem change_within {f : Machine → Machine} (placed : ∀ σ m, f (m.placed σ) = (f m).placed σ)
    (limits : ∀ m, (f m).limits = m.limits) (executed : ∀ m, (f m).executed = m.executed)
    (console : ∀ m, (f m).console = m.console)
    (frames : ∀ m, (f m).frames.map Frame.ground = m.frames.map Frame.ground) :
    Oblivious (modify f : Action Unit) :=
  change placed fun m => .of_same (limits m) (executed m) (console m) (frames m)

theorem sees {β : Type} {f : Machine → β} (same : ∀ σ m, f (m.placed σ) = f m) : Sees Oblivious f :=
  fun alike others => look (fun σ m => alike _ _ (same σ m)) others

theorem composes : Composes Oblivious where
  value := value
  fault := fault
  bind := bind
  operands := sees fun _ _ => rfl
  change _ := change_within (fun _ _ => rfl) (fun _ => rfl) (fun _ => rfl) (fun _ => rfl) (fun _ => rfl)

/-! ### The heap and the console -/

theorem alloc (make : Heap → Value × Heap) : Oblivious (alloc make) :=
  ⟨fun _ _ => rfl, fun _ => .of_same rfl rfl rfl rfl, fun _ _ _ => nofun⟩

theorem modifyHeap (f : Heap → Heap) : Oblivious (modifyHeap f) :=
  change_within (fun _ _ => rfl) (fun _ => rfl) (fun _ => rfl) (fun _ => rfl) (fun _ => rfl)

theorem consult {ask : Console → α × Console} (appends : Console.Appends ask) :
    Oblivious (consult ask) :=
  ⟨fun _ _ => rfl, fun m => ⟨rfl, rfl, appends m.console, List.suffix_refl _⟩, fun _ _ _ => nofun⟩

/-! ### The frame that runs -/

theorem modifyFrame {f : Frame → Frame}
    (placed : ∀ (σ : Setting) below frame, f (σ.frame below frame) = σ.frame below (f frame))
    (ground : ∀ frame, (f frame).ground = frame.ground) : Oblivious (modifyFrame f) := by
  constructor
  · rintro σ ⟨limits, console, classes, heap, frames, operands, slots, globals, executed⟩
    cases frames with
    | nil => rfl
    | cons frame below =>
      exact congrArg (fun top => EStateM.Result.ok () (Machine.mk σ.limits console classes heap
        (top :: σ.frames below) operands slots globals (executed + σ.count))) (placed σ below frame)
  · rintro ⟨limits, console, classes, heap, frames, operands, slots, globals, executed⟩
    cases frames with
    | nil => exact .refl _
    | cons frame below =>
      exact .of_same rfl rfl rfl (congrArg (· :: below.map Frame.ground) (ground frame))
  · exact fun _ _ _ => nofun

theorem closeHandler :
    Oblivious (Action.modifyFrame fun frame => { frame with handlers := frame.handlers.tail }) :=
  modifyFrame (fun σ below frame => by simp only [Setting.frame, List.map_tail]) fun _ => rfl

theorem lookup (name : String) : Oblivious (lookup name) := by
  refine look (fun σ m => ?_) fun m => value _
  obtain ⟨limits, console, classes, heap, frames, operands, slots, globals, executed⟩ := m
  cases frames <;> rfl

theorem assign (name : String) (v : Value) : Oblivious (assign name v) := by
  constructor
  · rintro σ ⟨limits, console, classes, heap, frames, operands, slots, globals, executed⟩
    cases frames with
    | nil => rfl
    | cons frame below =>
      -- Only a frame with a receiver can store into the name `this`; else the name is a global.
      by_cases own : name = "this" ∧ frame.this.isSome
      · have own' : name = "this" ∧ (σ.frame below frame).this.isSome := own
        simp only [Action.assign, modify_apply, Machine.placed, Setting.frames, if_pos own, if_pos own',
          Setting.result]
        rfl
      · have own' : ¬ (name = "this" ∧ (σ.frame below frame).this.isSome) := own
        simp only [Action.assign, modify_apply, Machine.placed, Setting.frames, if_neg own, if_neg own',
          Setting.result]
  · rintro ⟨limits, console, classes, heap, frames, operands, slots, globals, executed⟩
    cases frames with
    | nil => exact .of_same rfl rfl rfl rfl
    | cons frame below =>
      by_cases own : name = "this" ∧ frame.this.isSome
      · simp only [Action.assign, modify_apply, if_pos own]
        have same : (frame.code, frame.kind, true) = frame.ground := by rw [Frame.ground, own.2]
        exact .of_same rfl rfl rfl (congrArg (· :: below.map Frame.ground) same)
      · simp only [Action.assign, modify_apply, if_neg own]
        exact .of_same rfl rfl rfl rfl
  · intro m f m' fails
    cases fails

theorem callerClass_placed (σ : Setting) (m : Machine) : (m.placed σ).callerClass = m.callerClass := by
  obtain ⟨limits, console, classes, heap, frames, operands, slots, globals, executed⟩ := m
  cases frames <;> rfl

theorem checkField (address : Address) (field : String) : Oblivious (checkField address field) := by
  refine look (fun σ m => ?_) fun m => composes.lift _
  rw [callerClass_placed]
  rfl

theorem construct (className : String) (argc : Nat) :
    Oblivious (Action.step (.construct className argc)) := by
  refine (composes.popArguments argc).bind fun _ => look (fun _ _ => rfl) fun m => ?_
  dsimp only
  cases m.classes.byName? className with
  | some image => exact composes.leaves (alloc _)
  | none => exact (fault _).bind fun _ => value _

theorem calculates : Calculates Oblivious where
  toComposes := composes
  truthy _ := sees fun _ _ => rfl
  arithmetic _ _ _ := sees fun _ _ => rfl
  compare _ _ _ := sees fun _ _ => rfl
  load _ _ := sees fun _ _ => rfl
  getField _ _ := sees fun _ _ => rfl
  getStatic _ _ := sees fun _ _ => rfl
  display := sees fun _ _ => rfl
  checkField := checkField
  setField _ _ _ := modifyHeap _
  storing _ _ _ _ next := look (fun _ _ => rfl) fun _ => (composes.lift _).bind fun _ =>
    (modifyHeap _).bind fun _ => next
  allocList _ := alloc _
  allocMap _ := alloc _
  construct := construct
  consult := consult

/-! ### Raised values -/

theorem findHandler_frames (σ : Setting) (frames : List Frame) :
    findHandler (σ.frames frames) = (findHandler frames).map fun (handler, frame, below) =>
      (handler.moved (σ.shift below), σ.frame below frame, σ.frames below) := by
  induction frames with
  | nil => rfl
  | cons frame below ih =>
    obtain ⟨code, next, this, handlers, kind⟩ := frame
    cases handlers with
    | nil => exact ih
    | cons handler others => rfl

theorem suffix_of_findHandler {frames below : List Frame} {handler : Handler} {frame : Frame}
    (found : findHandler frames = some (handler, frame, below)) :
    (frame.ground :: below.map Frame.ground) <:+ frames.map Frame.ground := by
  induction frames with
  | nil => cases found
  | cons top rest ih =>
    obtain ⟨code, next, this, handlers, kind⟩ := top
    cases handlers with
    | nil => exact (ih found).trans (List.suffix_cons _ _)
    | cons first others =>
      cases found
      exact List.suffix_refl _

theorem raiseValue (v : Value) : Oblivious (raiseValue v) := by
  constructor
  · intro σ m
    simp only [Action.raiseValue, bind_apply, get_apply]
    have placed : (m.placed σ).frames = σ.frames m.frames := rfl
    -- The handler that is found has moved with the code of its frame, so the frame goes on at the same
    -- instruction.
    rw [placed, findHandler_frames]
    cases findHandler m.frames with
    | none => rfl
    | some found =>
      obtain ⟨handler, frame, below⟩ := found
      rfl
  · intro m
    simp only [Action.raiseValue, bind_apply, get_apply]
    cases found : findHandler m.frames with
    | none => exact ⟨rfl, rfl, ⟨"", String.append_empty.symm⟩, List.nil_suffix⟩
    | some unwound =>
      obtain ⟨handler, frame, below⟩ := unwound
      -- The frames above the handler are gone, and the others have only lost handlers.
      have shorter := suffix_of_findHandler found
      exact ⟨rfl, rfl, ⟨"", String.append_empty.symm⟩, shorter⟩
  · intro m f m' fails
    cases found : findHandler m.frames with
    | none =>
      rw [raiseValue_of_none found] at fails
      cases fails
      rfl
    | some unwound =>
      obtain ⟨handler, frame, below⟩ := unwound
      rw [raiseValue_of_handler found] at fails
      cases fails

/-! ### Instructions -/

theorem giveBack : Oblivious (Action.step .giveBack) := by
  refine composes.pop.bind fun v => Oblivious.bind (change (fun σ m => ?_) fun m => ?_) fun _ => ?_
  · exact congrArg (fun frames => Machine.mk σ.limits m.console m.classes m.heap frames m.operands
      m.slots m.globals (m.executed + σ.count)) (σ.tail_frames m.frames)
  · have shorter : m.frames.tail.map Frame.ground <:+ m.frames.map Frame.ground := by
      rw [List.map_tail]
      exact List.tail_suffix _
    exact ⟨rfl, rfl, ⟨"", String.append_empty.symm⟩, shorter⟩
  · -- A value is left only if some frame is, which the setting does not change.
    refine look (fun σ m => ?_) fun m => ?_
    · rw [Machine.placed, Setting.isEmpty_frames]
    · dsimp only
      cases m.frames.isEmpty with
      | true => exact value _
      | false => exact (composes.push v).bind fun _ => value _

/-- An instruction that neither refers to an address nor calls. -/
theorem step {i : Instruction} (aimless : i.target? = none) (calls : ∀ method argc, i ≠ .call method argc) :
    Oblivious (Action.step i) := by
  cases i with
  | halt => exact value _
  | pop => exact composes.pop.bind fun _ => value _
  | loadSlot slot => exact look (fun _ _ => rfl) fun _ => composes.leaves (value _)
  | storeSlot slot =>
    refine composes.peek.bind fun v => Oblivious.bind ?_ fun _ => value _
    exact change_within (fun _ _ => rfl) (fun _ => rfl) (fun _ => rfl) (fun _ => rfl) (fun _ => rfl)
  | loadName name => exact composes.leaves (lookup name)
  | storeName name => exact composes.peek.bind fun _ => (assign name _).bind fun _ => value _
  | storeStatic field =>
    refine composes.pop.bind fun v => composes.pop.bind fun c => (composes.expectClass c field).bind
      fun id => look (fun _ _ => rfl) fun m => (composes.lift _).bind fun classes => ?_
    refine Oblivious.bind ?_ fun _ => composes.leaves (value v)
    exact change_within (fun _ _ => rfl) (fun _ => rfl) (fun _ => rfl) (fun _ => rfl) (fun _ => rfl)
  | giveBack => exact giveBack
  | closeHandler => exact closeHandler.bind fun _ => value _
  | raise => exact composes.pop.bind fun v => (raiseValue v).bind fun _ => value _
  | jump | jumpIfFalse | openHandler => cases aimless
  | call method argc => exact absurd rfl (calls method argc)
  | _ => exact calculates.step rfl

end Oblivious

end Monogram
