import Monogram.Proofs.Classes.Nearest
import Monogram.Proofs.Session.Reached

/-! # Hidden members

A hidden member is open to a frame whose `this` is an object of the class that declares it.  A method
has its receiver there, unless it stores something else into the name.

* `Uses` — an instruction that uses a member of an object.
* `Session.Reached.hidden_guarded` — what a frame is that uses a hidden member.
* `thief_not_receiversOnly` — its receiver need not be of that class.
-/

namespace Monogram

open Monogram.Action

/-- The next instruction uses a member of an object. -/
inductive Uses (m : Machine) : Member → Address → Prop where
  | load {frame : Frame} {below : List Frame} {field : String} {address : Address}
      {rest : List Value} (running : m.frames = frame :: below)
      (here : frame.code.instructions[frame.next]? = some (.loadField field))
      (taken : m.operands = ⟨.object address :: rest⟩) : Uses m (.field field) address
  | store {frame : Frame} {below : List Frame} {field : String} {address : Address} {v : Value}
      {rest : List Value} (running : m.frames = frame :: below)
      (here : frame.code.instructions[frame.next]? = some (.storeField field))
      (taken : m.operands = ⟨v :: .object address :: rest⟩) : Uses m (.field field) address
  | call {frame : Frame} {below : List Frame} {method : String} {address : Address}
      {args rest : List Value} (running : m.frames = frame :: below)
      (here : frame.code.instructions[frame.next]? = some (.call method args.length))
      (taken : m.operands = ⟨args.reverse ++ .object address :: rest⟩) : Uses m (.method method) address

/-! ## What the checks look at -/

variable {m m' : Machine} {history : List Activation} {member : Member} {address : Address}
  {steps : Nat} {d : ClassImage}

/-- An evaluation that has come past a check has passed it. -/
theorem Eval.passed_of_done {α γ : Type} {result : Except Fault α} {next : α → Eval Code γ}
    {scene after : Scene} {c : γ} (done : (lift result >>= next) scene = .done c after) :
    ∃ a, result = .ok a := by
  cases result with
  | ok a => exact ⟨a, rfl⟩
  | error f => cases done

theorem Eval.checked_of_loadField {field : String} {scene after : Scene} {v : Value}
    (done : Eval.loadField (.object address) field scene = .done v after) :
    scene.classes.checkField (scene.heap.object address).image field scene.callerClass = .ok () :=
  (passed_of_done done).elim fun _ passed => passed

theorem Eval.checked_of_storeField {field : String} {scene after : Scene} {v v' : Value}
    (done : Eval.storeField (.object address) field v scene = .done v' after) :
    scene.classes.checkField (scene.heap.object address).image field scene.callerClass = .ok () :=
  (passed_of_done done).elim fun _ passed => passed

/-- What succeeds has not ended in a fault. -/
theorem done_of_carry {rest : List Value} {e : Ending Code Value} {m₁ m₂ : Machine} {flow : Flow}
    (tame : e.Tame) (carried : carry m₁ rest e = .ok flow m₂) : ∃ v after, e = .done v after := by
  cases e with
  | done v after => exact ⟨v, after, rfl⟩
  | faulted f after => cases carried
  | raised v after => exact tame.elim
  | unfinished => exact tame.elim

theorem fetched_callerClass {frame : Frame} {below : List Frame} (running : m.frames = frame :: below) :
    (fetched m frame below).scene.callerClass = m.callerClass := by
  rw [m.callerClass_eq, Machine.scene, Machine.scene, Machine.this, Machine.this, running]
  rfl

/-- A hidden member is used by a frame whose `this` is an object of the class that declares it. -/
theorem Uses.callerClass_eq (uses : Uses m member address) (succeeds : cycle m = .ok true m')
    (nearest : Nearest m.classes member steps (m.heap.object address).image d .hidden) :
    m.callerClass = some d.name := by
  cases uses with
  | @load frame below field _ rest running here taken =>
    obtain ⟨flow, m₁, stepped⟩ := step_of_cycle running here succeeds
    rw [step_loadField (m := fetched m frame below) rfl (.object address) field taken] at stepped
    obtain ⟨v, after, done⟩ := done_of_carry (Eval.tame_loadField _ _ _) stepped
    rw [← fetched_callerClass running]
    exact nearest.caller_of_checkField (Eval.checked_of_loadField done)
  | @store frame below field _ v rest running here taken =>
    obtain ⟨flow, m₁, stepped⟩ := step_of_cycle running here succeeds
    rw [step_storeField (m := fetched m frame below) rfl (.object address) v field taken] at stepped
    obtain ⟨v', after, done⟩ := done_of_carry (Eval.tame_storeField _ _ _ _) stepped
    rw [← fetched_callerClass running]
    exact nearest.caller_of_checkField (Eval.checked_of_storeField done)
  | @call frame below method _ args rest running here taken =>
    obtain ⟨flow, m₁, stepped⟩ := step_of_cycle running here succeeds
    -- A call checks the member as it looks for the body, so a failed check fails the call.
    rw [step_call (m := fetched m frame below) rfl method (.object address) args taken] at stepped
    rw [← fetched_callerClass running]
    simp only [Eval.callee] at stepped
    cases found : (fetched m frame below).scene.classes.resolveMethod
      ((fetched m frame below).scene.heap.object address).image method
      (fetched m frame below).scene.callerClass with
    | ok body => exact nearest.caller_of_resolveMethod found
    | error f =>
      rw [found] at stepped
      cases stepped

/-! ## What `this` stands for -/

/-- The frame was entered by a call of a method of the object at `receiver`. -/
def Activation.EnteredOn (a : Activation) (receiver : Address) : Prop :=
  ∃ code below, a.entry.frames = .start code .method (some (.object receiver)) :: below

/-- In a frame whose `this` is an object, it is the receiver of the call that entered the frame, until
the frame stores into the name, and what has been stored last from then on. -/
theorem Sound.this_of_callerClass (sound : Sound m history) {name : String}
    (caller : m.callerClass = some name) :
    ∃ frame below a older receiver object, m.frames = frame :: below ∧ frame.kind = .method
      ∧ history = a :: older ∧ a.EnteredOn receiver
      ∧ a.stores.head?.getD (.object receiver) = .object object
      ∧ (m.heap.object object).image.name = name := by
  cases running : m.frames with
  | nil => simp [Machine.callerClass, running] at caller
  | cons frame below =>
    obtain ⟨label, a, older, own, base, rfl, -, fits, -⟩ := (running ▸ sound.layout).inv
    obtain ⟨receiver, started⟩ := fits.started
    simp only [Machine.callerClass, running, started.this] at caller
    cases receiver with
    | none => simp at caller
    | some receiver =>
      have kind := started.kind rfl
      have entered : a.EnteredOn receiver := by
        have frames := started.frames
        rw [kind] at frames
        exact ⟨_, below, frames⟩
      simp only [Option.map_some] at caller
      -- There is a caller's class only if `this` stands for an object, whether it was stored or not.
      cases meaning : a.stores.head?.getD (.object receiver) with
      | object object =>
        rw [meaning] at caller
        exact ⟨frame, below, a, older, receiver, object, rfl, kind, rfl, entered, meaning,
          Option.some.inj caller⟩
      | _ => simp [meaning] at caller

namespace Session.Reached

variable {limits : Limits} {console : Console} {s : Session} {p : Program} {later : List Frame}

/-- A hidden member is used in a frame that was entered by a call of a method of some object, and in
which `this` is an object of the class that declares the member: the receiver of that call if the
frame has stored nothing into the name, and else what it has stored there last. -/
theorem hidden_guarded (reached : s.Reached limits console) (lowered : p.Lowered)
    (passes : Passes p.pieces (s.machine.loading p) later m history)
    (uses : Uses m member address) (succeeds : cycle m = .ok true m')
    (nearest : Nearest m.classes member steps (m.heap.object address).image d .hidden) :
    ∃ frame below a older receiver object, m.frames = frame :: below ∧ frame.kind = .method
      ∧ history = a :: older ∧ a.EnteredOn receiver
      ∧ a.stores.head?.getD (.object receiver) = .object object
      ∧ (m.heap.object object).image.name = d.name := by
  have loaded := reached.rested.loading lowered
  have sound := (passes.sound loaded lowered.pieces_startable).1
  exact sound.this_of_callerClass (uses.callerClass_eq succeeds nearest)

end Session.Reached

/-! ## A store into `this` -/

/-- Whenever a hidden member is used, the receiver is an object of the class that declares it. -/
def ReceiversOnly (m : Machine) (history : List Activation) : Prop :=
  ∀ member address steps d m', Uses m member address → cycle m = .ok true m' →
    Nearest m.classes member steps (m.heap.object address).image d .hidden →
    ∃ a older receiver, history = a :: older ∧ a.EnteredOn receiver
      ∧ (m.heap.object receiver).image.name = d.name

/-- A method of one class stores an object of another class into `this`, and uses a hidden field of
it. -/
def thief : List Stmt :=
  [.classDecl ⟨"Vault", none, [], [⟨5, "secret", none, some .hidden, false⟩], [], false⟩,
    .classDecl ⟨"Thief", none,
      [⟨"take", [],
        [.expression (.assign "this" (.construct "Vault" [])),
          .giveBack (some (.member (.variable "this") "secret"))], 5, none, false⟩], [], [], false⟩,
    .expression (.call (.member (.construct "Thief" []) "take") [])]

/-- Its code. -/
def thiefProgram : Program :=
  match Names.empty.lowerProgram thief with
  | .ok (p, _) => p
  | .error _ => default

theorem thiefProgram_lowered : thiefProgram.Lowered := ⟨.empty, thief, _, rfl⟩

/-- Whether the next instruction reads a field that the class of the object hides, in a frame that was
entered on an object of a class of another name. -/
def stolen (m : Machine) (history : List Activation) : Bool :=
  match m.frames, m.operands, history with
  | frame :: _, ⟨.object address :: _⟩, ⟨entry, _, _⟩ :: _ =>
    match frame.code.instructions[frame.next]?, entry.frames with
    | some (.loadField field), ⟨_, _, some (.object receiver), _, _⟩ :: _ =>
      let image := (m.heap.object address).image
      image.declared? (.field field) == some .hidden
        && (m.heap.object receiver).image.name != image.name
        && match cycle m with
          | .ok ended _ => ended
          | .error _ _ => false
    | _, _ => false
  | _, _, _ => false

/-- What such a machine uses, and on what its frame was entered. -/
theorem stolen_uses (h : stolen m history = true) :
    ∃ member address steps d m', Uses m member address ∧ cycle m = .ok true m'
      ∧ Nearest m.classes member steps (m.heap.object address).image d .hidden
      ∧ ∀ a older receiver, history = a :: older → a.EnteredOn receiver →
        (m.heap.object receiver).image.name ≠ d.name := by
  unfold stolen at h
  split at h
  · next frame below address rest entry tries stores older running taken =>
    split at h
    · next field code next receiver handlers kind callers here entered =>
      simp only [Bool.and_eq_true, beq_iff_eq, bne_iff_ne] at h
      obtain ⟨⟨hidden, other⟩, succeeds⟩ := h
      cases cycled : cycle m with
      | ok ended m' =>
        rw [cycled] at succeeds
        obtain rfl : ended = true := succeeds
        refine ⟨.field field, address, 0, _, m', .load running here taken, rfl, .here hidden, ?_⟩
        rintro a older receiver' same ⟨code', below', frames⟩
        cases same
        rw [entered] at frames
        cases frames
        exact other
      | error f m' =>
        rw [cycled] at succeeds
        cases succeeds
    · cases h
  · cases h

theorem thief_stolen :
    ((Passes.after thiefProgram.pieces (Machine.loading (.new .usual default) thiefProgram) 7).any
      fun progress => stolen progress.2.1 progress.2.2) = true := by
  decide +kernel

/-- The receiver need not be of the class that hides a member. -/
theorem thief_not_receiversOnly :
    ∃ later m history,
      Passes thiefProgram.pieces (Machine.loading (.new .usual default) thiefProgram) later m history
      ∧ ¬ ReceiversOnly m history := by
  obtain ⟨⟨later, m, history⟩, reached, stolen⟩ := (Option.any_eq_true _ _).1 thief_stolen
  refine ⟨later, m, history, Passes.of_after reached, fun only => ?_⟩
  obtain ⟨member, address, steps, d, m', uses, succeeds, nearest, other⟩ := stolen_uses stolen
  obtain ⟨a, older, receiver, same, entered, named⟩ := only _ _ _ _ _ uses succeeds nearest
  exact other a older receiver same entered named

/-- There, `this` is the object that has been stored, which is of that class. -/
theorem hidden_guarded_thief :
    ∃ later m history member address steps d m',
      Passes thiefProgram.pieces (Machine.loading (.new .usual default) thiefProgram) later m history
      ∧ Uses m member address ∧ cycle m = .ok true m'
      ∧ Nearest m.classes member steps (m.heap.object address).image d .hidden
      ∧ ∃ frame below a older receiver object, m.frames = frame :: below ∧ frame.kind = .method
        ∧ history = a :: older ∧ a.EnteredOn receiver
        ∧ a.stores.head?.getD (.object receiver) = .object object
        ∧ (m.heap.object object).image.name = d.name := by
  obtain ⟨⟨later, m, history⟩, reached, stolen⟩ := (Option.any_eq_true _ _).1 thief_stolen
  obtain ⟨member, address, steps, d, m', uses, succeeds, nearest, -⟩ := stolen_uses stolen
  have passes := Passes.of_after reached
  exact ⟨later, m, history, member, address, steps, d, m', passes, uses, succeeds, nearest,
    Session.Reached.hidden_guarded .new thiefProgram_lowered passes uses succeeds nearest⟩

end Monogram
