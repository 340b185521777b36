import Monogram.Proofs.Evaluation.Steady
import Monogram.Proofs.Evaluation.Tame
import Monogram.Proofs.Lowering.Verified
import Monogram.Proofs.Machine.History

/-! # How frames and operands lie

All frames share one stack of operands.  Each frame owns as many of them as the label of its code
says, above those that were there when it started; a frame that has called another one owns one less,
the value that it waits for.  Its handlers are those of the label, and each of them remembers the
machine that was about to install it.

* `Pending`, `Fits` — one frame, its past, and its operands.
* `Layout` — all frames, their history, and all operands.
* `Layout.unwound` — what is left when a value is raised.
-/

namespace Monogram

open Monogram.Action

/-! ## One frame -/

/-- The machine was about to install a handler at `target` in a frame of the code that had these
handlers, above these frames and operands. -/
structure Installs (m : Machine) (code : Code) (below : List Frame) (base : List Value)
    (handlers : List Handler) (target : Nat) : Prop where
  frames : ∃ frame, m.frames = frame :: below ∧ frame.code = code ∧ frame.handlers = handlers
    ∧ code.instructions[frame.next]? = some (.openHandler target)
  operands : m.operands = ⟨base⟩

/-- The handlers of a frame, the addresses that the label says, and the machines that were about to
install them. -/
inductive Pending (code : Code) (label : Nat → Label) (below : List Frame) (base : List Value) :
    List Handler → List Nat → List Machine → Prop where
  | nil : Pending code label below base [] [] []
  | cons {handlers : List Handler} {targets : List Nat} {tries : List Machine} {target : Nat}
      {m : Machine} (others : Pending code label below base handlers targets tries)
      (installs : Installs m code below base handlers target)
      (lands : label target = ⟨1, targets⟩) (inside : target ≤ code.size) :
      Pending code label below base (⟨target, base.length⟩ :: handlers) (target :: targets) (m :: tries)

/-- How a frame has started, and what `this` stands for in it now: the receiver, until something else
is stored into the name. -/
structure Started (a : Activation) (frame : Frame) (below : List Frame) (receiver : Option Address) :
    Prop where
  frames : a.entry.frames = .start frame.code frame.kind (receiver.map .object) :: below
  this : frame.this = receiver.map fun address => a.stores.head?.getD (.object address)
  kind : receiver.isSome → frame.kind = .method

/-- A frame that waits for so many values fits its label: `own` are its operands, above `base`. -/
structure Fits (label : Nat → Label) (waiting : Nat) (frame : Frame) (below : List Frame)
    (a : Activation) (own base : List Value) : Prop where
  labelled : Labelled frame.code label
  inside : frame.next ≤ frame.code.size
  depth : own.length + waiting = (label frame.next).depth
  pending : Pending frame.code label below base frame.handlers (label frame.next).handlers a.tries
  entered : a.entry.operands = ⟨base⟩
  started : ∃ receiver, Started a frame below receiver
  called : below ≠ [] → frame.kind.givesValue ∧ .halt ∉ frame.code.instructions

namespace Fits

variable {label : Nat → Label} {waiting : Nat} {frame : Frame} {below : List Frame} {a : Activation}
  {own base : List Value}

/-- A frame of code that may be called, at its start. -/
theorem start {code : Code} {kind : FrameKind} {receiver : Option Address} {m : Machine}
    (labelled : Labelled code label)
    (frames : m.frames = .start code kind (receiver.map .object) :: below) (operands : m.operands = ⟨base⟩)
    (method : receiver.isSome → kind = .method)
    (called : below ≠ [] → kind.givesValue ∧ .halt ∉ code.instructions) :
    Fits label 0 (.start code kind (receiver.map .object)) below (.start m) [] base where
  labelled := labelled
  inside := Nat.zero_le _
  depth := by simp [Frame.start, labelled.start]
  pending := by
    simp only [Frame.start, labelled.start]
    exact .nil
  entered := operands
  started := ⟨receiver, ⟨frames, by cases receiver <;> rfl, method⟩⟩
  called := called

/-- The frame elsewhere in its code, with other operands and handlers. -/
theorem moves (fits : Fits label waiting frame below a own base) {next waiting' : Nat}
    {own' : List Value} {handlers : List Handler} {tries : List Machine}
    (inside : next ≤ frame.code.size) (depth : own'.length + waiting' = (label next).depth)
    (pending : Pending frame.code label below base handlers (label next).handlers tries) :
    Fits label waiting' { frame with next, handlers } below { a with tries } own' base where
  labelled := fits.labelled
  inside := inside
  depth := depth
  pending := pending
  entered := fits.entered
  started := fits.started.imp fun _ started => ⟨started.frames, started.this, started.kind⟩
  called := fits.called

/-- The frame elsewhere in its code, where the label has the same handlers. -/
theorem goes (fits : Fits label waiting frame below a own base) {next waiting' : Nat}
    {own' : List Value} (inside : next ≤ frame.code.size)
    (there : label next = ⟨own'.length + waiting', (label frame.next).handlers⟩) :
    Fits label waiting' { frame with next } below a own' base := by
  have pending := fits.pending
  exact fits.moves inside (by rw [there]) (by rw [there]; exact pending)

/-- The frame has the operands that the next instruction takes. -/
theorem takes (fits : Fits label 0 frame below a own base) {i : Instruction}
    (here : frame.code.instructions[frame.next]? = some i) :
    ∃ args kept : List Value, own = args.reverse ++ kept ∧ args.length = i.pops
      ∧ kept.length = (label frame.next).depth - i.pops
      ∧ frame.next + 1 ≤ frame.code.size ∧ Agrees label frame.code.size frame.next i := by
  have agrees := fits.labelled.agrees _ _ here
  have enough : i.pops ≤ own.length := by
    have depth := fits.depth
    have pops := agrees.1
    omega
  obtain ⟨args, same, count⟩ := exists_arguments enough
  refine ⟨args, own.drop i.pops, same, count, ?_, ?_, agrees⟩
  · rw [List.length_drop, ← fits.depth, Nat.add_zero]
  · exact (Array.getElem?_eq_some_iff.1 here).1

/-- Something else is stored into the name `this`, or nothing. -/
theorem renamed (fits : Fits label waiting frame below a own base) {this : Option Value}
    {stores : List Value}
    (stored : ∀ receiver, Started a frame below receiver →
      this = receiver.map fun address => stores.head?.getD (.object address)) :
    Fits label waiting { frame with this } below { a with stores } own base where
  labelled := fits.labelled
  inside := fits.inside
  depth := fits.depth
  pending := fits.pending
  entered := fits.entered
  started := fits.started.imp fun receiver started =>
    ⟨started.frames, stored receiver started, started.kind⟩
  called := fits.called

end Fits

/-! ## All frames -/

/-- The frames, their history and the operands.  The frame that runs waits for so many values, and
each frame below it for one. -/
inductive Layout : Nat → List Frame → List Activation → List Value → Prop where
  | nil {waiting : Nat} : Layout waiting [] [] []
  | cons {label : Nat → Label} {waiting : Nat} {frame : Frame} {below : List Frame} {a : Activation}
      {older : List Activation} {own base : List Value}
      (fits : Fits label waiting frame below a own base) (others : Layout 1 below older base) :
      Layout waiting (frame :: below) (a :: older) (own ++ base)

namespace Layout

variable {waiting : Nat} {frame : Frame} {frames below : List Frame} {history : List Activation}
  {items : List Value}

theorem inv (layout : Layout waiting (frame :: below) history items) :
    ∃ label a older own base, history = a :: older ∧ items = own ++ base
      ∧ Fits label waiting frame below a own base ∧ Layout 1 below older base := by
  cases layout with
  | cons fits others => exact ⟨_, _, _, _, _, rfl, rfl, fits, others⟩

theorem nil_inv (layout : Layout waiting [] history items) : history = [] ∧ items = [] := by
  cases layout
  exact ⟨rfl, rfl⟩

theorem length_eq (layout : Layout waiting frames history items) :
    frames.length = history.length := by
  induction layout with
  | nil => rfl
  | cons fits others ih => rw [List.length_cons, List.length_cons, ih]

/-- The frame that runs has got the value that it has waited for. -/
theorem resumed (layout : Layout 1 frames history items) (running : frames ≠ []) (v : Value) :
    Layout 0 frames history (v :: items) := by
  cases layout with
  | nil => exact absurd rfl running
  | @cons label _ frame below a older own base fits others =>
    have there : label frame.next = ⟨(v :: own).length + 0, (label frame.next).handlers⟩ := by
      have depth := fits.depth
      rw [List.length_cons, Nat.add_zero, depth]
    exact .cons (fits.goes fits.inside there) others

/-- An instruction that will leave a value has taken its operands. -/
theorem takes (layout : Layout 0 (frame :: below) history items) {i : Instruction}
    (here : frame.code.instructions[frame.next]? = some i) (leaves : i.pushes = 1)
    (behind : ∀ {label size}, Agrees label size frame.next i →
      label (frame.next + 1) = (label frame.next).after i) :
    ∃ args rest : List Value, items = args.reverse ++ rest ∧ args.length = i.pops
      ∧ Layout 1 ({ frame with next := frame.next + 1 } :: below) history rest := by
  obtain ⟨label, a, older, own, base, rfl, rfl, fits, others⟩ := layout.inv
  obtain ⟨args, kept, rfl, count, left, inside, agrees⟩ := fits.takes here
  refine ⟨args, kept ++ base, by rw [List.append_assoc], count, .cons (fits.goes inside ?_) others⟩
  rw [behind agrees, left]
  simp only [Label.after, leaves]

end Layout

/-! ## Raised values -/

/-- A frame with a handler, its past, and what lies below it. -/
structure Catcher where
  frame : Frame
  below : List Frame
  handler : Handler
  /-- The handlers that were there before. -/
  handlers : List Handler
  past : Activation
  /-- The machine that was about to install the handler. -/
  installer : Machine
  tries : List Machine
  older : List Activation
  base : List Value

/-- The frame as it goes on in its handler. -/
def Catcher.resumed (c : Catcher) : Frame :=
  { c.frame with handlers := c.handlers, next := c.handler.address }

/-- The past of the frame as it goes on in its handler. -/
def Catcher.remembered (c : Catcher) : Activation := { c.past with tries := c.tries }

/-- No frame has a handler, and none has one pending. -/
structure Unhandled (frames : List Frame) (history : List Activation) : Prop where
  found : findHandler frames = none
  bare : ∀ frame ∈ frames, frame.handlers = []
  past : unwind history = []

/-- A raised value finds the innermost frame with a handler, which goes on as it was when that
handler was installed. -/
structure Catches (frames : List Frame) (history : List Activation) (items : List Value)
    (c : Catcher) : Prop where
  live : ∃ gone, frames = gone ++ c.frame :: c.below ∧ ∀ g ∈ gone, g.handlers = []
  handlers : c.frame.handlers = c.handler :: c.handlers
  found : findHandler frames = some (c.handler, { c.frame with handlers := c.handlers }, c.below)
  past : unwind history = c.past :: c.older
  tries : c.past.tries = c.installer :: c.tries
  operands : ∃ junk, items = junk ++ c.base
  depth : c.handler.depth = c.base.length
  installs : Installs c.installer c.frame.code c.below c.base c.handlers c.handler.address
  layout : ∀ v, Layout 0 (c.resumed :: c.below) (c.remembered :: c.older) (v :: c.base)

section Unwinding

variable {label : Nat → Label} {waiting : Nat} {frame : Frame} {below : List Frame} {a : Activation}
  {older history : List Activation} {own base items : List Value}

/-- A frame without a handler has no handler pending. -/
theorem Fits.bare (fits : Fits label waiting frame below a own base) (none : frame.handlers = []) :
    a.tries = [] := by
  have pending := fits.pending
  rw [none] at pending
  -- The three lists are fields of larger things, so they are replaced by variables first.
  generalize (label frame.next).handlers = targets at pending
  generalize a.tries = tries at pending ⊢
  cases pending
  rfl

theorem Unhandled.outer (h : Unhandled below older) (none : frame.handlers = []) (bare : a.tries = []) :
    Unhandled (frame :: below) (a :: older) where
  found := by simp only [findHandler, none, h.found]
  bare := List.forall_mem_cons.2 ⟨none, h.bare⟩
  past := by simp only [unwind, bare, h.past]

theorem Catches.outer {c : Catcher} (h : Catches below older base c) (none : frame.handlers = [])
    (bare : a.tries = []) : Catches (frame :: below) (a :: older) (own ++ base) c where
  live := by
    obtain ⟨gone, rfl, others⟩ := h.live
    exact ⟨frame :: gone, rfl, List.forall_mem_cons.2 ⟨none, others⟩⟩
  handlers := h.handlers
  found := by simp only [findHandler, none, h.found]
  past := by simp only [unwind, bare, h.past]
  tries := h.tries
  operands := by
    obtain ⟨junk, rfl⟩ := h.operands
    exact ⟨own ++ junk, (List.append_assoc ..).symm⟩
  depth := h.depth
  installs := h.installs
  layout := h.layout

/-- A frame has as many handlers as are pending. -/
theorem Fits.handlers_length (fits : Fits label waiting frame below a own base) :
    frame.handlers.length = a.tries.length := by
  have pending := fits.pending
  generalize (label frame.next).handlers = targets at pending
  generalize frame.handlers = handlers at pending ⊢
  generalize a.tries = tries at pending ⊢
  induction pending with
  | nil => rfl
  | cons others installs lands inside ih => rw [List.length_cons, List.length_cons, ih]

theorem Layout.handlers_length {frames : List Frame} (layout : Layout waiting frames history items) :
    List.Forall₂ (fun frame a => frame.handlers.length = a.tries.length) frames history := by
  induction layout with
  | nil => exact .nil
  | cons fits others ih => exact .cons fits.handlers_length ih

/-- A frame with a handler goes on in it. -/
theorem Fits.catches (fits : Fits label waiting frame below a own base)
    (others : Layout 1 below older base) {handler : Handler} {handlers : List Handler}
    (installed : frame.handlers = handler :: handlers) :
    ∃ c, Catches (frame :: below) (a :: older) (own ++ base) c := by
  have pending := fits.pending
  rw [installed] at pending
  generalize (label frame.next).handlers = targets at pending
  generalize tried : a.tries = tries at pending
  cases pending with
  | @cons _ targets tries target t left installs lands inside =>
    refine ⟨⟨frame, below, _, handlers, a, t, tries, older, base⟩, {
      live := ⟨[], rfl, fun _ member => by cases member⟩
      handlers := installed
      found := by simp only [findHandler, installed]
      past := by simp only [unwind, tried]
      tries := tried
      operands := ⟨own, rfl⟩
      depth := rfl
      installs := installs
      layout := fun v => ?_ }⟩
    -- Where the handler starts the label has the older handlers, and one operand for the value.
    have resumed : Fits label 0 { frame with handlers, next := target } below { a with tries } [v] base :=
      fits.moves inside (by rw [lands]; rfl) (by rw [lands]; exact left)
    exact .cons resumed others

/-- The machine goes on in the handler, with the operands that were there and the value. -/
theorem Catches.raiseValue_eq {m : Machine} {c : Catcher}
    (catches : Catches m.frames history m.operands.items c) (v : Value) :
    raiseValue v m
      = .ok () { m with frames := c.resumed :: c.below, operands := ⟨v :: c.base⟩ } := by
  obtain ⟨junk, operands⟩ := catches.operands
  -- The handler remembers how many operands there were, and they are still there below the others.
  have left : m.operands.truncate c.handler.depth = ⟨c.base⟩ := by
    rw [catches.depth, ← truncate_append junk c.base, ← operands]
  rw [raiseValue_of_handler catches.found, left]
  rfl

/-- What a raised value finds. -/
theorem Layout.unwound {frames : List Frame} (layout : Layout waiting frames history items) :
    Unhandled frames history ∨ ∃ c, Catches frames history items c := by
  induction layout with
  | nil => exact .inl ⟨rfl, (fun _ member => by cases member), rfl⟩
  | @cons label waiting frame below a older own base fits others ih =>
    -- A frame without a handler is passed over, with its history.
    cases installed : frame.handlers with
    | nil =>
      have bare := fits.bare installed
      exact ih.imp (fun h => h.outer installed bare) fun ⟨c, h⟩ => ⟨c, h.outer installed bare⟩
    | cons handler handlers => exact .inr (fits.catches others installed)

end Unwinding

end Monogram
