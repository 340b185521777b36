import Monogram.Proofs.Machine.Layout

/-! # Cycles keep the layout

A machine that lies as its history says, and whose classes come from trees, still does so behind the
next cycle.  If the cycle fails, then not for want of operands.

* `Sound` — the invariant of all runs of lowered programs.
* `Sound.stays` — what a cycle of a sound machine comes to.
-/

namespace Monogram

open Monogram.Action

/-- The machine lies as its history says, and its classes come from trees. -/
structure Sound (m : Machine) (history : List Activation) : Prop where
  layout : Layout 0 m.frames history m.operands.items
  sourced : m.world.All ClassImage.Sourced

/-- What a cycle of a sound machine comes to. -/
def StaysSound (m : Machine) (history : List Activation) : EStateM.Result Failure Machine Bool → Prop
  | .ok true m' => Sound m' (m.event.record m m' history)
  | .ok false m' => m' = m
  | .error f m' => f ≠ .fault .operandUnderflow ∧ m'.world.All ClassImage.Sourced

variable {m : Machine} {frame : Frame} {below : List Frame} {history : List Activation}

theorem event_eq {i : Instruction} (running : m.frames = frame :: below)
    (here : frame.code.instructions[frame.next]? = some i) :
    m.event = .ofInstruction m.operands.items i := by
  simp only [Machine.event, running, here]

theorem event_of_end (running : m.frames = frame :: below)
    (ended : frame.code.instructions[frame.next]? = none) : m.event = .leaves := by
  simp only [Machine.event, running, ended]

theorem Event.ofInstruction_of_plain {i : Instruction} (plain : i.isPlain)
    (other : i ≠ .storeName "this") (operands : List Value) :
    Event.ofInstruction operands i = .stays := by
  cases i with
  | storeName name =>
    have named : name ≠ "this" := fun same => other (same ▸ rfl)
    simp only [Event.ofInstruction, if_neg named]
  | halt | giveBack | openHandler _ | closeHandler | raise | call _ _ => cases plain
  | _ => rfl

namespace StaysSound

/-- An ending that leaves a value or a fault. -/
theorem carry {rest : List Value} {e : Ending Code Value} (tame : e.Tame)
    (sourced : e.All ClassImage.Sourced)
    (good : ∀ v scene, e = .done v scene → ∃ history',
      (∀ m', m.event.record m m' history = history') ∧
      Layout 1 ({ frame with next := frame.next + 1, this := scene.this } :: below) history' rest) :
    StaysSound m history (closing (carry (fetched m frame below) rest e)) := by
  cases e with
  | done v scene =>
    obtain ⟨history', recorded, layout⟩ := good v scene rfl
    refine ⟨?_, sourced⟩
    rw [recorded]
    exact layout.resumed (List.cons_ne_nil _ _) v
  | faulted f scene =>
    refine ⟨fun h => tame ?_, sourced⟩
    cases h
    rfl
  | raised v scene => exact tame.elim
  | unfinished => exact tame.elim

/-- A raised value. -/
theorem raise {m₁ : Machine} {v : Value} {waiting : Nat} (event : m.event = .raises v)
    (layout : Layout waiting m₁.frames history m₁.operands.items)
    (sourced : m₁.world.All ClassImage.Sourced) :
    StaysSound m history (closing (goingOn (raiseValue v) m₁)) := by
  rcases layout.unwound with unhandled | ⟨c, catches⟩
  · rw [goingOn, bind_apply, raiseValue_of_none unhandled.found]
    exact ⟨(fun h => by cases h), sourced⟩
  · rw [goingOn, bind_apply, catches.raiseValue_eq]
    refine ⟨?_, sourced⟩
    have recorded : (Event.raises v).record m m₁ history = c.remembered :: c.older := by
      simp only [Event.record, catches.past, modifyActivation, catches.tries, List.tail_cons]
      rfl
    rw [event]
    exact recorded ▸ catches.layout v

end StaysSound

namespace Sound

/-- The frame that runs has got to the end of its code. -/
theorem ends (sound : Sound m history) (running : m.frames = frame :: below)
    (ended : frame.code.instructions[frame.next]? = none) : StaysSound m history (cycle m) := by
  obtain ⟨label, a, older, own, base, rfl, items, fits, others⟩ := (running ▸ sound.layout).inv
  have stop : frame.next = frame.code.size :=
    Nat.le_antisymm fits.inside (Array.getElem?_eq_none_iff.1 ended)
  -- At the end of its code a frame has no operands left.
  have none : own = [] := by
    have depth := fits.depth
    rw [stop, fits.labelled.stop] at depth
    exact List.length_eq_zero_iff.1 depth
  subst none
  rw [cycle_end running ended]
  refine ⟨?_, sound.sourced⟩
  rw [event_of_end running ended]
  cases below with
  | nil =>
    obtain ⟨rfl, rfl⟩ := others.nil_inv
    simp only [List.isEmpty_nil, Bool.not_true, Bool.and_false, Bool.false_eq_true, if_false, items]
    exact .nil
  | cons caller rest =>
    have value := (fits.called (List.cons_ne_nil _ _)).1
    simp only [value, List.isEmpty_cons, Bool.not_false, Bool.and_true, if_true]
    have returned := others.resumed (List.cons_ne_nil _ _) .nil
    rw [← List.nil_append base, ← items] at returned
    exact returned

theorem plain (sound : Sound m history) {i : Instruction} (plain : i.isPlain)
    (running : m.frames = frame :: below)
    (here : frame.code.instructions[frame.next]? = some i) :
    StaysSound m history (closing (step i (fetched m frame below))) := by
  have layout := sound.layout
  rw [running] at layout
  obtain ⟨args, rest, items, count, taken⟩ :=
    layout.takes here (Instruction.pushes_of_isPlain plain) fun agrees => agrees.plain plain
  have operands : (fetched m frame below).operands = ⟨args.reverse ++ rest⟩ :=
    congrArg Operands.mk items
  have sourced := Instruction.keeps_operate i args (fetched m frame below).scene sound.sourced
  have tame : Eval.Tame (i.operate args : Eval Code Value) := Instruction.tame_operate plain count
  rw [step_operate plain rfl operands count]
  refine .carry (tame _) sourced fun v after done => ?_
  -- Only a store into the name `this` leaves a trace in the history.
  by_cases stores : i = .storeName "this"
  · subst stores
    obtain ⟨stored, rfl⟩ := List.length_eq_one_iff.1 count
    have event : m.event = .stores stored := by
      rw [event_eq running here, items]
      rfl
    obtain ⟨label, a, older, own, base, rfl, rfl, fits, others⟩ := taken.inv
    refine ⟨{ a with stores := stored :: a.stores } :: older, fun m' => by rw [event]; rfl, ?_⟩
    refine .cons (fits.renamed fun receiver started => ?_) others
    have named : after.this = frame.this.map fun _ => stored := Eval.this_of_writeName done
    rw [named, started.this, Option.map_map]
    rfl
  · have event : m.event = .stays :=
      (event_eq running here).trans (Event.ofInstruction_of_plain plain stores _)
    have kept := Instruction.steady_operate (β := Code) plain stores count (fetched m frame below).scene
    rw [done] at kept
    have same : after.this = frame.this := kept
    exact ⟨history, fun m' => by rw [event]; rfl, same ▸ taken⟩

/-- A call has taken its arguments and its receiver, and goes where that leads. -/
theorem calls (sound : Sound m history) {method : String} {argc : Nat}
    (running : m.frames = frame :: below)
    (here : frame.code.instructions[frame.next]? = some (.call method argc)) :
    ∃ receiver args rest, m.event = Event.ofCall method receiver
      ∧ Layout 1 ({ frame with next := frame.next + 1 } :: below) history rest
      ∧ step (.call method argc) (fetched m frame below)
        = follow (fetched m frame below) rest
            (Eval.callee method receiver args (fetched m frame below).scene) := by
  have layout := sound.layout
  rw [running] at layout
  obtain ⟨args, rest, items, count, taken⟩ := layout.takes here rfl fun agrees => agrees.2
  obtain ⟨receiver, args, rfl⟩ : ∃ receiver front, args = receiver :: front := by
    cases args with
    | nil => cases count
    | cons receiver front => exact ⟨receiver, front, rfl⟩
  obtain rfl : args.length = argc := Nat.succ.inj count
  rw [List.reverse_cons, List.append_assoc] at items
  have event : m.event = Event.ofCall method receiver := by
    rw [event_eq running here, items]
    exact Event.ofInstruction_call method receiver args rest
  exact ⟨receiver, args, rest, event, taken,
    step_call rfl method receiver args (congrArg Operands.mk items)⟩

/-- A call starts a frame, raises a value, or ends at once. -/
theorem call (sound : Sound m history) {method : String} {argc : Nat}
    (running : m.frames = frame :: below)
    (here : frame.code.instructions[frame.next]? = some (.call method argc)) :
    StaysSound m history (closing (step (.call method argc) (fetched m frame below))) := by
  obtain ⟨receiver, args, rest, event, taken, called⟩ := sound.calls running here
  rw [called]
  let scene := (fetched m frame below).scene
  have sourced : scene.All ClassImage.Sourced := sound.sourced
  cases callee : Eval.callee method receiver args scene with
  | body code this =>
    have callable := Eval.all_of_callee sourced.callable callee
    obtain ⟨object, rfl⟩ := Eval.this_of_callee callee
    have event : m.event = .enters := by
      cases receiver with
      | object _ | classRef _ => exact event
      | _ => cases callee
    rw [follow, goingOn, bind_apply, pushFrame_apply]
    -- Too many frames are a failure too, but not one for want of operands.
    by_cases full : m.limits.maxDepth ≤ below.length + 1
    · rw [if_pos (by exact full)]
      exact ⟨(fun h => by cases h), sourced⟩
    · rw [if_neg (by exact full)]
      change Sound _ (m.event.record m _ history)
      rw [event]
      -- The callee has labels of its own, and its caller waits for one value.
      obtain ⟨⟨label, labelled⟩, noHalt⟩ := callable
      refine ⟨.cons (Fits.start labelled rfl rfl ?_ fun _ => ⟨?_, noHalt⟩) taken, sourced⟩
      · cases object <;> simp [calledKind]
      · cases object <;> rfl
  | ending e =>
    -- Of all the calls that end at once, one raises a value; the others leave one.
    by_cases raising : Eval.Raising method receiver
    · rw [Eval.callee_of_raising raising] at callee
      cases callee
      obtain ⟨rfl, rfl⟩ := raising
      exact .raise event taken sourced
    · refine .carry (Eval.tame_callee raising callee) (Eval.keeps_callee sourced callee)
        fun v after done => ?_
      subst done
      have system : receiver = .system := Eval.system_of_callee callee
      subst system
      have named : method ≠ "t" := fun same => raising ⟨rfl, same⟩
      have event : m.event = .stays := event.trans (if_neg named)
      have same : after.this = frame.this := Eval.steady_callee callee
      exact ⟨history, fun m' => by rw [event]; rfl, same ▸ taken⟩

/-- An instruction that goes on in the same frame, with fewer operands and the same handlers. -/
theorem goes {m' : Machine} {label : Nat → Label} {a : Activation} {older : List Activation}
    {own base : List Value} {next : Nat} (stays : m.event = .stays)
    (fits : Fits label 0 frame below a own base) (others : Layout 1 below older base)
    (inside : next ≤ frame.code.size) {own' : List Value}
    (there : label next = ⟨own'.length, (label frame.next).handlers⟩)
    (frames : m'.frames = { frame with next } :: below) (operands : m'.operands = ⟨own' ++ base⟩)
    (sourced : m'.world.All ClassImage.Sourced) :
    Sound m' (m.event.record m m' (a :: older)) := by
  refine ⟨?_, sourced⟩
  rw [stays, frames, operands]
  exact .cons (fits.goes inside (there.trans (by rw [Nat.add_zero]))) others

theorem pop (sound : Sound m history) (running : m.frames = frame :: below)
    (here : frame.code.instructions[frame.next]? = some .pop) :
    StaysSound m history (closing (step .pop (fetched m frame below))) := by
  obtain ⟨label, a, older, own, base, rfl, items, fits, others⟩ := (running ▸ sound.layout).inv
  obtain ⟨args, kept, rfl, count, left, inside, agrees⟩ := fits.takes here
  obtain ⟨v, rfl⟩ := List.length_eq_one_iff.1 count
  have operands : (fetched m frame below).operands = ⟨v :: (kept ++ base)⟩ :=
    congrArg Operands.mk items
  have there : label (frame.next + 1) = ⟨kept.length, (label frame.next).handlers⟩ := by
    rw [agrees.2, left]
    rfl
  rw [step_pop v operands]
  exact goes (event_eq running here) fits others inside there rfl rfl sound.sourced

theorem jump (sound : Sound m history) {target : Nat} (running : m.frames = frame :: below)
    (here : frame.code.instructions[frame.next]? = some (.jump target)) :
    StaysSound m history (closing (step (.jump target) (fetched m frame below))) := by
  obtain ⟨label, a, older, own, base, rfl, items, fits, others⟩ := (running ▸ sound.layout).inv
  obtain ⟨-, -, -, -, -, -, agrees⟩ := fits.takes here
  obtain ⟨same, bounded⟩ := agrees.2
  have depth : own.length = (label frame.next).depth := fits.depth
  have there : label target = ⟨own.length, (label frame.next).handlers⟩ := by
    rw [same, depth]
  rw [step_jump rfl]
  exact goes (event_eq running here) fits others bounded there rfl (congrArg Operands.mk items)
    sound.sourced

theorem jumpIfFalse (sound : Sound m history) {target : Nat} (running : m.frames = frame :: below)
    (here : frame.code.instructions[frame.next]? = some (.jumpIfFalse target)) :
    StaysSound m history (closing (step (.jumpIfFalse target) (fetched m frame below))) := by
  obtain ⟨label, a, older, own, base, rfl, items, fits, others⟩ := (running ▸ sound.layout).inv
  obtain ⟨args, kept, rfl, count, left, inside, agrees⟩ := fits.takes here
  obtain ⟨v, rfl⟩ := List.length_eq_one_iff.1 count
  obtain ⟨behind, same, bounded⟩ := agrees.2
  have operands : (fetched m frame below).operands = ⟨v :: (kept ++ base)⟩ :=
    congrArg Operands.mk items
  have there : (label frame.next).after (.jumpIfFalse target)
      = ⟨kept.length, (label frame.next).handlers⟩ := by
    rw [left]
    rfl
  rw [step_jumpIfFalse rfl target v operands]
  refine goes (event_eq running here) fits others ?_ ?_ rfl rfl sound.sourced
  · split
    · exact inside
    · exact bounded
  · split
    · exact behind.trans there
    · exact same.trans there

theorem giveBack (sound : Sound m history) (running : m.frames = frame :: below)
    (here : frame.code.instructions[frame.next]? = some .giveBack) :
    StaysSound m history (closing (step .giveBack (fetched m frame below))) := by
  obtain ⟨label, a, older, own, base, rfl, items, fits, others⟩ := (running ▸ sound.layout).inv
  obtain ⟨args, kept, rfl, count, left, inside, agrees⟩ := fits.takes here
  obtain ⟨v, rfl⟩ := List.length_eq_one_iff.1 count
  -- The value is the only operand of the frame, so what is left is what the callers have.
  obtain rfl : kept = [] := by
    have depth : (label frame.next).depth = 1 := agrees.2
    rw [depth] at left
    exact List.length_eq_zero_iff.1 left
  have operands : (fetched m frame below).operands = ⟨v :: base⟩ := congrArg Operands.mk items
  rw [step_giveBack rfl v operands]
  refine ⟨?_, sound.sourced⟩
  rw [event_eq running here]
  cases below with
  | nil =>
    obtain ⟨rfl, rfl⟩ := others.nil_inv
    exact .nil
  | cons caller rest => exact others.resumed (List.cons_ne_nil _ _) v

theorem openHandler (sound : Sound m history) {target : Nat} (running : m.frames = frame :: below)
    (here : frame.code.instructions[frame.next]? = some (.openHandler target)) :
    StaysSound m history (closing (step (.openHandler target) (fetched m frame below))) := by
  obtain ⟨label, a, older, own, base, rfl, items, fits, others⟩ := (running ▸ sound.layout).inv
  obtain ⟨-, -, -, -, -, inside, agrees⟩ := fits.takes here
  obtain ⟨depth, behind, lands, bounded⟩ := agrees.2
  -- A handler is installed between statements, where the frame has no operands.
  obtain rfl : own = [] := by
    have same := fits.depth
    rw [depth] at same
    exact List.length_eq_zero_iff.1 same
  have installs : Installs m frame.code below base frame.handlers target :=
    ⟨⟨frame, running, rfl, rfl, here⟩, congrArg Operands.mk items⟩
  have size : m.operands.size = base.length := congrArg List.length items
  rw [step_openHandler rfl]
  refine ⟨?_, sound.sourced⟩
  rw [event_eq running here]
  change Layout 0 ({ frame with
      next := frame.next + 1, handlers := ⟨target, m.operands.size⟩ :: frame.handlers } :: below)
    ({ a with tries := m :: a.tries } :: older) m.operands.items
  rw [items, size]
  refine .cons (fits.moves inside ?_ ?_) others
  · rw [behind]
    rfl
  · rw [behind]
    exact .cons fits.pending installs lands bounded

theorem closeHandler (sound : Sound m history) (running : m.frames = frame :: below)
    (here : frame.code.instructions[frame.next]? = some .closeHandler) :
    StaysSound m history (closing (step .closeHandler (fetched m frame below))) := by
  obtain ⟨label, a, older, own, base, rfl, items, fits, others⟩ := (running ▸ sound.layout).inv
  obtain ⟨-, -, -, -, -, inside, agrees⟩ := fits.takes here
  obtain ⟨target, targets, installed, behind⟩ := agrees.2
  have pending := fits.pending
  rw [installed] at pending
  rw [step_closeHandler rfl]
  refine ⟨?_, sound.sourced⟩
  rw [event_eq running here]
  change Layout 0 ({ frame with next := frame.next + 1, handlers := frame.handlers.tail } :: below)
    ({ a with tries := a.tries.tail } :: older) m.operands.items
  rw [items]
  refine .cons (fits.moves inside ?_ ?_) others
  · rw [behind]
    exact fits.depth
  · rw [behind]
    generalize frame.handlers = handlers at pending ⊢
    generalize a.tries = tries at pending ⊢
    cases pending with
    | cons others _ _ _ => exact others

theorem halt (sound : Sound m history) (running : m.frames = frame :: below)
    (here : frame.code.instructions[frame.next]? = some .halt) :
    StaysSound m history (closing (step .halt (fetched m frame below))) := by
  obtain ⟨label, a, older, own, base, rfl, items, fits, others⟩ := (running ▸ sound.layout).inv
  obtain ⟨-, -, -, -, -, inside, agrees⟩ := fits.takes here
  obtain rfl : own = [] := by
    have depth : (label frame.next).depth = 0 := agrees.2.1
    have same := fits.depth
    rw [depth] at same
    exact List.length_eq_zero_iff.1 same
  -- Code that has been called has no halt, so there is no frame below.
  obtain rfl : below = [] := by
    by_contra caller
    exact (fits.called caller).2 (Array.mem_of_getElem? here)
  obtain ⟨rfl, rfl⟩ := others.nil_inv
  refine ⟨?_, sound.sourced⟩
  rw [event_eq running here]
  change Layout 0 [] [] m.operands.items
  rw [items]
  exact .nil

/-- What a cycle of a sound machine comes to. -/
theorem stays (sound : Sound m history) : StaysSound m history (cycle m) := by
  cases running : m.frames with
  | nil =>
    rw [cycle_idle running]
    rfl
  | cons frame below =>
    cases here : frame.code.instructions[frame.next]? with
    | none => exact sound.ends running here
    | some i =>
      rcases cycle_cases running here with ⟨-, carried⟩ | ⟨limit, spent⟩
      · rw [carried]
        -- All plain instructions go alike; each of the others moves frames or handlers in its own way.
        by_cases plain : i.isPlain
        · exact sound.plain plain running here
        · cases i with
          | halt => exact sound.halt running here
          | pop => exact sound.pop running here
          | jump target => exact sound.jump running here
          | jumpIfFalse target => exact sound.jumpIfFalse running here
          | call method argc => exact sound.call running here
          | giveBack => exact sound.giveBack running here
          | openHandler target => exact sound.openHandler running here
          | closeHandler => exact sound.closeHandler running here
          | raise =>
            obtain ⟨label, a, older, own, base, rfl, -, fits, -⟩ := (running ▸ sound.layout).inv
            exact (fits.labelled.agrees _ _ here).2.elim
          | _ => exact absurd rfl plain
      · rw [spent]
        exact ⟨(fun h => by cases h), sound.sourced⟩

/-- A machine about to raise a value has taken the operands of the call that does so. -/
theorem raising (sound : Sound m history) {v : Value} (event : m.event = .raises v)
    (spare : ∀ limit, m.limits.maxInstructions = some limit → m.executed < limit) :
    ∃ frame below rest, m.frames = frame :: below
      ∧ Layout 1 ({ frame with next := frame.next + 1 } :: below) history rest
      ∧ cycle m = closing
          (goingOn (raiseValue v) { fetched m frame below with operands := ⟨rest⟩ }) := by
  cases running : m.frames with
  | nil =>
    simp only [Machine.event, running] at event
    cases event
  | cons frame below =>
    cases here : frame.code.instructions[frame.next]? with
    | none =>
      rw [event_of_end running here] at event
      cases event
    | some i =>
      -- In lowered code only a call of the system object raises a value.
      have kind := (event_eq running here).symm.trans event
      cases i with
      | call method argc =>
        obtain ⟨receiver, args, rest, called, taken, step⟩ := sound.calls running here
        refine ⟨frame, below, rest, rfl, taken, ?_⟩
        rw [cycle_step running here spare, step]
        rw [event] at called
        cases receiver with
        | system =>
          by_cases named : method = "t"
          · subst named
            cases called
            rfl
          · rw [Event.ofCall, if_neg named] at called
            cases called
        | _ => cases called
      | raise =>
        obtain ⟨label, a, older, own, base, rfl, -, fits, -⟩ := (running ▸ sound.layout).inv
        exact (fits.labelled.agrees _ _ here).2.elim
      | storeName name =>
        simp only [Event.ofInstruction] at kind
        split at kind
        · cases top : m.operands.items.head? <;> simp [top] at kind
        · cases kind
      | _ => cases kind

end Sound

end Monogram
