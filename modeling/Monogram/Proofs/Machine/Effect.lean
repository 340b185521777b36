import Monogram.Proofs.Code.Label
import Monogram.Proofs.Evaluation.Tame
import Monogram.Proofs.Machine.History
import Monogram.Proofs.Machine.Setting

/-! # Effects of instructions

Code is laid out by the effects of its instructions before any of it runs.  Every machine that has a
frame keeps to these effects, whatever the code is that the instruction comes from.

* `Instruction.Balances` — the operands change as the effect says, and only on top.
* `Instruction.Enters` — a call has started a frame, whose end will make the call balance.
* `Action.step_misses` — an instruction that has too few operands misses one.
* `Action.step_settles`, `Action.goes_of_step` — the ways of an instruction that has its operands.
* `Action.step_operands` — all of it for any instruction.
-/

namespace Monogram

open Monogram.Action

namespace Instruction

/-! ## What an effect promises -/

/-- The instruction has led from one machine to the other as its effect says. -/
structure Balances (i : Instruction) (m m' : Machine) : Prop where
  taken : i.pops ≤ m.operands.size
  size : (m'.operands.size : Int) = m.operands.size + i.effect
  /-- What lay below the operands that the instruction takes still lies there. -/
  below : ∃ left : List Value, m'.operands.items = left ++ m.operands.items.drop i.pops

theorem Balances.of_items {i : Instruction} {m m' : Machine} (left : List Value)
    (taken : i.pops ≤ m.operands.size)
    (items : m'.operands.items = left ++ m.operands.items.drop i.pops)
    (count : left.length = i.pushes) : i.Balances m m' := by
  refine ⟨taken, ?_, left, items⟩
  have size : m'.operands.size = i.pushes + (m.operands.size - i.pops) := by
    rw [Operands.size, items, List.length_append, List.length_drop, count]
    rfl
  rw [size, effect_eq]
  omega

end Instruction

/-- The frame that runs is about to end, with nothing of its own above `base` but the value that it
gives back. -/
inductive Machine.Concludes (m : Machine) (base : List Value) : Prop where
  | givesBack {frame : Frame} {below : List Frame} {v : Value} (running : m.frames = frame :: below)
      (here : frame.code.instructions[frame.next]? = some .giveBack)
      (operands : m.operands = ⟨v :: base⟩)
  | runsOff {frame : Frame} {below : List Frame} (running : m.frames = frame :: below)
      (ended : frame.code.instructions[frame.next]? = none) (operands : m.operands = ⟨base⟩)

/-- The instruction is a call that has started a frame. -/
structure Instruction.Enters (i : Instruction) (m m' : Machine) : Prop where
  /-- The arguments and the receiver are gone, and nothing else. -/
  taken : ∃ method argc, i = .call method argc ∧ argc + 1 ≤ m.operands.size
    ∧ m'.operands.items = m.operands.items.drop (argc + 1)
  /-- One value is owed to the caller. -/
  owed : (m'.operands.size : Int) + 1 = m.operands.size + i.effect
  /-- A frame of this kind pays it when it gives a value back, and when it runs off its code. -/
  paid : ∃ callee, m'.frames = callee :: m.frames
    ∧ ∀ last m₁ m₂, m₁.frames = last :: m.frames → last.kind = callee.kind →
        m₁.Concludes m'.operands.items → cycle m₁ = .ok true m₂ →
        m₂.frames = m.frames ∧ i.Balances m m₂

namespace Action

variable {m : Machine}

/-! ## Too few operands -/

/-- The action fails for want of an operand. -/
def Misses {α : Type} (p : Action α) (m : Machine) : Prop :=
  ∃ m', p m = .error (.fault .operandUnderflow) m'

section Misses

variable {α γ : Type}

theorem Misses.bind {p : Action α} (first : Misses p m) (q : α → Action γ) :
    Misses (p >>= q) m := by
  obtain ⟨m', failed⟩ := first
  exact ⟨m', by rw [bind_apply, failed]⟩

theorem Misses.behind {p : Action α} {q : α → Action γ} {a : α} {m₁ : Machine}
    (done : p m = .ok a m₁) (second : Misses (q a) m₁) : Misses (p >>= q) m := by
  obtain ⟨m', failed⟩ := second
  refine ⟨m', ?_⟩
  rw [bind_apply, done]
  exact failed

theorem misses_pop (none : m.operands = ⟨[]⟩) : Misses pop m :=
  ⟨m, by rw [pop_apply, none]⟩

theorem misses_popMany {n : Nat} (few : m.operands.size < n) : Misses (popMany n) m := by
  refine ⟨m, ?_⟩
  simp only [popMany, bind_apply, get_apply, Operands.popMany?, if_pos few]
  rfl

theorem misses_popArguments {argc : Nat} (few : m.operands.size < argc) :
    Misses (popArguments argc) m := by
  induction argc generalizing m with
  | zero => omega
  | succ argc ih =>
    cases items : m.operands.items with
    | nil => exact (misses_pop (congrArg Operands.mk items)).bind _
    | cons last rest =>
      have popped : pop m = .ok last { m with operands := ⟨rest⟩ } := by
        rw [pop_apply, items]
      refine .behind popped ((ih ?_).bind _)
      show rest.length < argc
      rw [Operands.size, items, List.length_cons] at few
      omega

theorem misses_receiver {argc : Nat} (few : m.operands.size < argc + 1)
    (q : List Value → Value → Action γ) :
    Misses (do let arguments ← popArguments argc; let receiver ← pop; q arguments receiver) m := by
  -- All arguments may be there, and only the receiver below them missing.
  rcases Nat.lt_succ_iff_lt_or_eq.1 few with fewer | same
  · exact (misses_popArguments fewer).bind _
  · obtain ⟨limits, console, classes, heap, frames, ⟨items⟩, slots, globals, executed⟩ := m
    subst same
    have popped := popArguments_apply
      ⟨limits, console, classes, heap, frames, ⟨[]⟩, slots, globals, executed⟩ items.reverse []
    rw [List.reverse_reverse, List.append_nil, List.length_reverse] at popped
    exact .behind popped ((misses_pop rfl).bind _)

end Misses

/-- An instruction that has too few operands misses one. -/
theorem step_misses {i : Instruction} (few : m.operands.size < i.pops) :
    Misses (step i) m := by
  obtain ⟨limits, console, classes, heap, frames, ⟨items⟩, slots, globals, executed⟩ := m
  -- All operands are taken before anything else is done with them.
  cases i with
  | halt | push _ | loadSlot _ | loadName _ | jump _ | openHandler _ | closeHandler =>
    exact absurd few (Nat.not_lt_zero _)
  | pop | storeSlot _ | storeName _ | loadField _ | loadStatic _ | not | negate | jumpIfFalse _
  | giveBack | raise =>
    obtain rfl : items = [] := List.length_eq_zero_iff.1 (Nat.lt_one_iff.1 few)
    exact ⟨_, rfl⟩
  | storeField _ | storeStatic _ | loadIndex | arithmetic _ | compare _ | and | or =>
    match items, few with
    | [], _ | [_], _ => exact ⟨_, rfl⟩
  | storeIndex =>
    match items, few with
    | [], _ | [_], _ | [_, _], _ => exact ⟨_, rfl⟩
  | call method argc | print argc => exact misses_receiver few _
  | construct className argc => exact (misses_popArguments few).bind _
  | buildList count | buildMap count => exact (misses_popMany few).bind _

/-! ## Enough operands -/

/-- The operands that an instruction takes, and those below them. -/
theorem exists_taken {n : Nat} (enough : n ≤ m.operands.size) :
    ∃ args : List Value,
      m.operands = ⟨args.reverse ++ m.operands.items.drop n⟩ ∧ args.length = n := by
  obtain ⟨args, items, count⟩ := exists_arguments enough
  exact ⟨args, congrArg Operands.mk items, count⟩

theorem exists_called {argc : Nat} (enough : argc + 1 ≤ m.operands.size) :
    ∃ (receiver : Value) (args : List Value), args.length = argc
      ∧ m.operands = ⟨args.reverse ++ receiver :: m.operands.items.drop (argc + 1)⟩ := by
  obtain ⟨all, taken, count⟩ := exists_taken enough
  obtain ⟨receiver, args, rfl⟩ := List.exists_cons_of_length_eq_add_one count
  refine ⟨receiver, args, Nat.succ.inj count, ?_⟩
  rw [List.reverse_cons, List.append_assoc] at taken
  exact taken

theorem event_call {method : String} {receiver : Value} {args rest : List Value}
    (taken : m.operands = ⟨args.reverse ++ receiver :: rest⟩) :
    Event.ofInstruction m.operands.items (.call method args.length) = .ofCall method receiver := by
  rw [taken]
  exact Event.ofInstruction_call ..

/-! ## Raised values -/

theorem resume_scene (items : List Value) :
    m.resume m.scene items = { m with operands := ⟨items⟩ } := by
  obtain ⟨limits, console, classes, heap, frames, operands, slots, globals, executed⟩ := m
  cases frames <;> rfl

/-- An instruction that raises a value takes its operands first. -/
theorem step_raises {i : Instruction} {v : Value} (running : m.frames ≠ [])
    (event : Event.ofInstruction m.operands.items i = .raises v) :
    i.pops ≤ m.operands.size
      ∧ step i m = goingOn (raiseValue v) { m with operands := ⟨m.operands.items.drop i.pops⟩ } := by
  cases i with
  | raise =>
    cases items : m.operands.items with
    | nil =>
      rw [items] at event
      cases event
    | cons top rest =>
      rw [items] at event
      cases event
      refine ⟨?_, ?_⟩
      · show 1 ≤ m.operands.items.length
        rw [items]
        exact Nat.succ_pos _
      · simp only [step, goingOn, bind_apply, pop_apply, items]
        rfl
  | call method argc =>
    have enough : argc + 1 ≤ m.operands.size := by
      by_contra few
      have none : m.operands.items[argc]? = none :=
        List.getElem?_eq_none (Nat.lt_succ_iff.1 (Nat.not_le.1 few))
      simp only [Event.ofInstruction, none] at event
      cases event
    obtain ⟨frame, below, top⟩ := List.exists_cons_of_ne_nil running
    obtain ⟨receiver, args, rfl, taken⟩ := exists_called enough
    rw [event_call taken] at event
    -- Only the system object raises, and only in one of its operations.
    cases receiver with
    | system =>
      by_cases named : method = "t"
      · rw [Event.ofCall, if_pos named] at event
        cases event
        refine ⟨enough, ?_⟩
        rw [step_call top method .system args taken, Eval.callee_of_raising ⟨rfl, named⟩, follow, carry,
          resume_scene]
        rfl
      · rw [Event.ofCall, if_neg named] at event
        cases event
    | _ => cases event
  | storeName name =>
    simp only [Event.ofInstruction] at event
    split at event
    · cases head : m.operands.items.head? <;> simp [head] at event
    · cases event
  | _ => cases event

/-! ## The ways of an instruction -/

/-- The ways from one machine to the other that an instruction may have gone. -/
inductive Goes (i : Instruction) (m m' : Machine) : Prop where
  | stays (frames : m'.frames.length = m.frames.length) (balances : i.Balances m m')
  | enters (frames : m'.frames.length = m.frames.length + 1) (enters : i.Enters m m')
  | leaves (frames : m'.frames.length < m.frames.length)
  | raises (v : Value) (event : Event.ofInstruction m.operands.items i = .raises v)
      (frames : m'.frames.length ≤ m.frames.length)

/-- What may come of an instruction that has its operands. -/
def Settles (i : Instruction) (m : Machine) : EStateM.Result Failure Machine Flow → Prop
  | .ok _ m' => Goes i m m'
  | .error f _ => f ≠ .fault .operandUnderflow

theorem length_resume (scene : Scene) (items : List Value) :
    (m.resume scene items).frames.length = m.frames.length := by
  unfold Machine.resume
  cases m.frames <;> rfl

/-- An ending that leaves a value in the place of all that the instruction takes. -/
theorem settles_carry {i : Instruction} {e : Ending Code Value} (enough : i.pops ≤ m.operands.size)
    (one : i.pushes = 1) (tame : e.Tame) :
    Settles i m (carry m (m.operands.items.drop i.pops) e) := by
  cases e with
  | done v scene => exact .stays (length_resume ..) (.of_items [v] enough rfl one.symm)
  | faulted f scene =>
    intro h
    cases h
    exact tame rfl
  | raised v scene => exact tame.elim
  | unfinished => exact tame.elim

/-- A raised value lets frames end, and starts none. -/
theorem settles_raise {i : Instruction} {m₁ : Machine} {v : Value}
    (event : Event.ofInstruction m.operands.items i = .raises v)
    (frames : m₁.frames.length = m.frames.length) :
    Settles i m (goingOn (raiseValue v) m₁) := by
  cases found : findHandler m₁.frames with
  | none =>
    rw [goingOn, bind_apply, raiseValue_of_none found]
    intro h
    cases h
  | some unwound =>
    obtain ⟨handler, catcher, below⟩ := unwound
    rw [goingOn, bind_apply, raiseValue_of_handler found]
    have shorter := (Oblivious.suffix_of_findHandler found).length_le
    simp only [List.length_cons, List.length_map, frames] at shorter
    exact .raises v event shorter

/-- The end of a frame that a call has started hands the caller a value, which is all that the call
still owes. -/
theorem balances_of_concludes {method : String} {argc : Nat} {last : Frame} {m₁ m₂ : Machine}
    (running : m.frames ≠ []) (enough : argc + 1 ≤ m.operands.size)
    (frames : m₁.frames = last :: m.frames) (gives : last.kind.givesValue)
    (concludes : m₁.Concludes (m.operands.items.drop (argc + 1))) (cycled : cycle m₁ = .ok true m₂) :
    m₂.frames = m.frames ∧ (Instruction.call method argc).Balances m m₂ := by
  have caller : m.frames.isEmpty = false := by
    cases same : m.frames with
    | nil => exact absurd same running
    | cons => rfl
  suffices ends : ∃ v, m₂.frames = m.frames
      ∧ m₂.operands.items = [v] ++ m.operands.items.drop (argc + 1) by
    obtain ⟨v, returned, items⟩ := ends
    exact ⟨returned, .of_items [v] enough items rfl⟩
  cases concludes with
  | @givesBack frame below v top here operands =>
    obtain ⟨rfl, rfl⟩ := List.cons.inj (frames.symm.trans top)
    -- The value is taken off the frame that ends, and put back for its caller.
    rcases cycle_cases top here with ⟨-, carried⟩ | ⟨limit, spent⟩
    · rw [carried, step_giveBack (m := fetched m₁ last m.frames) rfl v operands] at cycled
      cases cycled
      exact ⟨v, rfl, by rw [caller]; rfl⟩
    · rw [spent] at cycled
      cases cycled
  | @runsOff frame below top ended operands =>
    obtain ⟨rfl, rfl⟩ := List.cons.inj (frames.symm.trans top)
    rw [cycle_end top ended, gives, caller, operands] at cycled
    cases cycled
    exact ⟨.nil, rfl, rfl⟩

/-- A call that leads to code starts a frame, if there is room for one. -/
theorem settles_body {method : String} {argc : Nat} (running : m.frames ≠ [])
    (enough : argc + 1 ≤ m.operands.size) (code : Code) (this : Option Value) :
    Settles (.call method argc) m
      (follow m (m.operands.items.drop (argc + 1)) (.body code this)) := by
  rw [follow, goingOn, bind_apply, pushFrame_apply]
  by_cases full : m.limits.maxDepth ≤ m.frames.length
  · rw [if_pos (by exact full)]
    intro h
    cases h
  · rw [if_neg (by exact full)]
    have gives : (calledKind this).givesValue := by cases this <;> rfl
    refine .enters rfl ⟨⟨method, argc, rfl, enough, rfl⟩, ?_, ⟨_, rfl, ?_⟩⟩
    · show ((m.operands.items.drop (argc + 1)).length : Int) + 1 = m.operands.size + -(argc : Int)
      rw [List.length_drop]
      simp only [Operands.size] at enough ⊢
      omega
    · intro last m₁ m₂ frames kind concludes cycled
      exact balances_of_concludes running enough frames (kind ▸ gives) concludes cycled

/-- The ways of a call that has its arguments and its receiver. -/
theorem settles_call {method : String} {argc : Nat} (running : m.frames ≠ [])
    (quiet : ∀ v, Event.ofInstruction m.operands.items (.call method argc) ≠ .raises v)
    (enough : argc + 1 ≤ m.operands.size) :
    Settles (.call method argc) m (step (.call method argc) m) := by
  obtain ⟨frame, below, top⟩ := List.exists_cons_of_ne_nil running
  obtain ⟨receiver, args, rfl, taken⟩ := exists_called enough
  rw [step_call top method receiver args taken]
  cases callee : Eval.callee method receiver args m.scene with
  | body code this => exact settles_body running enough code this
  | ending e =>
    have other : ¬ Eval.Raising method receiver := by
      rintro ⟨rfl, rfl⟩
      exact quiet _ (event_call taken)
    exact settles_carry enough rfl (Eval.tame_callee other callee)

/-- The ways of an instruction that has its operands. -/
theorem step_settles {i : Instruction} (running : m.frames ≠ []) (enough : i.pops ≤ m.operands.size) :
    Settles i m (step i m) := by
  by_cases raises : ∃ v, Event.ofInstruction m.operands.items i = .raises v
  · obtain ⟨v, event⟩ := raises
    rw [(step_raises running event).2]
    exact settles_raise event rfl
  have quiet : ∀ v, Event.ofInstruction m.operands.items i ≠ .raises v := not_exists.1 raises
  obtain ⟨frame, below, top⟩ := List.exists_cons_of_ne_nil running
  obtain ⟨args, taken, count⟩ := exists_taken enough
  -- All plain instructions go alike; each of the others goes its own way.
  by_cases plain : i.isPlain
  · rw [step_operate plain top taken count]
    exact settles_carry enough (Instruction.pushes_of_isPlain plain)
      (Instruction.tame_operate plain count m.scene)
  · cases i with
    | call method argc => exact settles_call running quiet enough
    | halt => exact .stays rfl (.of_items [] enough rfl rfl)
    | pop =>
      obtain ⟨v, rfl⟩ := List.length_eq_one_iff.1 count
      rw [step_pop v taken]
      exact .stays rfl (.of_items [] enough rfl rfl)
    | jump target =>
      rw [step_jump top]
      exact .stays (by rw [top]; rfl) (.of_items [] enough rfl rfl)
    | jumpIfFalse target =>
      obtain ⟨v, rfl⟩ := List.length_eq_one_iff.1 count
      rw [step_jumpIfFalse top target v taken]
      exact .stays (by rw [top]; rfl) (.of_items [] enough rfl rfl)
    | openHandler target =>
      rw [step_openHandler top]
      exact .stays (by rw [top]; rfl) (.of_items [] enough rfl rfl)
    | closeHandler =>
      rw [step_closeHandler top]
      exact .stays (by rw [top]; rfl) (.of_items [] enough rfl rfl)
    | giveBack =>
      obtain ⟨v, rfl⟩ := List.length_eq_one_iff.1 count
      rw [step_giveBack top v taken]
      exact .leaves (by rw [top]; exact Nat.lt_succ_self _)
    | raise =>
      obtain ⟨v, rfl⟩ := List.length_eq_one_iff.1 count
      refine absurd ?_ (quiet v)
      rw [taken]
      rfl
    | _ => exact absurd rfl plain

/-- An instruction that succeeds has had its operands, and has gone one of these ways. -/
theorem goes_of_step {i : Instruction} {flow : Flow} {m' : Machine} (running : m.frames ≠ [])
    (stepped : step i m = .ok flow m') : Goes i m m' := by
  have enough : i.pops ≤ m.operands.size := by
    by_contra few
    obtain ⟨m₁, missed⟩ := step_misses (Nat.not_le.1 few)
    rw [missed] at stepped
    cases stepped
  have settles := step_settles running enough
  rw [stepped] at settles
  exact settles

/-- Effects are what a machine does.  An instruction that neither raises a value nor starts or ends a
frame changes the operands by its effect, and leaves alone what lies below those that it takes.  One
that starts a frame is a call, which takes its arguments and its receiver and is owed one value by that
frame.  One that raises a value has taken its operands before.  An operand is missed exactly where
there are fewer than the instruction takes. -/
theorem step_operands (i : Instruction) (running : m.frames ≠ []) :
    (∀ flow m', step i m = .ok flow m' →
      (∀ v, Event.ofInstruction m.operands.items i ≠ .raises v) →
      m'.frames.length = m.frames.length → i.Balances m m')
    ∧ (∀ flow m', step i m = .ok flow m' → m.frames.length < m'.frames.length → i.Enters m m')
    ∧ (∀ v, Event.ofInstruction m.operands.items i = .raises v →
      i.pops ≤ m.operands.size
        ∧ step i m = goingOn (raiseValue v) { m with operands := ⟨m.operands.items.drop i.pops⟩ })
    ∧ ((∃ m', step i m = .error (.fault .operandUnderflow) m') ↔ m.operands.size < i.pops) := by
  refine ⟨fun flow m' stepped quiet same => ?_, fun flow m' stepped more => ?_,
    fun v => step_raises running, ⟨fun missed => ?_, step_misses⟩⟩
  · cases goes_of_step running stepped with
    | stays frames balances => exact balances
    | enters frames enters => omega
    | leaves frames => omega
    | raises v event frames => exact absurd event (quiet v)
  · -- Only a call makes the frames more: whatever raises a value lets frames end at most.
    cases goes_of_step running stepped with
    | enters frames enters => exact enters
    | stays frames balances => omega
    | leaves frames => omega
    | raises v event frames => omega
  · by_contra enough
    obtain ⟨m', missed⟩ := missed
    have settles := step_settles running (Nat.not_lt.1 enough)
    rw [missed] at settles
    exact settles rfl

/-- A machine with a class whose method does nothing, and with four operands: the class below a value,
and two values below it. -/
def ringing : Machine :=
  let empty : Code := ⟨#[], 0⟩
  let ring : MethodImage := ⟨empty, .shown, [], 0⟩
  let image : ClassImage :=
    ⟨"Bell", firstClassId, none, [], ∅, Table.ofList [("ring", ring)], ∅, ∅, empty⟩
  { Machine.new .usual default with
    classes := Registry.empty.register image
    frames := [.start empty .main none]
    operands := ⟨[.nil, .classRef firstClassId, .bool true, .nil]⟩ }

theorem step_operands_ringing :
    ringing.frames ≠ []
    ∧ (∃ m', step (.buildList 3) ringing = .ok .next m'
      ∧ (Instruction.buildList 3).Balances ringing m')
    ∧ (∃ m₁ m₂, step (.call "ring" 1) ringing = .ok .next m₁ ∧ cycle m₁ = .ok true m₂
      ∧ m₂.frames = ringing.frames ∧ (Instruction.call "ring" 1).Balances ringing m₂)
    ∧ ∃ m', step (.buildMap 3) ringing = .error (.fault .operandUnderflow) m' := by
  have running : ringing.frames ≠ [] := List.cons_ne_nil _ _
  refine ⟨running, ?_, ?_, ?_⟩
  · exact ⟨_, rfl, (step_operands (.buildList 3) running).1 .next _ rfl (fun _ => nofun) rfl⟩
  · let callee : Frame := .start ⟨#[], 0⟩ .staticMethod none
    let inside : Machine := entered { ringing with operands := ⟨[.bool true, .nil]⟩ } callee
    have called : step (.call "ring" 1) ringing = .ok .next inside := rfl
    have ended : cycle inside = .ok true { ringing with operands := ⟨[.nil, .bool true, .nil]⟩ } := rfl
    have enters := (step_operands (.call "ring" 1) running).2.1 _ _ called (Nat.lt_succ_self _)
    obtain ⟨started, frames, paid⟩ := enters.paid
    obtain rfl : callee = started := (List.cons.inj frames).1
    exact ⟨_, _, called, ended, paid callee _ _ rfl rfl (.runsOff rfl rfl rfl) ended⟩
  · exact (step_operands (.buildMap 3) running).2.2.2.2 (by decide)

end Action

end Monogram
