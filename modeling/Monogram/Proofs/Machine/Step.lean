import Mathlib.Data.List.Basic
import Monogram.Proofs.Evaluation.Operation

/-! # What a machine does with an instruction

* `Machine.scene` — the scene that a machine shows to the code that runs.
* `Machine.resume` — the machine with another scene and other operands.
* `Action.step_operate` — a plain instruction.
* `Action.step_call` — a call, which starts a frame or ends at once.
* `Action.cycle_step` — a cycle is the step of the instruction that has been fetched and counted.
-/

namespace Monogram

namespace Machine

/-- What outlives a run. -/
def world (m : Machine) : World :=
  ⟨m.console, m.classes, m.heap, m.slots, m.globals⟩

/-- What `this` stands for in the frame that runs. -/
def this (m : Machine) : Option Value :=
  match m.frames with
  | frame :: _ => frame.this
  | [] => none

/-- What the code that runs can see. -/
def scene (m : Machine) : Scene :=
  { m.world with this := m.this }

/-- The machine with another scene and other operands. -/
def resume (m : Machine) (scene : Scene) (items : List Value) : Machine :=
  { m with
    console := scene.console, classes := scene.classes, heap := scene.heap, slots := scene.slots
    globals := scene.globals, operands := ⟨items⟩
    frames :=
      match m.frames with
      | frame :: below => { frame with this := scene.this } :: below
      | [] => [] }

theorem callerClass_eq (m : Machine) : m.callerClass = m.scene.callerClass := by
  unfold callerClass scene this
  cases m.frames <;> rfl

end Machine

namespace Action

section Apply

variable {α γ : Type}

@[simp] theorem bind_apply (p : Action α) (q : α → Action γ) (m : Machine) :
    (p >>= q) m =
      match p m with
      | .ok a m => q a m
      | .error f m => .error f m := by
  change EStateM.bind p q m = _
  unfold EStateM.bind
  cases p m <;> rfl

@[simp] theorem pure_apply (a : α) (m : Machine) : (pure a : Action α) m = .ok a m := rfl

@[simp] theorem get_apply (m : Machine) : (get : Action Machine) m = .ok m m := rfl

@[simp] theorem modify_apply (change : Machine → Machine) (m : Machine) :
    (modify change : Action Unit) m = .ok () (change m) := rfl

@[simp] theorem lift_ok (a : α) (m : Machine) : lift (.ok a) m = .ok a m := rfl

@[simp] theorem consult_apply (ask : Console → α × Console) (m : Machine) :
    consult ask m = .ok (ask m.console).1 { m with console := (ask m.console).2 } := rfl

/-! ## Operands -/

theorem pop_apply (m : Machine) :
    pop m =
      match m.operands.items with
      | [] => .error (.fault .operandUnderflow) m
      | a :: rest => .ok a { m with operands := ⟨rest⟩ } := by
  obtain ⟨_, _, _, _, _, ⟨items⟩, _, _, _⟩ := m
  cases items <;> rfl

theorem peek_apply (m : Machine) :
    peek m =
      match m.operands.items with
      | [] => .error (.fault .operandUnderflow) m
      | a :: _ => .ok a m := by
  obtain ⟨_, _, _, _, _, ⟨items⟩, _, _, _⟩ := m
  cases items <;> rfl

end Apply

/-- So many operands as arguments, the one pushed last at the end, and those below them. -/
theorem exists_arguments {items : List Value} {n : Nat} (enough : n ≤ items.length) :
    ∃ args : List Value, items = args.reverse ++ items.drop n ∧ args.length = n := by
  refine ⟨(items.take n).reverse, ?_, ?_⟩
  · rw [List.reverse_reverse, List.take_append_drop]
  · rw [List.length_reverse, List.length_take, Nat.min_eq_left enough]

theorem popArguments_apply (m : Machine) (args rest : List Value) :
    popArguments args.length { m with operands := ⟨args.reverse ++ rest⟩ }
      = .ok args { m with operands := ⟨rest⟩ } := by
  generalize count : args.length = n
  induction n generalizing args with
  | zero =>
    obtain rfl := List.length_eq_zero_iff.1 count
    rfl
  | succ n ih =>
    obtain ⟨front, last, rfl⟩ : ∃ front last, args = front ++ [last] := by
      have nonempty : args ≠ [] := List.ne_nil_of_length_eq_add_one count
      exact ⟨_, _, (List.dropLast_concat_getLast nonempty).symm⟩
    simp only [List.length_append, List.length_singleton, Nat.add_right_cancel_iff] at count
    simp only [popArguments, List.reverse_concat, List.cons_append, bind_apply, pop_apply,
      ih front count, pure_apply]

theorem popMany_apply (m : Machine) (args rest : List Value) :
    popMany args.length { m with operands := ⟨args.reverse ++ rest⟩ }
      = .ok args { m with operands := ⟨rest⟩ } := by
  have enough : ¬ args.length + rest.length < args.length := by omega
  have taken : (args.reverse ++ rest).take args.length = args.reverse := by
    rw [← List.length_reverse]; exact List.take_left
  have left : (args.reverse ++ rest).drop args.length = rest := by
    rw [← List.length_reverse]; exact List.drop_left
  have popped : Operands.popMany? ⟨args.reverse ++ rest⟩ args.length = some (args, ⟨rest⟩) := by
    simp only [Operands.popMany?, Operands.size, List.length_append, List.length_reverse,
      if_neg enough, taken, left, List.reverse_reverse]
  simp only [popMany, bind_apply, get_apply, popped, modify_apply, pure_apply]

/-! ## Plain instructions -/

/-- An action behind which the run goes on. -/
def goingOn (a : Action Unit) : Action Flow := do
  a
  return .next

/-- What a machine makes of an operation on operands that lay above `rest`. -/
def carry (m : Machine) (rest : List Value) : Ending Code Value → EStateM.Result Failure Machine Flow
  | .done v scene => .ok .next (m.resume scene (v :: rest))
  | .raised v scene => goingOn (raiseValue v) (m.resume scene rest)
  | .faulted f scene => .error (.fault f) (m.resume scene rest)
  | .unfinished => .ok .halt { m with operands := ⟨rest⟩ }

theorem carry_operands (m : Machine) (operands : Operands Value) (rest : List Value)
    (e : Ending Code Value) : carry { m with operands } rest e = carry m rest e := by
  cases e <;> rfl

theorem eq_carry_lift {α : Type} {m : Machine} {rest : List Value} {scene : Scene}
    {outcome : EStateM.Result Failure Machine Flow} (result : Except Fault α)
    {next : α → Eval Code Value}
    (good : ∀ a, result = .ok a → outcome = carry m rest (next a scene))
    (bad : ∀ e, result = .error e → outcome = .error (.fault e) (m.resume scene rest)) :
    outcome = carry m rest ((Eval.lift result >>= next) scene) := by
  cases result with
  | ok a => exact good a rfl
  | error e => exact bad e rfl

variable {m : Machine} {frame : Frame} {below : List Frame} {rest : List Value}

theorem step_loadField (running : m.frames = frame :: below) (o : Value) (field : String)
    (taken : m.operands = ⟨o :: rest⟩) :
    step (.loadField field) m = carry m rest (Eval.loadField o field m.scene) := by
  obtain ⟨limits, console, classes, heap, frames, operands, slots, globals, executed⟩ := m
  subst running taken
  cases o with
  | object address =>
    -- The check looks at the machine once the operand is gone.
    let bare : Machine :=
      ⟨limits, console, classes, heap, frame :: below, ⟨rest⟩, slots, globals, executed⟩
    refine eq_carry_lift (classes.checkField (heap.object address).image field bare.callerClass)
      (fun _ checked => ?_) (fun e checked => ?_) <;>
    · simp only [step, expectObject, checkField, bind_apply, pop_apply, pure_apply, get_apply]
      rw [checked]
      rfl
  | _ => rfl

theorem step_storeField (running : m.frames = frame :: below) (o v : Value) (field : String)
    (taken : m.operands = ⟨v :: o :: rest⟩) :
    step (.storeField field) m = carry m rest (Eval.storeField o field v m.scene) := by
  obtain ⟨limits, console, classes, heap, frames, operands, slots, globals, executed⟩ := m
  subst running taken
  cases o with
  | object address =>
    let bare : Machine :=
      ⟨limits, console, classes, heap, frame :: below, ⟨rest⟩, slots, globals, executed⟩
    refine eq_carry_lift (classes.checkField (heap.object address).image field bare.callerClass)
      (fun _ checked => ?_) (fun e checked => ?_) <;>
    · simp only [step, expectObject, checkField, bind_apply, pop_apply, pure_apply, get_apply]
      rw [checked]
      rfl
  | _ => rfl

theorem step_storeName (running : m.frames = frame :: below) (v : Value) (name : String)
    (taken : m.operands = ⟨v :: rest⟩) :
    step (.storeName name) m = carry m rest (Eval.writeName name v m.scene) := by
  obtain ⟨limits, console, classes, heap, frames, operands, slots, globals, executed⟩ := m
  subst running taken
  change _ = EStateM.Result.ok Flow.next
    (Machine.resume _ (if name = "this" ∧ frame.this.isSome then _ else _) _)
  by_cases own : name = "this" ∧ frame.this.isSome
  · simp only [step, assign, bind_apply, peek_apply, modify_apply, if_pos own]
    rfl
  · simp only [step, assign, bind_apply, peek_apply, modify_apply, if_neg own]
    rfl

theorem step_loadStatic (running : m.frames = frame :: below) (c : Value) (field : String)
    (taken : m.operands = ⟨c :: rest⟩) :
    step (.loadStatic field) m = carry m rest (Eval.loadStatic c field m.scene) := by
  obtain ⟨limits, console, classes, heap, frames, operands, slots, globals, executed⟩ := m
  subst running taken
  cases c with
  | classRef id =>
    simp only [step, expectClass, bind_apply, pop_apply, pure_apply, get_apply]
    change _ = carry _ rest (Eval.lift (classes.getStatic id field) _)
    cases classes.getStatic id field <;> rfl
  | _ => rfl

theorem step_storeStatic (running : m.frames = frame :: below) (c v : Value) (field : String)
    (taken : m.operands = ⟨v :: c :: rest⟩) :
    step (.storeStatic field) m = carry m rest (Eval.storeStatic c field v m.scene) := by
  obtain ⟨limits, console, classes, heap, frames, operands, slots, globals, executed⟩ := m
  subst running taken
  cases c with
  | classRef id =>
    refine eq_carry_lift (classes.setStatic id field v) (fun _ stored => ?_)
      (fun e stored => ?_) <;>
    · simp only [step, expectClass, bind_apply, pop_apply, pure_apply, get_apply]
      rw [stored]
      rfl
  | _ => rfl

theorem step_arithmetic (running : m.frames = frame :: below) (a b : Value) (op : Arithmetic)
    (taken : m.operands = ⟨b :: a :: rest⟩) :
    step (.arithmetic op) m = carry m rest (Eval.arithmetic op a b m.scene) := by
  obtain ⟨limits, console, classes, heap, frames, operands, slots, globals, executed⟩ := m
  subst running taken
  refine eq_carry_lift (heap.arithmetic op a b) (fun result found => ?_) (fun e found => ?_)
  · simp only [step, bind_apply, pop_apply, get_apply]
    rw [found]
    cases result <;> rfl
  · simp only [step, bind_apply, pop_apply, get_apply]
    rw [found]
    rfl

theorem step_print (running : m.frames = frame :: below) (receiver : Value) (args : List Value)
    (taken : m.operands = ⟨args.reverse ++ receiver :: rest⟩) :
    step (.print args.length) m = carry m rest (Eval.print args m.scene) := by
  obtain ⟨limits, console, classes, heap, frames, operands, slots, globals, executed⟩ := m
  subst running taken
  have popped := popArguments_apply
    ⟨limits, console, classes, heap, frame :: below, ⟨[]⟩, slots, globals, executed⟩ args
    (receiver :: rest)
  simp only at popped
  simp only [step, bind_apply, popped, pop_apply, print, get_apply, consult_apply, Eval.print, Eval.look,
    Eval.bind_apply, Eval.consult_apply, Machine.scene, Machine.world]
  obtain ⟨result, after⟩ := console.print _
  cases result <;> rfl

theorem step_construct (running : m.frames = frame :: below) (className : String)
    (args : List Value) (taken : m.operands = ⟨args.reverse ++ rest⟩) :
    step (.construct className args.length) m = carry m rest (Eval.construct className m.scene) := by
  obtain ⟨limits, console, classes, heap, frames, operands, slots, globals, executed⟩ := m
  subst running taken
  have popped := popArguments_apply
    ⟨limits, console, classes, heap, frame :: below, ⟨[]⟩, slots, globals, executed⟩ args rest
  simp only at popped
  simp only [step, bind_apply, popped, get_apply, Eval.construct, Eval.look, Eval.bind_apply,
    Machine.scene, Machine.world]
  cases classes.byName? className <;> rfl

theorem step_buildMap (running : m.frames = frame :: below) (items : List Value) {count : Nat}
    (even : items.length = 2 * count) (taken : m.operands = ⟨items.reverse ++ rest⟩) :
    step (.buildMap count) m = carry m rest (Eval.newMap (step.pairs items) m.scene) := by
  obtain ⟨limits, console, classes, heap, frames, operands, slots, globals, executed⟩ := m
  subst running taken
  have popped := popMany_apply
    ⟨limits, console, classes, heap, frame :: below, ⟨[]⟩, slots, globals, executed⟩ items rest
  simp only [even] at popped
  refine eq_carry_lift (Dict.ofEntries (step.pairs items)) (fun _ built => ?_)
    (fun e built => ?_) <;>
  · simp only [step, bind_apply, popped]
    rw [built]
    rfl

/-- A machine carries out a plain instruction. -/
theorem step_operate {i : Instruction} {args : List Value} (plain : i.isPlain)
    (running : m.frames = frame :: below) (taken : m.operands = ⟨args.reverse ++ rest⟩)
    (count : args.length = i.pops) : step i m = carry m rest (i.operate args m.scene) := by
  -- The operands are as many as the instruction takes, so both sides can be computed.
  cases i with
  | push c | loadSlot slot | loadName name =>
    obtain rfl := List.length_eq_zero_iff.1 count
    obtain ⟨_, _, _, _, _, _, _, _, _⟩ := m
    subst running taken
    rfl
  | storeSlot slot =>
    obtain ⟨v, rfl⟩ := List.length_eq_one_iff.1 count
    obtain ⟨_, _, _, _, _, _, _, _, _⟩ := m
    subst running taken
    rfl
  | storeName name =>
    obtain ⟨v, rfl⟩ := List.length_eq_one_iff.1 count
    exact step_storeName running v name taken
  | loadField field =>
    obtain ⟨o, rfl⟩ := List.length_eq_one_iff.1 count
    exact step_loadField running o field taken
  | storeField field =>
    obtain ⟨o, v, rfl⟩ := List.length_eq_two.1 count
    exact step_storeField running o v field taken
  | loadStatic field =>
    obtain ⟨c, rfl⟩ := List.length_eq_one_iff.1 count
    exact step_loadStatic running c field taken
  | storeStatic field =>
    obtain ⟨c, v, rfl⟩ := List.length_eq_two.1 count
    exact step_storeStatic running c v field taken
  | loadIndex =>
    obtain ⟨container, index, rfl⟩ := List.length_eq_two.1 count
    obtain ⟨limits, console, classes, heap, frames, operands, slots, globals, executed⟩ := m
    subst running taken
    change _ = carry _ rest (Eval.lift (heap.load container index) _)
    cases found : heap.load container index <;>
    · simp only [step, bind_apply, pop_apply, get_apply, List.reverse_cons, List.reverse_nil,
        List.nil_append, List.cons_append]
      rw [found]
      rfl
  | storeIndex =>
    obtain ⟨container, index, v, rfl⟩ := List.length_eq_three.1 count
    obtain ⟨limits, console, classes, heap, frames, operands, slots, globals, executed⟩ := m
    subst running taken
    refine eq_carry_lift (heap.storing container index v) (fun _ found => ?_)
      (fun e found => ?_) <;>
    · simp only [step, bind_apply, pop_apply, get_apply, List.reverse_cons, List.reverse_nil,
        List.nil_append, List.cons_append]
      rw [found]
      rfl
  | arithmetic op =>
    obtain ⟨a, b, rfl⟩ := List.length_eq_two.1 count
    exact step_arithmetic running a b op taken
  | compare op =>
    obtain ⟨a, b, rfl⟩ := List.length_eq_two.1 count
    obtain ⟨limits, console, classes, heap, frames, operands, slots, globals, executed⟩ := m
    subst running taken
    refine eq_carry_lift (heap.compare op a b) (fun _ found => ?_) (fun e found => ?_) <;>
    · simp only [step, bind_apply, pop_apply, get_apply, List.reverse_cons, List.reverse_nil,
        List.nil_append, List.cons_append]
      rw [found]
      rfl
  | and | or =>
    obtain ⟨a, b, rfl⟩ := List.length_eq_two.1 count
    obtain ⟨_, _, _, _, _, _, _, _, _⟩ := m
    subst running taken
    rfl
  | not =>
    obtain ⟨a, rfl⟩ := List.length_eq_one_iff.1 count
    obtain ⟨_, _, _, _, _, _, _, _, _⟩ := m
    subst running taken
    rfl
  | negate =>
    obtain ⟨a, rfl⟩ := List.length_eq_one_iff.1 count
    obtain ⟨limits, console, classes, heap, frames, operands, slots, globals, executed⟩ := m
    subst running taken
    change _ = carry _ rest (Eval.lift (Heap.negate a) _)
    cases found : Heap.negate a <;>
    · simp only [step, bind_apply, pop_apply, List.reverse_cons, List.reverse_nil,
        List.nil_append, List.cons_append]
      rw [found]
      rfl
  | construct className argc =>
    obtain rfl : args.length = argc := count
    exact step_construct running className args taken
  | print argc =>
    cases args with
    | nil => cases count
    | cons receiver args =>
      obtain rfl : args.length = argc := Nat.succ.inj count
      rw [List.reverse_cons, List.append_assoc] at taken
      exact step_print running receiver args taken
  | buildList n =>
    obtain rfl : args.length = n := count
    obtain ⟨limits, console, classes, heap, frames, operands, slots, globals, executed⟩ := m
    subst running taken
    have popped := popMany_apply
      ⟨limits, console, classes, heap, frame :: below, ⟨[]⟩, slots, globals, executed⟩ args rest
    simp only at popped
    simp only [step, bind_apply, popped]
    rfl
  | buildMap n => exact step_buildMap running args count taken
  | halt | pop | jump _ | jumpIfFalse _ | call _ _ | giveBack | openHandler _ | closeHandler
  | raise => cases plain

/-! ## Calls -/

/-- The kind of a frame that a call starts. -/
def calledKind : Option Value → FrameKind
  | some _ => .method
  | none => .staticMethod

/-- What a machine makes of a call whose receiver and arguments lay above `rest`. -/
def follow (m : Machine) (rest : List Value) :
    Eval.Callee Code → EStateM.Result Failure Machine Flow
  | .body code this =>
    goingOn (pushFrame (.start code (calledKind this) this)) { m with operands := ⟨rest⟩ }
  | .ending e => carry m rest e

theorem call_system (running : m.frames = frame :: below) (method : String) (args : List Value)
    (taken : m.operands = ⟨rest⟩) :
    goingOn (call method .system args) m = carry m rest (Eval.system method args m.scene) := by
  obtain ⟨limits, console, classes, heap, frames, operands, slots, globals, executed⟩ := m
  subst running taken
  unfold Eval.system
  split
  · simp only [goingOn, call, system, print, bind_apply, get_apply, consult_apply, Eval.print, Eval.look,
      Eval.bind_apply, Eval.consult_apply, Machine.scene, Machine.world]
    obtain ⟨result, after⟩ := console.print _
    cases result <;> rfl
  · simp only [goingOn, call, system, readLine, bind_apply, get_apply, consult_apply, Eval.readLine,
      Eval.bind_apply, Eval.consult_apply, Machine.scene, Machine.world]
    obtain ⟨result, after⟩ := console.readLine
    cases result <;> rfl
  · rfl
  · cases args with
    | nil => rfl
    | cons first others =>
      simp only [goingOn, call, system, readFile, bind_apply, get_apply, consult_apply, Eval.readFile,
        Eval.look, Eval.bind_apply, Eval.consult_apply, Machine.scene, Machine.world]
      obtain ⟨result, after⟩ := console.readFile (heap.display first)
      cases result <;> rfl
  · simp only [goingOn, call, system, bind_apply, get_apply]
    rfl

/-- A machine carries out a call. -/
theorem step_call (running : m.frames = frame :: below) (method : String) (receiver : Value)
    (args : List Value) (taken : m.operands = ⟨args.reverse ++ receiver :: rest⟩) :
    step (.call method args.length) m = follow m rest (Eval.callee method receiver args m.scene) := by
  obtain ⟨limits, console, classes, heap, frames, operands, slots, globals, executed⟩ := m
  subst running taken
  let bare : Machine :=
    ⟨limits, console, classes, heap, frame :: below, ⟨rest⟩, slots, globals, executed⟩
  have popped := popArguments_apply bare args (receiver :: rest)
  simp only [bare] at popped
  have called : step (.call method args.length)
      ⟨limits, console, classes, heap, frame :: below, ⟨args.reverse ++ receiver :: rest⟩, slots,
        globals, executed⟩ = goingOn (call method receiver args) bare := by
    simp only [step, goingOn, bind_apply, popped, pop_apply, bare]
  rw [called]
  -- What is looked up depends on the receiver, and for an object on the class that calls as well.
  cases receiver with
  | object address =>
    have caller : Scene.callerClass (Machine.scene
        ⟨limits, console, classes, heap, frame :: below, ⟨args.reverse ++ .object address :: rest⟩,
          slots, globals, executed⟩) = bare.callerClass := bare.callerClass_eq.symm
    simp only [Eval.callee, caller, goingOn, call, bind_apply, get_apply]
    simp only [Machine.scene, Machine.world, bare]
    cases classes.resolveMethod (heap.object address).image method
      (Machine.callerClass ⟨limits, console, classes, heap, frame :: below, ⟨rest⟩, slots, globals,
        executed⟩) with
    | error e => rfl
    | ok code =>
      simp only [lift_ok, follow, goingOn, bind_apply]
      rfl
  | classRef id =>
    simp only [Eval.callee, goingOn, call, bind_apply, get_apply, Machine.scene, Machine.world, bare]
    cases classes.resolveStatic id method with
    | error e => rfl
    | ok code =>
      simp only [lift_ok, follow, goingOn, bind_apply]
      rfl
  | system =>
    rw [call_system (m := bare) rfl method args rfl]
    exact (carry_operands bare ⟨args.reverse ++ .system :: rest⟩ rest _).symm
  | _ => rfl

/-! ## Control -/

theorem step_pop (v : Value) (taken : m.operands = ⟨v :: rest⟩) :
    step .pop m = .ok .next { m with operands := ⟨rest⟩ } := by
  simp only [step, bind_apply, pop_apply, taken, pure_apply]

theorem step_jump (running : m.frames = frame :: below) (target : Nat) :
    step (.jump target) m
      = .ok .next { m with frames := { frame with next := target } :: below } := by
  simp only [step, jump, modifyFrame, bind_apply, modify_apply, running, pure_apply]

theorem step_jumpIfFalse (running : m.frames = frame :: below) (target : Nat) (condition : Value)
    (taken : m.operands = ⟨condition :: rest⟩) :
    step (.jumpIfFalse target) m
      = .ok .next { m with
          operands := ⟨rest⟩
          frames :=
            { frame with next := if m.heap.truthy condition then frame.next else target }
              :: below } := by
  obtain ⟨limits, console, classes, heap, frames, operands, slots, globals, executed⟩ := m
  subst running taken
  simp only [step, jump, modifyFrame, bind_apply, pop_apply, get_apply]
  cases heap.truthy condition <;> rfl

theorem step_giveBack (running : m.frames = frame :: below) (v : Value)
    (taken : m.operands = ⟨v :: rest⟩) :
    step .giveBack m
      = .ok .next { m with
          frames := below, operands := ⟨if below.isEmpty then rest else v :: rest⟩ } := by
  obtain ⟨limits, console, classes, heap, frames, operands, slots, globals, executed⟩ := m
  subst running taken
  cases below <;> rfl

theorem step_openHandler (running : m.frames = frame :: below) (target : Nat) :
    step (.openHandler target) m
      = .ok .next { m with
          frames :=
            { frame with handlers := ⟨target, m.operands.size⟩ :: frame.handlers } :: below } := by
  simp only [step, modifyFrame, bind_apply, get_apply, modify_apply, running, pure_apply]

theorem step_closeHandler (running : m.frames = frame :: below) :
    step .closeHandler m
      = .ok .next { m with frames := { frame with handlers := frame.handlers.tail } :: below } := by
  simp only [step, modifyFrame, bind_apply, modify_apply, running, pure_apply]

/-! ## Raised values -/

theorem truncate_append (junk base : List Value) :
    Operands.truncate ⟨junk ++ base⟩ base.length = ⟨base⟩ := by
  simp [Operands.truncate, Operands.size]

theorem raiseValue_of_handler {v : Value} {handler : Handler}
    (found : findHandler m.frames = some (handler, frame, below)) :
    raiseValue v m
      = .ok () { m with
          frames := { frame with next := handler.address } :: below
          operands := (m.operands.truncate handler.depth).push v } := by
  simp only [raiseValue, bind_apply, get_apply, found]
  rfl

theorem raiseValue_of_none {v : Value} (found : findHandler m.frames = none) :
    raiseValue v m = .error (.uncaught (m.heap.display v)) { m with frames := [] } := by
  simp only [raiseValue, bind_apply, get_apply, found]
  rfl

/-! ## Cycles -/

/-- A step as the whole of a cycle. -/
def closing : EStateM.Result Failure Machine Flow → EStateM.Result Failure Machine Bool
  | .ok .next m => .ok true m
  | .ok .halt m => .ok true { m with frames := [] }
  | .error f m => .error f m

theorem cycle_idle (idle : m.frames = []) : cycle m = .ok false m := by
  simp only [cycle, bind_apply, get_apply, idle, pure_apply]

theorem cycle_end (running : m.frames = frame :: below)
    (ended : frame.code.instructions[frame.next]? = none) :
    cycle m
      = .ok true { m with
          frames := below
          operands :=
            if frame.kind.givesValue && !below.isEmpty then m.operands.push .nil
            else m.operands } := by
  simp only [cycle, endFrame, bind_apply, get_apply, running, ended, modify_apply]
  cases frame.kind.givesValue && !below.isEmpty <;> rfl

/-- The machine behind the fetching and counting of an instruction. -/
def fetched (m : Machine) (frame : Frame) (below : List Frame) : Machine :=
  { m with frames := { frame with next := frame.next + 1 } :: below, executed := m.executed + 1 }

theorem cycle_step {i : Instruction} (running : m.frames = frame :: below)
    (here : frame.code.instructions[frame.next]? = some i)
    (spare : ∀ limit, m.limits.maxInstructions = some limit → m.executed < limit) :
    cycle m = closing (step i (fetched m frame below)) := by
  have counted : countInstruction { m with frames := { frame with next := frame.next + 1 } :: below }
      = .ok () (fetched m frame below) := by
    simp only [countInstruction, bind_apply, modify_apply, get_apply]
    cases limited : m.limits.maxInstructions with
    | none => rfl
    | some limit =>
      have enough := spare limit limited
      simp only [if_neg (by omega : ¬ limit < m.executed + 1)]
      rfl
  simp only [cycle, bind_apply, get_apply, running, here, modify_apply, counted]
  rcases step i (fetched m frame below) with ⟨flow, after⟩ | ⟨f, after⟩
  · cases flow <;> rfl
  · rfl

theorem cycle_spent {i : Instruction} {limit : Nat} (running : m.frames = frame :: below)
    (here : frame.code.instructions[frame.next]? = some i)
    (limited : m.limits.maxInstructions = some limit) (spent : limit ≤ m.executed) :
    cycle m = .error (.instructions limit) (fetched m frame below) := by
  have counted : countInstruction { m with frames := { frame with next := frame.next + 1 } :: below }
      = .error (.instructions limit) (fetched m frame below) := by
    simp only [countInstruction, bind_apply, modify_apply, get_apply, limited,
      if_pos (by omega : limit < m.executed + 1)]
    rfl
  simp only [cycle, bind_apply, get_apply, running, here, modify_apply, counted]

/-- An instruction that is found is carried out, unless it is one too many. -/
theorem cycle_cases {i : Instruction} (running : m.frames = frame :: below)
    (here : frame.code.instructions[frame.next]? = some i) :
    (∀ limit, m.limits.maxInstructions = some limit → m.executed < limit)
        ∧ cycle m = closing (step i (fetched m frame below))
    ∨ ∃ limit, cycle m = .error (.instructions limit) (fetched m frame below) := by
  by_cases spare : ∀ limit, m.limits.maxInstructions = some limit → m.executed < limit
  · exact .inl ⟨spare, cycle_step running here spare⟩
  · push Not at spare
    obtain ⟨limit, limited, spent⟩ := spare
    exact .inr ⟨limit, cycle_spent running here limited (by omega)⟩

/-- Where a cycle succeeds, so does the step of its instruction. -/
theorem step_of_cycle {i : Instruction} {m' : Machine} (running : m.frames = frame :: below)
    (here : frame.code.instructions[frame.next]? = some i) (cycled : cycle m = .ok true m') :
    ∃ flow m₁, step i (fetched m frame below) = .ok flow m₁ := by
  rcases cycle_cases running here with ⟨-, carried⟩ | ⟨limit, spent⟩
  · rw [carried] at cycled
    cases stepped : step i (fetched m frame below) with
    | ok flow m₁ => exact ⟨flow, m₁, rfl⟩
    | error f m₁ =>
      rw [stepped] at cycled
      cases cycled
  · rw [spent] at cycled
    cases cycled

end Action

end Monogram
