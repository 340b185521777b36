import Monogram.Proofs.Machine.Step

/-! # Properties of composed actions

Instructions are put together from a few primitive actions, which come one behind the other or behind a
look at the machine.  So a property of actions that such compositions keep holds of an instruction if it
holds of the primitives that the instruction is made of.

* `Sees` — a property that is kept behind a look at something.
* `Composes` — a property that compositions keep and that holds of changes to operands.
* `Calculates` — one that also holds of what the heap and the classes do with values.
* `Calculates.step` — every instruction that works on operands alone, the heap and the console.
-/

namespace Monogram

/-- Whether an instruction takes its operands and leaves a value, and works on nothing else but the heap
and the console. -/
def Instruction.calculates : Instruction → Bool
  | .loadSlot _ | .storeSlot _ | .loadName _ | .storeName _ | .storeStatic _ => false
  | i => i.isPlain

namespace Action

/-- The property holds of an action behind a look at the machine that is only for what `f` sees of it. -/
def Sees {β : Type} (P : {α : Type} → Action α → Prop) (f : Machine → β) : Prop :=
  ∀ {α : Type} {q : Machine → Action α}, (∀ m m', f m = f m' → q m = q m') → (∀ m, P (q m)) →
    P (get >>= q)

/-- Compositions keep the property, and it holds of whatever changes operands alone. -/
structure Composes (P : {α : Type} → Action α → Prop) : Prop where
  value : ∀ {α : Type} (a : α), P (pure a : Action α)
  fault : ∀ {α : Type} (f : Fault), P (fault f : Action α)
  bind : ∀ {α γ : Type} {p : Action α} {q : α → Action γ}, P p → (∀ a, P (q a)) → P (p >>= q)
  operands : Sees P Machine.operands
  change : ∀ f : Operands Value → Operands Value,
    P (modify fun m => { m with operands := f m.operands } : Action Unit)

namespace Composes

variable {P : {α : Type} → Action α → Prop} (h : Composes P)
include h

theorem lift {α : Type} (result : Except Fault α) : P (lift result) := by
  cases result with
  | ok a => exact h.value a
  | error f => exact h.fault f

/-! ## Operands -/

theorem push (v : Value) : P (push v) := h.change (·.push v)

theorem pop : P pop := by
  refine h.operands (fun _ _ same => by rw [same]) fun m => ?_
  cases m.operands.pop? with
  | some found => exact h.bind (h.change fun _ => found.2) fun _ => h.value _
  | none => exact h.fault _

theorem peek : P peek := by
  refine h.operands (fun _ _ same => by rw [same]) fun m => ?_
  cases m.operands.peek? with
  | some v => exact h.value _
  | none => exact h.fault _

theorem popArguments : ∀ argc, P (popArguments argc)
  | 0 => h.value _
  | argc + 1 => h.bind h.pop fun _ => h.bind (popArguments argc) fun _ => h.value _

theorem popMany (n : Nat) : P (popMany n) := by
  refine h.operands (fun _ _ same => by rw [same]) fun m => ?_
  cases m.operands.popMany? n with
  | some found => exact h.bind (h.change fun _ => found.2) fun _ => h.value _
  | none => exact h.fault _

theorem expectObject (v : Value) (field : String) : P (expectObject v field) := by
  cases v with
  | object address => exact h.value _
  | _ => exact h.fault _

theorem expectClass (v : Value) (field : String) : P (expectClass v field) := by
  cases v with
  | classRef id => exact h.value _
  | _ => exact h.fault _

/-- What all instructions end with that leave a value. -/
theorem leaves {p : Action Value} (made : P p) : P (do Action.push (← p); return Flow.next) :=
  h.bind made fun v => h.bind (h.push v) fun _ => h.value _

end Composes

/-- The property also holds of what the heap, the classes and the console do with values. -/
structure Calculates (P : {α : Type} → Action α → Prop) : Prop extends Composes P where
  truthy : ∀ v, Sees P fun m => m.heap.truthy v
  arithmetic : ∀ op a b, Sees P fun m => m.heap.arithmetic op a b
  compare : ∀ op a b, Sees P fun m => m.heap.compare op a b
  load : ∀ container index, Sees P fun m => m.heap.load container index
  getField : ∀ address field, Sees P fun m => (m.heap.object address).get field
  getStatic : ∀ id field, Sees P fun m => m.classes.getStatic id field
  display : Sees P fun m => m.heap.display
  checkField : ∀ address field, P (checkField address field)
  setField : ∀ address field v,
    P (modifyHeap fun heap => heap.modifyObject address fun o => o.set field v)
  storing : ∀ container index v {next : Action Flow}, P next →
    P (do modifyHeap (← Action.lift ((← get).heap.storing container index v)); next)
  allocList : ∀ items, P (alloc fun heap => heap.allocList items)
  allocMap : ∀ contents, P (alloc fun heap => heap.allocMap contents)
  construct : ∀ className argc, P (step (.construct className argc))
  consult : ∀ {α : Type} {ask : Console → α × Console}, Console.Appends ask → P (consult ask)

namespace Calculates

variable {P : {α : Type} → Action α → Prop} (h : Calculates P)
include h

theorem print (values : List Value) : P (print values) :=
  h.display (fun _ _ same => by simp only [same]) fun _ =>
    h.bind (h.consult (Console.appends_print _)) fun _ => h.lift _

theorem readLine : P readLine := h.bind (h.consult Console.appends_readLine) fun _ => h.lift _

theorem readFile (arguments : List Value) : P (readFile arguments) := by
  cases arguments with
  | nil => exact h.fault _
  | cons first others =>
    refine h.display (fun _ _ same => by simp only [same]) fun _ => ?_
    exact h.bind (h.consult (Console.appends_readFile _)) fun _ => h.lift _

theorem system (name : String) (arguments : List Value) : P (system name arguments) := by
  -- One case for each member of the system object, and the last for a name that it does not have.
  unfold Action.system
  split
  · exact h.bind (h.print _) fun _ => h.value _
  · exact h.bind h.readLine fun _ => h.value _
  · exact h.value _
  · exact h.bind (h.readFile _) fun _ => h.value _
  · exact h.fault _

/-- Instructions that are made of these alone. -/
theorem step {i : Instruction} (calculates : i.calculates) : P (step i) := by
  -- For each instruction the primitives that it is made of, in their order.
  cases i with
  | push c => exact h.leaves (h.value _)
  | loadField field =>
    refine h.bind h.pop fun o => h.bind (h.expectObject o field) fun address => ?_
    refine h.bind (h.checkField address field) fun _ => ?_
    exact h.getField address field (fun _ _ same => by simp only [same]) fun _ => h.leaves (h.value _)
  | storeField field =>
    refine h.bind h.pop fun v => h.bind h.pop fun o => h.bind (h.expectObject o field) fun address => ?_
    refine h.bind (h.checkField address field) fun _ => h.bind (h.setField address field v) fun _ => ?_
    exact h.leaves (h.value v)
  | loadStatic field =>
    refine h.bind h.pop fun c => h.bind (h.expectClass c field) fun id => ?_
    exact h.getStatic id field (fun _ _ same => by simp only [same]) fun _ => h.leaves (h.lift _)
  | loadIndex =>
    refine h.bind h.pop fun index => h.bind h.pop fun container => ?_
    exact h.load container index (fun _ _ same => by simp only [same]) fun _ => h.leaves (h.lift _)
  | storeIndex =>
    refine h.bind h.pop fun v => h.bind h.pop fun index => h.bind h.pop fun container => ?_
    exact h.storing container index v (h.leaves (h.value v))
  | arithmetic op =>
    refine h.bind h.pop fun b => h.bind h.pop fun a => ?_
    refine h.arithmetic op a b (fun _ _ same => by simp only [same]) fun _ => h.bind (h.lift _) fun result => ?_
    cases result with
    | value v => exact h.leaves (h.value v)
    | newList items => exact h.leaves (h.allocList items)
  | compare op =>
    refine h.bind h.pop fun b => h.bind h.pop fun a => ?_
    refine h.compare op a b (fun _ _ same => by simp only [same]) fun _ => h.bind (h.lift _) fun holds => ?_
    exact h.leaves (h.value _)
  | and | or =>
    refine h.bind h.pop fun b => h.bind h.pop fun a => ?_
    exact h.truthy a (fun _ _ same => by simp only [same]) fun _ => h.leaves (h.value _)
  | not =>
    refine h.bind h.pop fun a => ?_
    exact h.truthy a (fun _ _ same => by simp only [same]) fun _ => h.leaves (h.value _)
  | negate => exact h.bind h.pop fun _ => h.leaves (h.lift _)
  | construct className argc => exact h.construct className argc
  | print argc =>
    refine h.bind (h.popArguments argc) fun values => h.bind h.pop fun _ => ?_
    exact h.bind (h.print values) fun _ => h.leaves (h.value _)
  | buildList count => exact h.bind (h.popMany count) fun _ => h.leaves (h.allocList _)
  | buildMap count =>
    exact h.bind (h.popMany (2 * count)) fun _ => h.bind (h.lift _) fun _ => h.leaves (h.allocMap _)
  | _ => cases calculates

end Calculates

end Action

end Monogram
