import Monogram.Proofs.Machine.References
import Monogram.Proofs.Machine.Stores

/-! # Static fields change where they are stored into

Nothing but a store into a static field changes loaded classes, and such a store changes one field of
one class.  So what is read from a static field stays the same until something is stored into it,
whatever else a run does.

* `KeepsClasses` — an action that leaves the loaded classes as they are.
* `KeepsClasses.step` — every instruction but one.
* `Machine.AssignsStatic` — the next cycle stores into a static field.
* `Passes.getStatic_kept` — until a run has stored into it, a static field is what it was.
-/

namespace Monogram

open Monogram.Action

variable {α γ : Type}

/-! ## Actions -/

/-- The action leaves the loaded classes as they are, whichever way it ends. -/
def KeepsClasses (a : Action α) : Prop := ∀ m, (reached (a m)).classes = m.classes

namespace KeepsClasses

theorem value (a : α) : KeepsClasses (pure a : Action α) := fun _ => rfl

theorem fault (f : Fault) : KeepsClasses (fault f : Action α) := fun _ => rfl

theorem bind {p : Action α} {q : α → Action γ} (first : KeepsClasses p)
    (others : ∀ a, KeepsClasses (q a)) : KeepsClasses (p >>= q) :=
  reached_bind (R := fun m m' => m'.classes = m.classes) (fun front back => back.trans front) first others

theorem look {q : Machine → Action α} (others : ∀ m, KeepsClasses (q m)) : KeepsClasses (get >>= q) :=
  fun m => others m m

theorem change {f : Machine → Machine} (same : ∀ m, (f m).classes = m.classes) :
    KeepsClasses (modify f : Action Unit) := same

theorem sees {β : Type} (f : Machine → β) : Sees KeepsClasses f := fun _ others => look others

theorem composes : Composes KeepsClasses where
  value := value
  fault := fault
  bind := bind
  operands := sees _
  change _ := change fun _ => rfl

/-! ### Heap, console and frames -/

theorem alloc (make : Heap → Value × Heap) : KeepsClasses (alloc make) := fun _ => rfl

theorem modifyHeap (f : Heap → Heap) : KeepsClasses (modifyHeap f) := change fun _ => rfl

theorem consult (ask : Console → α × Console) : KeepsClasses (consult ask) := fun _ => rfl

theorem construct (className : String) (argc : Nat) :
    KeepsClasses (step (.construct className argc)) := by
  refine (composes.popArguments argc).bind fun _ => look fun m => ?_
  dsimp only
  cases m.classes.byName? className with
  | some image => exact composes.leaves (alloc _)
  | none => exact fault _

theorem modifyFrame (f : Frame → Frame) : KeepsClasses (modifyFrame f) :=
  change fun m => by
    split <;> rfl

theorem pushFrame (frame : Frame) : KeepsClasses (pushFrame frame) := by
  intro m
  rw [pushFrame_apply]
  split <;> rfl

theorem raiseValue (v : Value) : KeepsClasses (raiseValue v) := by
  intro m
  cases found : findHandler m.frames with
  | none =>
    rw [raiseValue_of_none found]
    rfl
  | some caught =>
    obtain ⟨handler, frame, below⟩ := caught
    rw [raiseValue_of_handler found]
    rfl

theorem assign (name : String) (v : Value) : KeepsClasses (assign name v) :=
  change fun m => by
    split
    · split <;> rfl
    · rfl

theorem calculates : Calculates KeepsClasses where
  toComposes := composes
  truthy _ := sees _
  arithmetic _ _ _ := sees _
  compare _ _ _ := sees _
  load _ _ := sees _
  getField _ _ := sees _
  getStatic _ _ := sees _
  display := sees _
  checkField _ _ := look fun _ => composes.lift _
  setField _ _ _ := modifyHeap _
  storing _ _ _ _ next := look fun _ => (composes.lift _).bind fun _ => (modifyHeap _).bind fun _ => next
  allocList _ := alloc _
  allocMap _ := alloc _
  construct := construct
  consult _ := consult _

/-! ### Instructions -/

theorem call (method : String) (receiver : Value) (arguments : List Value) :
    KeepsClasses (call method receiver arguments) := by
  refine look fun m => ?_
  cases receiver with
  | object address | classRef id => exact (composes.lift _).bind fun _ => pushFrame _
  | system =>
    refine (calculates.system method arguments).bind fun outcome => ?_
    cases outcome with
    | value v => exact composes.push v
    | raised v => exact raiseValue v
  | _ => exact fault _

/-- Every instruction but a store into a static field. -/
theorem step {i : Instruction} (other : ∀ field, i ≠ .storeStatic field) : KeepsClasses (step i) := by
  cases i with
  | halt => exact value _
  | pop => exact composes.pop.bind fun _ => value _
  | loadSlot slot => exact look fun _ => composes.leaves (value _)
  | storeSlot slot => exact composes.peek.bind fun _ => bind (change fun _ => rfl) fun _ => value _
  | loadName name => exact composes.leaves (look fun _ => value _)
  | storeName name => exact composes.peek.bind fun v => (assign name v).bind fun _ => value _
  | storeStatic field => exact absurd rfl (other field)
  | jump target => exact (modifyFrame _).bind fun _ => value _
  | jumpIfFalse target =>
    refine composes.pop.bind fun condition => look fun m => ?_
    dsimp only
    cases m.heap.truthy condition with
    | true => exact value _
    | false => exact bind (modifyFrame _) fun _ => value _
  | call method argc =>
    refine (composes.popArguments argc).bind fun arguments => composes.pop.bind fun receiver => ?_
    exact (call method receiver arguments).bind fun _ => value _
  | giveBack =>
    refine composes.pop.bind fun v => bind (change fun _ => rfl) fun _ => look fun m => ?_
    dsimp only
    cases m.frames.isEmpty with
    | true => exact value _
    | false => exact composes.leaves (value v)
  | openHandler target => exact look fun _ => (modifyFrame _).bind fun _ => value _
  | closeHandler => exact (modifyFrame _).bind fun _ => value _
  | raise => exact composes.pop.bind fun v => (raiseValue v).bind fun _ => value _
  | _ => exact calculates.step rfl

end KeepsClasses

/-! ## Stores -/

namespace Names.Loaded

variable {β : Type} {names : Names} {r r' : Registry β}

/-- A store into a static field changes that field of that class only. -/
theorem getStatic_setStatic (loaded : names.Loaded r) {id target : ClassId} {field stored : String}
    {v : Value} (known : names.HasClass id) (owner : names.HasClass target)
    (apart : ¬ (target = id ∧ stored = field)) (set : r.setStatic target stored v = .ok r') :
    r'.getStatic id field = r.getStatic id field := by
  obtain ⟨name, numbered⟩ := known
  obtain ⟨name', numbered'⟩ := owner
  obtain ⟨c, owned, found, rfl, -⟩ := loaded.entry numbered
  obtain ⟨c', -, found', rfl, rfl⟩ := loaded.entry numbered'
  have there := loaded.numbers.loaded_eq found'
  simp only [Registry.setStatic, there, Except.map, Except.ok.injEq] at set
  subst set
  simp only [Registry.getStatic, Registry.loaded, Registry.loaded?, owned, Option.bind_some,
    Table.find?_insert]
  by_cases same : c'.image.name = c.image.name
  -- The same class has the same number, so another field has been stored into.
  · have one : c'.image.id = id := Option.some.inj ((same ▸ numbered').symm.trans numbered)
    have other : stored ≠ field := fun into => apart ⟨one, into⟩
    obtain rfl : c' = c := Option.some.inj (found'.symm.trans (same ▸ found))
    rw [if_pos rfl, found]
    simp only [Except.map, Table.find?_insert_of_ne _ other]
  · rw [if_neg same]

end Names.Loaded

/-- The next cycle stores into the static field of the class with this number. -/
def Machine.AssignsStatic (m : Machine) (id : ClassId) (field : String) : Prop :=
  m.due? = some (.storeStatic field) ∧ ∃ v rest, m.operands.items = v :: .classRef id :: rest

/-- A store into a static field takes a class and a value, and sets the field of the class. -/
theorem step_storeStatic {m m' : Machine} {frame : Frame} {below : List Frame} {rest : List Value}
    {field : String} {flow : Flow} (running : m.frames = frame :: below) (c v : Value)
    (operands : m.operands = ⟨v :: c :: rest⟩) (stepped : step (.storeStatic field) m = .ok flow m') :
    ∃ id, c = .classRef id ∧ m.classes.setStatic id field v = .ok m'.classes := by
  rw [step_operate rfl running (show m.operands = ⟨[c, v].reverse ++ rest⟩ from operands) rfl] at stepped
  cases c with
  | classRef id =>
    have stores : (Instruction.storeStatic field).operate [.classRef id, v] m.scene
        = match m.classes.setStatic id field v with
          | .ok classes => .done v { m.scene with classes }
          | .error f => .faulted f m.scene := by
      show Eval.storeStatic (.classRef id) field v m.scene = _
      simp only [Eval.storeStatic, Eval.bind_apply, Eval.look, Machine.scene, Machine.world]
      cases m.classes.setStatic id field v <;> rfl
    rw [stores] at stepped
    cases set : m.classes.setStatic id field v with
    | ok classes =>
      rw [set] at stepped
      cases stepped
      exact ⟨id, rfl, set⟩
    | error f =>
      rw [set] at stepped
      cases stepped
  | _ => cases stepped

theorem classes_of_closing {r : EStateM.Result Failure Machine Flow} {m' : Machine}
    (closed : closing r = .ok true m') : ∃ flow m₁, r = .ok flow m₁ ∧ m'.classes = m₁.classes := by
  cases r with
  | error f m₁ => cases closed
  | ok flow m₁ => cases flow <;> cases closed <;> exact ⟨_, _, rfl, rfl⟩

namespace Sound

variable {names : Names} {m m' : Machine} {history : List Activation} {id : ClassId} {field : String}

/-- A cycle leaves a static field as it is, unless it stores into it. -/
theorem getStatic_cycle (sound : Sound m history) (known : m.KnownTo names) (numbered : names.HasClass id)
    (unassigned : ¬ m.AssignsStatic id field) (cycled : Action.cycle m = .ok true m') :
    m'.classes.getStatic id field = m.classes.getStatic id field := by
  cases running : m.frames with
  | nil =>
    rw [cycle_idle running] at cycled
    cases cycled
  | cons frame below =>
    cases here : frame.code.instructions[frame.next]? with
    | none =>
      rw [cycle_end running here] at cycled
      cases cycled
      rfl
    | some i =>
      rcases cycle_cases running here with ⟨-, carried⟩ | ⟨limit, spent⟩
      · have due := Machine.due?_of_some running here fun limit last => by rw [cycled]; exact nofun
        obtain ⟨flow, m₁, stepped, same⟩ := classes_of_closing (carried.symm.trans cycled)
        rw [same]
        by_cases static : ∃ stored, i = .storeStatic stored
        -- The class on the stack is known to the names, so the store hits the field only if it is the one.
        · obtain ⟨stored, rfl⟩ := static
          obtain ⟨args, rest, operands, count⟩ := sound.takes running here
          obtain ⟨c, v, rfl⟩ := List.length_eq_two.1 count
          obtain ⟨target, rfl, set⟩ := step_storeStatic (m := fetched m frame below) rfl c v operands stepped
          have owner : names.HasClass target := known.operands (.classRef target) (by simp [operands])
          refine known.world.loaded.getStatic_setStatic numbered owner ?_ set
          rintro ⟨rfl, rfl⟩
          exact unassigned ⟨due, v, rest, congrArg Operands.items operands⟩
        · have kept := KeepsClasses.step (fun stored same => static ⟨stored, same⟩) (fetched m frame below)
          rw [stepped] at kept
          exact congrArg (Registry.getStatic · id field) kept
      · rw [spent] at cycled
        cases cycled

end Sound

/-! ## Runs -/

namespace Passes

variable {pieces : List Frame} {first : Machine} {id : ClassId} {field : String}

/-- In so many steps a run of pieces has stored nothing into the static field. -/
def Unassigned (pieces : List Frame) (first : Machine) (n : Nat) (id : ClassId) (field : String) : Prop :=
  ∀ k < n, ∀ later m history, after pieces first k = some (later, m, history) → ¬ m.AssignsStatic id field

/-- Until a run has stored into it, a static field of a class that has a name is what it was. -/
theorem getStatic_kept {names : Names} (rested : Rested first)
    (startable : ∀ piece ∈ pieces, piece.Startable) (known : first.KnownTo names)
    (mentions : ∀ piece ∈ pieces, piece.KnownTo names) (numbered : names.HasClass id) {n : Nat}
    (unassigned : Unassigned pieces first n id field) {later : List Frame} {m : Machine}
    {history : List Activation} (reached : after pieces first n = some (later, m, history)) :
    m.classes.getStatic id field = first.classes.getStatic id field := by
  -- a step is either a cycle, which is sound and knows its classes, or the start of the next piece
  induction n generalizing later m history with
  | zero =>
    cases reached
    rfl
  | succ n ih =>
    obtain ⟨⟨before, m₀, past⟩, earlier, next⟩ := Option.bind_eq_some_iff.1 reached
    have same := ih (fun k less => unassigned k (Nat.lt_succ_of_lt less)) earlier
    have passes := of_after earlier
    rcases advance_cases next with ⟨m', cycled, ends⟩ | ⟨piece, rest, m', rfl, -, pushed, ends⟩
    · cases ends
      have sound := (passes.sound rested startable).1
      have named := (passes.knownTo rested startable known mentions).1
      have still := unassigned n (Nat.lt_succ_self n) _ m₀ past earlier
      exact (sound.getStatic_cycle named numbered still cycled).trans same
    · cases ends
      have kept := KeepsClasses.pushFrame piece m₀
      rw [pushed] at kept
      exact (congrArg (Registry.getStatic · id field) kept).trans same

end Passes

end Monogram
