import Monogram.Proofs.Evaluation.Bodies
import Monogram.Proofs.Evaluation.Mapping
import Monogram.Proofs.Lowering.Slots
import Monogram.Proofs.Machine.Setting

/-! # Machines with other code and other globals

Nothing but fetching an instruction looks at code, and only four instructions look at globals.  Every
other one does the same on a machine all of whose code is another one and whose globals are others, and
leaves the globals alone.

* `Rewriting`, `Machine.rewritten` — the machine with other code and other globals.
* `Machine.AllCode` — a property of all code that a machine can come to.
* `Neutral` — an action that does the same on rewritten machines and leaves the globals as they are.
* `Neutral.step` — every instruction that neither has a slot nor looks up a name.
-/

namespace Monogram

open Monogram.Action

/-- What stands in place of the code and the globals of a machine. -/
structure Rewriting where
  code : Code → Code
  /-- The code of no method is that of no method. -/
  kept : code default = default
  slots : Array Value
  globals : Table Value

/-- The frame with other code. -/
def Frame.rewritten (f : Code → Code) (frame : Frame) : Frame := { frame with code := f frame.code }

/-- The machine with other code and other globals. -/
def Machine.rewritten (m : Machine) (σ : Rewriting) : Machine :=
  { m with
    classes := m.classes.mapBodies σ.code, heap := m.heap.mapBodies σ.code
    frames := m.frames.map (Frame.rewritten σ.code), slots := σ.slots, globals := σ.globals }

variable {α γ : Type}

/-- The result with a rewritten machine. -/
def Rewriting.result (σ : Rewriting) :
    EStateM.Result Failure Machine α → EStateM.Result Failure Machine α
  | .ok a m => .ok a (m.rewritten σ)
  | .error f m => .error f (m.rewritten σ)

/-- All code of classes, of classes of objects and of frames has the property. -/
structure Machine.AllCode (P : Code → Prop) (m : Machine) : Prop where
  world : m.world.All (ClassImage.All P)
  frames : ∀ frame ∈ m.frames, P frame.code

/-- The globals are the same, and there is no other code than before. -/
structure Untouched (m m' : Machine) : Prop where
  slots : m'.slots = m.slots
  globals : m'.globals = m.globals
  code : ∀ {P : Code → Prop}, m.AllCode P → m'.AllCode P

namespace Untouched

variable {m m₁ m₂ : Machine}

theorem of_same (slots : m₁.slots = m.slots) (globals : m₁.globals = m.globals)
    (classes : m₁.classes = m.classes) (heap : m₁.heap.objects = m.heap.objects)
    (frames : m₁.frames.map Frame.code <:+ m.frames.map Frame.code) : Untouched m m₁ := by
  refine ⟨slots, globals, fun {P} all => ⟨⟨?_, ?_⟩, fun frame member => ?_⟩⟩
  · show ∀ c ∈ m₁.classes.classes.values, _
    rw [classes]
    exact all.world.classes
  · show ∀ o ∈ m₁.heap.objects, _
    rw [heap]
    exact all.world.objects
  · obtain ⟨frame', member', same⟩ :=
      List.mem_map.1 (frames.subset (List.mem_map_of_mem (f := Frame.code) member))
    exact same ▸ all.frames frame' member'

theorem refl (m : Machine) : Untouched m m := of_same rfl rfl rfl rfl (List.suffix_refl _)

theorem trans (first : Untouched m m₁) (second : Untouched m₁ m₂) : Untouched m m₂ :=
  ⟨second.slots.trans first.slots, second.globals.trans first.globals,
    fun all => second.code (first.code all)⟩

end Untouched

/-- The action does the same on rewritten machines and leaves the globals as they are. -/
structure Neutral (a : Action α) : Prop where
  rewritten : ∀ (σ : Rewriting) (m : Machine), a (m.rewritten σ) = σ.result (a m)
  untouched : ∀ m : Machine, Untouched m (reached (a m))

namespace Neutral

theorem value (a : α) : Neutral (pure a : Action α) :=
  ⟨fun _ _ => rfl, Untouched.refl⟩

theorem fault (f : Fault) : Neutral (fault f : Action α) :=
  ⟨fun _ _ => rfl, Untouched.refl⟩

theorem bind {p : Action α} {q : α → Action γ} (first : Neutral p) (others : ∀ a, Neutral (q a)) :
    Neutral (p >>= q) := by
  constructor
  · intro σ m
    rw [bind_apply, bind_apply, first.rewritten]
    cases p m with
    | ok a m₁ => exact (others a).rewritten σ m₁
    | error f m₁ => rfl
  · exact reached_bind Untouched.trans first.untouched fun a => (others a).untouched

/-- What is looked at is the same. -/
theorem look {q : Machine → Action α} (same : ∀ (σ : Rewriting) m, q (m.rewritten σ) = q m)
    (others : ∀ m, Neutral (q m)) : Neutral (get >>= q) :=
  ⟨fun σ m => (congrFun (same σ m) _).trans ((others m).rewritten σ m), fun m => (others m).untouched m⟩

theorem change {f : Machine → Machine} (rewritten : ∀ σ m, f (m.rewritten σ) = (f m).rewritten σ)
    (untouched : ∀ m, Untouched m (f m)) : Neutral (modify f : Action Unit) :=
  ⟨fun σ m => congrArg (EStateM.Result.ok ()) (rewritten σ m), untouched⟩

theorem sees {β : Type} {f : Machine → β} (same : ∀ σ m, f (m.rewritten σ) = f m) : Sees Neutral f :=
  fun alike others => look (fun σ m => alike _ _ (same σ m)) others

theorem composes : Composes Neutral where
  value := value
  fault := fault
  bind := bind
  operands := sees fun _ _ => rfl
  change _ := change (fun _ _ => rfl) fun _ => .of_same rfl rfl rfl rfl (List.suffix_refl _)

/-- A change that may fail, with what follows it. -/
theorem attempt {p next : Action α} (change : Machine → Except Fault Machine)
    (eq : ∀ m, p m = match change m with | .ok m' => next m' | .error f => .error (.fault f) m)
    (rewritten : ∀ σ m, change (m.rewritten σ) = (change m).map (·.rewritten σ))
    (untouched : ∀ {m m'}, change m = .ok m' → Untouched m m') (others : Neutral next) : Neutral p := by
  constructor
  · intro σ m
    rw [eq, eq, rewritten]
    cases change m with
    | ok m' => exact others.rewritten σ m'
    | error f => rfl
  · intro m
    rw [eq]
    cases changed : change m with
    | ok m' => exact (untouched changed).trans (others.untouched m')
    | error f => exact .refl m

/-! ### The heap and the console -/

theorem allocList (items : Array Value) : Neutral (alloc fun heap => heap.allocList items) :=
  ⟨fun _ _ => rfl, fun _ => .of_same rfl rfl rfl rfl (List.suffix_refl _)⟩

theorem allocMap (contents : Dict) : Neutral (alloc fun heap => heap.allocMap contents) :=
  ⟨fun _ _ => rfl, fun _ => .of_same rfl rfl rfl rfl (List.suffix_refl _)⟩

theorem setField (address : Address) (field : String) (v : Value) :
    Neutral (modifyHeap fun heap => heap.modifyObject address fun o => o.set field v) := by
  refine change (fun σ m => ?_) fun m => ⟨rfl, rfl, fun {P} all => ⟨⟨all.world.classes, ?_⟩, all.frames⟩⟩
  · exact congrArg (fun heap => { m.rewritten σ with heap })
      (Heap.modifyObject_mapBodies σ.code m.heap address field v)
  · exact Array.forall_mem_modify address (Object.set · field v) (fun _ image => image) all.world.objects

/-- A store into a list or a map, with what follows it. -/
theorem storing (container index v : Value) {next : Action α} (others : Neutral next) :
    Neutral (do
      Action.modifyHeap (← Action.lift ((← get).heap.storing container index v))
      next) := by
  let stored (h : Heap) : Except Fault Heap := (h.storing container index v).map fun change => change h
  refine attempt (fun m => (stored m.heap).map fun heap => { m with heap }) (fun m => ?_)
    (fun σ m => ?_) (fun {m m'} changed => ?_) others
  · simp only [bind_apply, get_apply, stored]
    cases m.heap.storing container index v <;> rfl
  · have same : stored (m.rewritten σ).heap = _ := Heap.storing_mapBodies σ.code m.heap container index v
    simp only [same, stored]
    cases m.heap.storing container index v <;> rfl
  · obtain ⟨heap, found, rfl⟩ := Except.map_eq_ok changed
    obtain ⟨change, here, rfl⟩ := Except.map_eq_ok found
    exact .of_same rfl rfl rfl (Heap.objects_storing here m.heap) (List.suffix_refl _)

theorem consult (ask : Console → α × Console) : Neutral (consult ask) :=
  ⟨fun _ _ => rfl, fun _ => .of_same rfl rfl rfl rfl (List.suffix_refl _)⟩

/-! ### The frame that runs -/

theorem modifyFrame {f : Frame → Frame}
    (rewritten : ∀ (code : Code → Code) frame, f (frame.rewritten code) = (f frame).rewritten code)
    (code : ∀ frame, (f frame).code = frame.code) : Neutral (modifyFrame f) := by
  constructor
  · rintro σ ⟨limits, console, classes, heap, frames, operands, slots, globals, executed⟩
    cases frames with
    | nil => rfl
    | cons frame below =>
      exact congrArg (fun top => EStateM.Result.ok () (Machine.mk limits console
        (classes.mapBodies σ.code) (heap.mapBodies σ.code) (top :: below.map (Frame.rewritten σ.code))
        operands σ.slots σ.globals executed)) (rewritten σ.code frame)
  · rintro ⟨limits, console, classes, heap, frames, operands, slots, globals, executed⟩
    cases frames with
    | nil => exact .refl _
    | cons frame below =>
      refine .of_same rfl rfl rfl rfl ?_
      have same : (f frame).code :: below.map Frame.code = frame.code :: below.map Frame.code :=
        congrArg (· :: _) (code frame)
      exact ⟨[], same⟩

theorem jump (target : Nat) : Neutral (jump target) :=
  modifyFrame (fun _ _ => rfl) fun _ => rfl

theorem callerClass_rewritten (σ : Rewriting) (m : Machine) :
    (m.rewritten σ).callerClass = m.callerClass := by
  obtain ⟨limits, console, classes, heap, frames, operands, slots, globals, executed⟩ := m
  cases frames with
  | nil => rfl
  | cons frame below =>
    obtain ⟨code, next, this, handlers, kind⟩ := frame
    cases this with
    | none => rfl
    | some v =>
      cases v with
      | object address =>
        exact congrArg (fun o => some o.image.name) (Heap.object_mapBodies σ.kept heap address)
      | _ => rfl

theorem object_rewritten (σ : Rewriting) (m : Machine) (address : Address) :
    (m.rewritten σ).heap.object address = (m.heap.object address).mapBodies σ.code :=
  Heap.object_mapBodies σ.kept m.heap address

theorem display_rewritten (σ : Rewriting) (m : Machine) :
    (m.rewritten σ).heap.display = m.heap.display :=
  funext (Heap.display_mapBodies σ.kept m.heap)

theorem checkField (address : Address) (field : String) : Neutral (checkField address field) := by
  refine look (fun σ m => ?_) fun m => composes.lift _
  rw [callerClass_rewritten, object_rewritten]
  exact congrArg Action.lift (Registry.checkField_mapBodies m.classes _ field _)

/-! ### Raised values -/

theorem findHandler_rewritten (f : Code → Code) (frames : List Frame) :
    findHandler (frames.map (Frame.rewritten f)) = (findHandler frames).map fun (handler, frame, below) =>
      (handler, frame.rewritten f, below.map (Frame.rewritten f)) := by
  induction frames with
  | nil => rfl
  | cons frame below ih =>
    obtain ⟨code, next, this, handlers, kind⟩ := frame
    cases handlers with
    | nil => exact ih
    | cons handler others => rfl

theorem raiseValue (v : Value) : Neutral (raiseValue v) := by
  constructor
  · intro σ m
    have frames : (m.rewritten σ).frames = m.frames.map (Frame.rewritten σ.code) := rfl
    have found := findHandler_rewritten σ.code m.frames
    rw [← frames] at found
    cases here : findHandler m.frames with
    | none =>
      rw [here] at found
      rw [raiseValue_of_none here, raiseValue_of_none found, display_rewritten]
      rfl
    | some unwound =>
      obtain ⟨handler, frame, below⟩ := unwound
      rw [here] at found
      rw [raiseValue_of_handler here, raiseValue_of_handler found]
      rfl
  · intro m
    cases here : findHandler m.frames with
    | none =>
      rw [raiseValue_of_none here]
      exact .of_same rfl rfl rfl rfl List.nil_suffix
    | some unwound =>
      obtain ⟨handler, frame, below⟩ := unwound
      -- The frames above the handler are gone, and the others run what they have run before.
      have shorter := (Oblivious.suffix_of_findHandler here).map Prod.fst
      rw [List.map_cons, List.map_map, List.map_map] at shorter
      rw [raiseValue_of_handler here]
      exact .of_same rfl rfl rfl rfl shorter

/-! ### Classes and calls -/

/-- A store into a static field, with what follows it. -/
theorem setStatic (id : ClassId) (field : String) (v : Value) {next : Action α} (others : Neutral next) :
    Neutral (do
      let classes ← Action.lift ((← get).classes.setStatic id field v)
      modify fun m => { m with classes }
      next) := by
  refine attempt (fun m => (m.classes.setStatic id field v).map fun classes => { m with classes })
    (fun m => ?_) (fun σ m => ?_) (fun {m m'} changed => ?_) others
  · simp only [bind_apply, get_apply]
    cases m.classes.setStatic id field v <;> rfl
  · have same : (m.rewritten σ).classes.setStatic id field v = _ :=
      Registry.setStatic_mapBodies m.classes id field v
    rw [same]
    cases m.classes.setStatic id field v <;> rfl
  · obtain ⟨classes, stored, rfl⟩ := Except.map_eq_ok changed
    refine ⟨rfl, rfl, fun all => ⟨⟨?_, all.world.objects⟩, all.frames⟩⟩
    exact Registry.all_setStatic all.world.classes stored

theorem construct (className : String) (argc : Nat) : Neutral (step (.construct className argc)) := by
  refine (composes.popArguments argc).bind fun _ => ⟨fun σ m => ?_, fun m => ?_⟩
  · have found : (m.rewritten σ).classes.byName? className = _ :=
      Registry.byName?_mapBodies m.classes className
    simp only [bind_apply, get_apply, found]
    cases m.classes.byName? className with
    | none => rfl
    | some image =>
      have made := Heap.allocObject_mapBodies σ.code m.heap ⟨image, ∅⟩
      exact congrArg (fun made : Value × Heap => EStateM.Result.ok Flow.next
        { m.rewritten σ with heap := made.2, operands := m.operands.push made.1 }) made
  · simp only [bind_apply, get_apply]
    cases found : m.classes.byName? className with
    | none => exact .refl m
    | some image =>
      refine ⟨rfl, rfl, fun all => ⟨⟨all.world.classes, ?_⟩, all.frames⟩⟩
      exact Array.forall_mem_push all.world.objects (Registry.all_byName? all.world.classes found)

theorem calculates : Calculates Neutral where
  toComposes := composes
  truthy v := sees fun σ m => Heap.truthy_mapBodies σ.code m.heap v
  arithmetic op a b := sees fun σ m => Heap.arithmetic_mapBodies σ.code m.heap op a b
  compare op a b := sees fun σ m => Heap.compare_mapBodies σ.code m.heap op a b
  load container index := sees fun σ m => Heap.load_mapBodies σ.kept m.heap container index
  getField address field := sees fun σ m => by rw [object_rewritten]; rfl
  getStatic id field := sees fun _ m => Registry.getStatic_mapBodies m.classes id field
  display := sees display_rewritten
  checkField := checkField
  setField := setField
  storing container index v _ next := storing container index v next
  allocList := allocList
  allocMap := allocMap
  construct := construct
  consult _ := consult _

/-- A frame that starts with code that has been found. -/
theorem enter_rewritten (σ : Rewriting) (found : Except Fault Code) (kind : FrameKind)
    (this : Option Value) (m : Machine) :
    (do pushFrame (.start (← Action.lift (found.map σ.code)) kind this) : Action Unit) (m.rewritten σ)
      = σ.result ((do pushFrame (.start (← Action.lift found) kind this) : Action Unit) m) := by
  cases found with
  | error f => rfl
  | ok code =>
    show pushFrame (.start (σ.code code) kind this) (m.rewritten σ)
      = σ.result (pushFrame (.start code kind this) m)
    have depth : (m.rewritten σ).frames.length = m.frames.length := List.length_map ..
    rw [pushFrame_apply, pushFrame_apply, depth]
    by_cases full : m.limits.maxDepth ≤ m.frames.length
    · rw [if_pos full]
      exact if_pos full
    · rw [if_neg full]
      exact if_neg full

theorem enter_untouched {found : Except Fault Code} {m : Machine}
    (reaches : ∀ {P : Code → Prop} code, m.AllCode P → found = .ok code → P code) (kind : FrameKind)
    (this : Option Value) :
    Untouched m
      (reached ((do pushFrame (.start (← Action.lift found) kind this) : Action Unit) m)) := by
  cases found with
  | error f => exact .refl m
  | ok code =>
    show Untouched m (reached (pushFrame (.start code kind this) m))
    rw [pushFrame_apply]
    split
    · exact .refl m
    · refine ⟨rfl, rfl, fun all => ⟨⟨all.world.classes, all.world.objects⟩, ?_⟩⟩
      exact List.forall_mem_cons.2 ⟨reaches code all rfl, all.frames⟩

theorem call (method : String) (receiver : Value) (arguments : List Value) :
    Neutral (call method receiver arguments) := by
  cases receiver with
  | object address =>
    constructor
    · intro σ m
      have found := Registry.resolveMethod_mapBodies (f := σ.code) m.classes
        (m.heap.object address).image method m.callerClass
      have same := enter_rewritten σ
        (m.classes.resolveMethod (m.heap.object address).image method m.callerClass) .method
        (some (.object address)) m
      rw [← found, bind_apply, bind_apply] at same
      simp only [Action.call, bind_apply, get_apply, callerClass_rewritten, object_rewritten]
      exact same
    · intro m
      refine enter_untouched (fun code all found => ?_) .method _
      exact Registry.all_resolveMethod all.world.classes (all.world.object_methods address) found
  | classRef id =>
    constructor
    · intro σ m
      have found := Registry.resolveStatic_mapBodies (f := σ.code) m.classes id method
      have same := enter_rewritten σ (m.classes.resolveStatic id method) .staticMethod none m
      rw [← found] at same
      exact same
    · intro m
      refine enter_untouched (fun code all found => ?_) .staticMethod _
      exact Registry.all_resolveStatic all.world.classes found
  | system =>
    refine look (fun _ _ => rfl) fun m => (calculates.system method arguments).bind fun outcome => ?_
    cases outcome with
    | value v => exact composes.push v
    | raised v => exact raiseValue v
  | _ => exact look (fun _ _ => rfl) fun m => fault _

/-! ### Instructions -/

theorem giveBack : Neutral (Action.step .giveBack) := by
  refine composes.pop.bind fun v => Neutral.bind (change (fun σ m => ?_) fun m => ?_) fun _ => ?_
  · simp only [Machine.rewritten, List.map_tail]
  · refine .of_same rfl rfl rfl rfl ?_
    show m.frames.tail.map Frame.code <:+ _
    rw [List.map_tail]
    exact List.tail_suffix _
  · refine look (fun σ m => ?_) fun m => ?_
    · simp only [Machine.rewritten, List.isEmpty_map]
    · dsimp only
      cases m.frames.isEmpty with
      | true => exact value _
      | false => exact (composes.push v).bind fun _ => value _

/-- An instruction that neither has a slot nor looks up a name. -/
theorem step {i : Instruction} (slotless : i.slot? = none) (nameless : i.name? = none) :
    Neutral (Action.step i) := by
  cases i with
  | halt => exact value _
  | pop => exact composes.pop.bind fun _ => value _
  | loadSlot slot | storeSlot slot => cases slotless
  | loadName name | storeName name => cases nameless
  | storeStatic field =>
    refine composes.pop.bind fun v => composes.pop.bind fun c => ?_
    refine (composes.expectClass c field).bind fun id => ?_
    exact setStatic id field v (composes.leaves (value v))
  | jump target => exact (jump target).bind fun _ => value _
  | jumpIfFalse target =>
    refine composes.pop.bind fun condition => look (fun σ m => ?_) fun m => ?_
    · simp only [Machine.rewritten, Heap.truthy_mapBodies]
    · dsimp only
      cases m.heap.truthy condition with
      | true => exact value _
      | false => exact (jump target).bind fun _ => value _
  | call method argc =>
    refine (composes.popArguments argc).bind fun arguments => composes.pop.bind fun receiver => ?_
    exact (call method receiver arguments).bind fun _ => value _
  | giveBack => exact giveBack
  | openHandler target =>
    refine look (fun _ _ => rfl) fun m => Neutral.bind ?_ fun _ => value _
    exact modifyFrame (fun _ _ => rfl) fun _ => rfl
  | closeHandler =>
    refine Neutral.bind ?_ fun _ => value _
    exact modifyFrame (fun _ _ => rfl) fun _ => rfl
  | raise => exact composes.pop.bind fun v => (raiseValue v).bind fun _ => value _
  | _ => exact calculates.step rfl

end Neutral

end Monogram
