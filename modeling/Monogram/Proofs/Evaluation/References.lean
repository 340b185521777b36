import Mathlib.Data.List.Basic
import Monogram.Proofs.Classes.Loaded
import Monogram.Proofs.Evaluation.Tame

/-! # References to classes

A value that refers to a class does so by number.  New numbers come from the code alone, so if every
number in a world is that of a class that has a name, an operation on values that refer to such
classes leads to a world and to a value of the same kind.

* `Value.KnownTo`, `World.KnownTo` — every number of a class is that of a class with a name.
* `Eval.Knows` — an operation keeps that up, whichever way it ends.
* `Instruction.knows_operate` — so do the plain instructions.
-/

namespace Monogram

variable {β α γ : Type} {names names' : Names}

/-- If the value refers to a class, then to one that has a name. -/
def Value.KnownTo (names : Names) : Value → Prop
  | .classRef id => names.HasClass id
  | _ => True

/-- What the heap contains refers to classes that have a name. -/
structure Heap.KnownTo (names : Names) (h : Heap β) : Prop where
  lists : ∀ items ∈ h.lists, ∀ v ∈ items, v.KnownTo names
  maps : ∀ contents ∈ h.maps, ∀ entry ∈ contents.entries,
    entry.1.KnownTo names ∧ entry.2.KnownTo names
  objects : ∀ o ∈ h.objects, ∀ v ∈ o.fields.values, v.KnownTo names

/-- All values of the world refer to classes that have a name, and these are loaded. -/
structure World.KnownTo (names : Names) (w : World β) : Prop where
  heap : w.heap.KnownTo names
  slots : ∀ v ∈ w.slots, v.KnownTo names
  globals : ∀ v ∈ w.globals.values, v.KnownTo names
  statics : ∀ c ∈ w.classes.classes.values, ∀ v ∈ c.statics.values, v.KnownTo names
  loaded : names.Loaded w.classes

/-- The same holds of what `this` stands for. -/
structure Scene.KnownTo (names : Names) (scene : Scene β) : Prop extends
    scene.toWorld.KnownTo names where
  this : ∀ v ∈ scene.this, v.KnownTo names

/-! ## Values -/

namespace Value.KnownTo

theorem mono (more : ∀ id, names.HasClass id → names'.HasClass id) {v : Value}
    (known : v.KnownTo names) : v.KnownTo names' := by
  cases v with
  | classRef id => exact more id known
  | _ => trivial

theorem zero : Value.zero.KnownTo names := trivial

/-- What is not found is zero. -/
theorem getD {found : Option Value} (known : ∀ v ∈ found, v.KnownTo names) :
    (found.getD .zero).KnownTo names := by
  cases found with
  | none => exact zero
  | some v => exact known v rfl

theorem find? {t : Table Value} (known : ∀ v ∈ t.values, v.KnownTo names) (name : String) :
    ∀ v ∈ t.find? name, v.KnownTo names :=
  fun v found => known v (Table.mem_values_of_find? found)

theorem insert {t : Table Value} (known : ∀ v ∈ t.values, v.KnownTo names) {name : String} {v : Value}
    (new : v.KnownTo names) : ∀ other ∈ (t.insert name v).values, other.KnownTo names := by
  intro other member
  rcases Table.mem_values_insert member with rfl | old
  · exact new
  · exact known other old

end Value.KnownTo

namespace Console

/-- A line of input is a number or a string. -/
theorem knownTo_bytesValue {line : ByteArray} {v : Value} (read : bytesValue line = .ok v) :
    v.KnownTo names := by
  unfold bytesValue at read
  split at read
  · cases read
  · split at read <;> cases read
    unfold lineValue
    dsimp only
    split <;> trivial

theorem knownTo_readLine {c : Console} {v : Value} (read : c.readLine.1 = .ok v) :
    v.KnownTo names := by
  rcases c.readLine_answer with ⟨line, answer⟩ | ⟨problem, answer⟩
  · exact knownTo_bytesValue (answer ▸ read)
  · cases answer ▸ read

/-- A file gives a string. -/
theorem knownTo_readFile {c : Console} {path : String} {v : Value}
    (read : (c.readFile path).1 = .ok v) : v.KnownTo names := by
  rcases c.readFile_answer path with ⟨text, answer⟩ | ⟨problem, answer⟩
  · cases answer ▸ read
    trivial
  · cases answer ▸ read

end Console

/-! ## The heap -/

namespace Dict

/-- Keys and values refer to classes that have a name. -/
def KnownTo (names : Names) (d : Dict) : Prop :=
  ∀ entry ∈ d.entries, entry.1.KnownTo names ∧ entry.2.KnownTo names

theorem KnownTo.insertKey {d : Dict} (known : d.KnownTo names) (place : Key) {key v : Value}
    (first : key.KnownTo names) (second : v.KnownTo names) : (d.insertKey place key v).KnownTo names := by
  unfold Dict.insertKey
  split
  · exact Array.forall_mem_modify _ (fun entry => (entry.1, v)) (fun entry old => ⟨old.1, second⟩) known
  · exact Array.forall_mem_push known ⟨first, second⟩

theorem KnownTo.ofEntries {entries : List (Value × Value)} {d : Dict}
    (known : ∀ entry ∈ entries, entry.1.KnownTo names ∧ entry.2.KnownTo names)
    (built : Dict.ofEntries entries = .ok d) : d.KnownTo names := by
  have folded : ∀ (entries : List (Value × Value)) (before : Dict), before.KnownTo names →
      (∀ entry ∈ entries, entry.1.KnownTo names ∧ entry.2.KnownTo names) →
      entries.foldlM (fun d entry => d.insert entry.1 entry.2) before = .ok d → d.KnownTo names := by
    intro entries
    induction entries with
    | nil =>
      intro before old _ built
      cases built
      exact old
    | cons entry rest ih =>
      intro before old known built
      obtain ⟨first, others⟩ := List.forall_mem_cons.1 known
      obtain ⟨next, inserted, built⟩ := Except.bind_eq_ok built
      obtain ⟨place, -, rfl⟩ := Except.map_eq_ok inserted
      exact ih _ (old.insertKey place first.1 first.2) others built
  exact folded entries .empty (fun entry member => by simp [Dict.empty] at member) known built

end Dict

namespace Heap.KnownTo

variable {h : Heap β}

theorem list (known : h.KnownTo names) (address : Address) : ∀ v ∈ h.list address, v.KnownTo names := by
  intro v member
  unfold Heap.list at member
  cases found : h.lists[address]? with
  | none => simp [found] at member
  | some items =>
    rw [found] at member
    exact known.lists items (Array.mem_of_getElem? found) v member

theorem map (known : h.KnownTo names) (address : Address) : (h.map address).KnownTo names := by
  unfold Heap.map
  cases found : h.maps[address]? with
  | none => exact fun entry member => by simp [Dict.empty] at member
  | some contents => exact known.maps contents (Array.mem_of_getElem? found)

theorem object [Inhabited β] (known : h.KnownTo names) (address : Address) (field : String) :
    ((h.object address).get field).KnownTo names := by
  unfold Heap.object
  cases found : h.objects[address]? with
  | none => exact Value.KnownTo.zero
  | some o => exact .getD (.find? (known.objects o (Array.mem_of_getElem? found)) field)

theorem load [Inhabited β] (known : h.KnownTo names) {container index v : Value}
    (found : h.load container index = .ok v) : v.KnownTo names := by
  cases container with
  | list address =>
    obtain ⟨place, -, rest⟩ := Except.bind_eq_ok found
    cases rest
    cases element : (h.list address)[place]? with
    | none => trivial
    | some v => exact known.list address v (Array.mem_of_getElem? element)
  | map address =>
    obtain ⟨value, looked, rest⟩ := Except.bind_eq_ok found
    obtain ⟨key, -, rfl⟩ := Except.map_eq_ok looked
    cases value : (h.map address).getKey? key with
    | none =>
      rw [value] at rest
      cases rest
    | some w =>
      rw [value] at rest
      cases rest
      obtain ⟨place, -, inside⟩ := Option.bind_eq_some_iff.1 value
      obtain ⟨entry, element, rfl⟩ := Option.map_eq_some_iff.1 inside
      exact (known.map address entry (Array.mem_of_getElem? element)).2
  | _ => cases found

theorem modifyList (known : h.KnownTo names) (address : Address) (change : Array Value → Array Value)
    (changed : ∀ items, (∀ v ∈ items, v.KnownTo names) → ∀ v ∈ change items, v.KnownTo names) :
    (h.modifyList address change).KnownTo names :=
  ⟨Array.forall_mem_modify address change changed known.lists, known.maps, known.objects⟩

theorem modifyMap (known : h.KnownTo names) (address : Address) (change : Dict → Dict)
    (changed : ∀ contents, contents.KnownTo names → (change contents).KnownTo names) :
    (h.modifyMap address change).KnownTo names :=
  ⟨known.lists, Array.forall_mem_modify address change changed known.maps, known.objects⟩

theorem storing (known : h.KnownTo names) {container index v : Value} {change : Heap β → Heap β}
    (first : index.KnownTo names) (second : v.KnownTo names)
    (stored : h.storing container index v = .ok change) : (change h).KnownTo names := by
  cases container with
  | list address =>
    obtain ⟨place, -, rest⟩ := Except.bind_eq_ok stored
    cases rest
    refine known.modifyList address _ fun items old w member => ?_
    rcases Array.mem_or_eq_of_mem_setIfInBounds member with inside | rfl
    · exact old w inside
    · exact second
  | map address =>
    obtain ⟨place, -, rest⟩ := Except.bind_eq_ok stored
    cases rest
    exact known.modifyMap address _ fun contents old => old.insertKey place first second
  | _ => cases stored

theorem storeField (known : h.KnownTo names) (address : Address) (field : String) {v : Value}
    (new : v.KnownTo names) : (h.modifyObject address fun o => o.set field v).KnownTo names := by
  have changed : ∀ o : Object β, (∀ w ∈ o.fields.values, w.KnownTo names) →
      ∀ w ∈ (o.set field v).fields.values, w.KnownTo names := fun o old => .insert old new
  exact ⟨known.lists, known.maps, Array.forall_mem_modify address _ changed known.objects⟩

theorem allocList (known : h.KnownTo names) {items : Array Value}
    (new : ∀ v ∈ items, v.KnownTo names) : (h.allocList items).2.KnownTo names :=
  ⟨Array.forall_mem_push known.lists new, known.maps, known.objects⟩

theorem allocMap (known : h.KnownTo names) {contents : Dict} (new : contents.KnownTo names) :
    (h.allocMap contents).2.KnownTo names :=
  ⟨known.lists, Array.forall_mem_push known.maps new, known.objects⟩

theorem allocObject (known : h.KnownTo names) (image : ClassImage β) :
    (h.allocObject ⟨image, ∅⟩).2.KnownTo names :=
  ⟨known.lists, known.maps, Array.forall_mem_push known.objects fun _ => nofun⟩

end Heap.KnownTo

/-- More names leave the references as they are. -/
theorem Heap.KnownTo.mono {h : Heap β} (known : h.KnownTo names)
    (more : ∀ id, names.HasClass id → names'.HasClass id) : h.KnownTo names' where
  lists items member v inside := (known.lists items member v inside).mono more
  maps contents member entry inside :=
    (known.maps contents member entry inside).imp (.mono more) (.mono more)
  objects o member v inside := (known.objects o member v inside).mono more

/-! ## Scenes -/

namespace Scene.KnownTo

variable {scene : Scene β}

theorem withHeap (known : scene.KnownTo names) {heap : Heap β} (new : heap.KnownTo names) :
    Scene.KnownTo names { scene with heap } :=
  ⟨⟨new, known.slots, known.globals, known.statics, known.loaded⟩, known.this⟩

theorem withConsole (known : scene.KnownTo names) (console : Console) :
    Scene.KnownTo names { scene with console } :=
  ⟨⟨known.heap, known.slots, known.globals, known.statics, known.loaded⟩, known.this⟩

/-- A store into a static field changes the value of one class. -/
theorem withStatic (known : scene.KnownTo names) {id : ClassId} {field : String} {v : Value}
    (new : v.KnownTo names) {classes : Registry β}
    (stored : scene.classes.setStatic id field v = .ok classes) :
    Scene.KnownTo names { scene with classes } := by
  refine ⟨⟨known.heap, known.slots, known.globals, ?_, known.loaded.setStatic stored⟩, known.this⟩
  obtain ⟨c, found, rfl⟩ := Except.map_eq_ok stored
  intro c' member
  rcases Table.mem_values_insert member with rfl | old
  · refine Value.KnownTo.insert ?_ new
    exact known.statics c (Registry.mem_values_of_loaded found)
  · exact known.statics c' old

theorem static (known : scene.KnownTo names) {id : ClassId} {field : String} {v : Value}
    (found : scene.classes.getStatic id field = .ok v) : v.KnownTo names := by
  obtain ⟨c, loaded, rfl⟩ := Except.map_eq_ok found
  exact .getD (.find? (known.statics c (Registry.mem_values_of_loaded loaded)) field)

theorem slot (known : scene.KnownTo names) (slot : Nat) :
    (scene.slots.getD slot .zero).KnownTo names := by
  rw [Array.getD_eq_getD_getElem?]
  exact .getD fun v found => known.slots v (Array.mem_of_getElem? found)

theorem withSlot (known : scene.KnownTo names) (slot missing : Nat) {v : Value}
    (new : v.KnownTo names) : Scene.KnownTo names
      { scene with
        slots := (scene.slots ++ Array.replicate missing Value.zero).setIfInBounds slot v } := by
  refine ⟨⟨known.heap, ?_, known.globals, known.statics, known.loaded⟩, known.this⟩
  intro w member
  rcases Array.mem_or_eq_of_mem_setIfInBounds member with inside | rfl
  · rcases Array.mem_append.1 inside with old | added
    · exact known.slots w old
    · rw [(Array.mem_replicate.1 added).2]
      exact Value.KnownTo.zero
  · exact new

end Scene.KnownTo

/-- An evaluation has ended in such a scene, with what has the property or with such a value. -/
def Ending.KnownTo (names : Names) (good : α → Prop) : Ending β α → Prop
  | .done a scene => good a ∧ scene.KnownTo names
  | .raised v scene => v.KnownTo names ∧ scene.KnownTo names
  | .faulted _ scene => scene.KnownTo names
  | .unfinished => True

namespace Eval

/-- The evaluation leads from such a scene to such an ending. -/
def Knows (names : Names) (good : α → Prop) (p : Eval β α) : Prop :=
  ∀ scene, scene.KnownTo names → (p scene).KnownTo names good

variable {good : α → Prop} {good' : γ → Prop}

theorem Knows.pure {a : α} (h : good a) : Knows names good (pure a : Eval β α) :=
  fun _ known => ⟨h, known⟩

theorem Knows.look : Knows names (Scene.KnownTo names) (look : Eval β (Scene β)) :=
  fun _ known => ⟨known, known⟩

theorem Knows.fault (f : Fault) : Knows names good (fault f : Eval β α) := fun _ known => known

theorem Knows.lift {result : Except Fault α} (h : ∀ a, result = .ok a → good a) :
    Knows names good (lift result : Eval β α) := by
  cases result with
  | ok a => exact Knows.pure (h a rfl)
  | error f => exact Knows.fault f

theorem Knows.bind {p : Eval β α} {q : α → Eval β γ} (first : Knows names good p)
    (second : ∀ a, good a → Knows names good' (q a)) : Knows names good' (p >>= q) := by
  intro scene known
  have ending := first scene known
  rw [bind_apply]
  cases h : p scene with
  | done a scene =>
    rw [h] at ending
    exact second a ending.1 scene ending.2
  | raised v scene => rw [h] at ending; exact ending
  | faulted f scene => rw [h] at ending; exact ending
  | unfinished => trivial

/-- Behind an answer of the console. -/
theorem Knows.consult {ask : Console → α × Console} {q : α → Eval β γ}
    (second : ∀ c, Knows names good' (q (ask c).1)) : Knows names good' (Eval.consult ask >>= q) :=
  fun scene known => second scene.console _ (known.withConsole _)

/-- A change of the scene, and then a value. -/
theorem Knows.alter_pure {change : Scene β → Scene β} {a : α}
    (changed : ∀ scene, scene.KnownTo names → (change scene).KnownTo names) (h : good a) :
    Knows names good (do Eval.alter change; return a) :=
  fun scene known => ⟨h, changed scene known⟩

theorem knows_writeSlot (slot : Nat) {v : Value} (new : v.KnownTo names) :
    Knows names (Value.KnownTo names) (writeSlot slot v : Eval β Value) :=
  .alter_pure (fun scene known => known.withSlot slot (slot + 1 - scene.slots.size) new) new

theorem knows_readName (name : String) :
    Knows names (Value.KnownTo names) (readName name : Eval β Value) := by
  refine Knows.look.bind fun scene known => Knows.pure (.getD fun v found => ?_)
  have global := Value.KnownTo.find? known.globals name v
  split at found
  · rcases Option.or_eq_some_iff.1 found with own | ⟨-, other⟩
    · exact known.this v own
    · exact global other
  · exact global found

theorem knows_writeName (name : String) {v : Value} (new : v.KnownTo names) :
    Knows names (Value.KnownTo names) (writeName name v : Eval β Value) := by
  refine .alter_pure (fun scene known => ?_) new
  split
  · exact ⟨known.toKnownTo, fun w own => Option.some.inj own ▸ new⟩
  · exact ⟨⟨known.heap, known.slots, .insert known.globals new, known.statics, known.loaded⟩, known.this⟩

theorem knows_arithmetic (op : Arithmetic) (a b : Value) :
    Knows names (Value.KnownTo names) (arithmetic op a b : Eval β Value) := by
  refine Knows.look.bind fun scene known => ?_
  have made : ∀ result, scene.heap.arithmetic op a b = .ok result →
      (∀ v, result = .value v → v.KnownTo names)
        ∧ ∀ items, result = .newList items → ∀ v ∈ items, v.KnownTo names := by
    intro result computed
    unfold Heap.arithmetic at computed
    split at computed
    · cases computed
      exact ⟨fun v same => by cases same; trivial, fun _ => nofun⟩
    · cases computed
      refine ⟨fun _ => nofun, fun items same v member => ?_⟩
      cases same
      rcases Array.mem_append.1 member with left | right
      · exact known.heap.list _ v left
      · exact known.heap.list _ v right
    · split at computed
      · obtain ⟨x, -, rfl⟩ := Except.map_eq_ok computed
        exact ⟨fun v same => by cases same; trivial, fun _ => nofun⟩
      · cases computed
  refine (Knows.lift made).bind fun result made => ?_
  cases result with
  | value v => exact .pure (made.1 v rfl)
  | newList items =>
    exact Knows.look.bind fun scene known =>
      .alter_pure (fun _ later => later.withHeap (known.heap.allocList (made.2 items rfl))) trivial

theorem knows_choose (op : LogicalOp) {a b : Value} (first : a.KnownTo names)
    (second : b.KnownTo names) : Knows names (Value.KnownTo names) (choose op a b : Eval β Value) := by
  refine Knows.look.bind fun scene known => ?_
  cases op <;> refine .pure ?_ <;> split <;> assumption

theorem knows_newList {items : List Value} (new : ∀ v ∈ items, v.KnownTo names) :
    Knows names (Value.KnownTo names) (newList items : Eval β Value) :=
  Knows.look.bind fun _ known =>
    .alter_pure (fun _ later => later.withHeap
      (known.heap.allocList fun v member => new v (List.mem_toArray.1 member))) trivial

theorem knows_newMap {entries : List (Value × Value)}
    (new : ∀ entry ∈ entries, entry.1.KnownTo names ∧ entry.2.KnownTo names) :
    Knows names (Value.KnownTo names) (newMap entries : Eval β Value) :=
  (Knows.lift fun _ built => Dict.KnownTo.ofEntries new built).bind fun _ made =>
    Knows.look.bind fun _ known =>
      .alter_pure (fun _ later => later.withHeap (known.heap.allocMap made)) trivial

theorem knows_storeIndex (container : Value) {index v : Value} (first : index.KnownTo names)
    (second : v.KnownTo names) :
    Knows names (Value.KnownTo names) (storeIndex container index v : Eval β Value) := by
  intro scene known
  simp only [storeIndex, look, bind_apply]
  cases stored : scene.heap.storing container index v with
  | error e => exact known
  | ok change => exact ⟨second, known.withHeap (known.heap.storing first second stored)⟩

theorem knows_loadStatic (c : Value) (field : String) :
    Knows names (Value.KnownTo names) (loadStatic c field : Eval β Value) := by
  cases c with
  | classRef id => exact Knows.look.bind fun scene known => Knows.lift fun _ found => known.static found
  | _ => exact Knows.fault _

theorem knows_storeStatic (c : Value) (field : String) {v : Value} (new : v.KnownTo names) :
    Knows names (Value.KnownTo names) (storeStatic c field v : Eval β Value) := by
  intro scene known
  cases c with
  | classRef id =>
    simp only [storeStatic, look, bind_apply]
    cases stored : scene.classes.setStatic id field v with
    | error e => exact known
    | ok classes => exact ⟨new, known.withStatic new stored⟩
  | _ => exact known

theorem knows_construct (className : String) :
    Knows names (Value.KnownTo names) (construct className : Eval β Value) := by
  refine Knows.look.bind fun scene known => ?_
  cases scene.classes.byName? className with
  | some image =>
    exact Knows.look.bind fun _ known =>
      .alter_pure (fun _ later => later.withHeap (known.heap.allocObject image)) trivial
  | none => exact Knows.fault _

variable [Inhabited β]

theorem knows_loadField (o : Value) (field : String) :
    Knows names (Value.KnownTo names) (loadField o field : Eval β Value) := by
  cases o with
  | object address =>
    exact Knows.look.bind fun scene known =>
      (Knows.lift fun _ _ => trivial).bind fun _ _ =>
        .pure (known.heap.object address field)
  | _ => exact Knows.fault _

theorem knows_storeField (o : Value) (field : String) {v : Value} (new : v.KnownTo names) :
    Knows names (Value.KnownTo names) (storeField o field v : Eval β Value) := by
  cases o with
  | object address =>
    exact Knows.look.bind fun _ _ =>
      (Knows.lift fun _ _ => trivial).bind fun _ _ =>
        .alter_pure (fun _ known => known.withHeap (known.heap.storeField address field new)) new
  | _ => exact Knows.fault _

theorem knows_print (values : List Value) :
    Knows names (Value.KnownTo names) (print values : Eval β Value) :=
  Knows.look.bind fun _ _ => .consult fun _ =>
    (Knows.lift fun _ _ => trivial).bind fun _ _ => .pure trivial

/-- The system object gives no class, and raises none. -/
theorem knows_system (name : String) (arguments : List Value) :
    Knows names (Value.KnownTo names) (system name arguments : Eval β Value) := by
  unfold system
  split
  · exact knows_print arguments
  · exact .consult fun _ => .lift fun _ => Console.knownTo_readLine
  · exact fun _ known => ⟨trivial, known⟩
  · cases arguments with
    | nil => exact Knows.fault _
    | cons first others =>
      exact Knows.look.bind fun _ _ => .consult fun _ => .lift fun _ => Console.knownTo_readFile
  · exact Knows.fault _

/-- A call that leads to no body keeps the references up, and does not fail for want of a class. -/
theorem knows_callee {scene : Scene β} (known : scene.KnownTo names) {method : String}
    {receiver : Value} (named : receiver.KnownTo names) {arguments : List Value} {e : Ending β Value}
    (ended : callee method receiver arguments scene = .ending e) :
    e.KnownTo names (Value.KnownTo names) ∧ ∀ id after, e ≠ .faulted (.unknownClassId id) after := by
  cases receiver with
  | object address =>
    simp only [callee] at ended
    split at ended
    · cases ended
    · next found =>
      cases ended
      refine ⟨known, fun id after same => ?_⟩
      cases same
      exact scene.classes.among_resolveMethod _ _ _ _ found
  | classRef id =>
    simp only [callee] at ended
    split at ended
    · cases ended
    · next found =>
      cases ended
      refine ⟨known, fun id' after same => ?_⟩
      cases same
      obtain ⟨c, loaded, -⟩ := known.loaded.loaded_eq named
      exact Registry.among_resolveStatic_of_loaded loaded method _ found
  | system =>
    cases ended
    refine ⟨knows_system method arguments scene known, fun id after same => ?_⟩
    by_cases quiet : method = "t"
    · subst quiet
      cases same
    · have ends := ends_system quiet arguments scene
      rw [same] at ends
      exact ends
  | _ =>
    cases ended
    exact ⟨known, fun id after same => by cases same⟩

end Eval

/-! ## Instructions -/

namespace Instruction

/-- If the instruction mentions a class, then one that has a name. -/
def KnownTo (names : Names) : Instruction → Prop
  | .push c => (Value.ofConstant c).KnownTo names
  | _ => True

variable [Inhabited β]

theorem pairs_knownTo : ∀ {items : List Value}, (∀ v ∈ items, v.KnownTo names) →
    ∀ entry ∈ Action.step.pairs items, entry.1.KnownTo names ∧ entry.2.KnownTo names
  | [], _, _, member | [_], _, _, member => by simp [Action.step.pairs] at member
  | a :: b :: rest, known, entry, member => by
    simp only [List.forall_mem_cons] at known
    rcases List.mem_cons.1 member with rfl | member
    · exact ⟨known.1, known.2.1⟩
    · exact pairs_knownTo known.2.2 entry member

/-- A plain instruction keeps the references up. -/
theorem knows_operate {i : Instruction} (mentions : i.KnownTo names) {args : List Value}
    (known : ∀ v ∈ args, v.KnownTo names) (plain : i.isPlain) (count : args.length = i.pops) :
    Eval.Knows names (Value.KnownTo names) (i.operate args : Eval β Value) := by
  open Eval in
  cases i with
  | push c =>
    obtain rfl := List.length_eq_zero_iff.1 count
    exact Knows.pure mentions
  | loadSlot slot =>
    obtain rfl := List.length_eq_zero_iff.1 count
    exact Knows.look.bind fun _ known => .pure (known.slot slot)
  | loadName name =>
    obtain rfl := List.length_eq_zero_iff.1 count
    exact knows_readName name
  | storeSlot slot =>
    obtain ⟨v, rfl⟩ := List.length_eq_one_iff.1 count
    exact knows_writeSlot slot (known v (by simp))
  | storeName name =>
    obtain ⟨v, rfl⟩ := List.length_eq_one_iff.1 count
    exact knows_writeName name (known v (by simp))
  | loadField field =>
    obtain ⟨o, rfl⟩ := List.length_eq_one_iff.1 count
    exact knows_loadField o field
  | storeField field =>
    obtain ⟨o, v, rfl⟩ := List.length_eq_two.1 count
    exact knows_storeField o field (known v (by simp))
  | loadStatic field =>
    obtain ⟨c, rfl⟩ := List.length_eq_one_iff.1 count
    exact knows_loadStatic c field
  | storeStatic field =>
    obtain ⟨c, v, rfl⟩ := List.length_eq_two.1 count
    exact knows_storeStatic c field (known v (by simp))
  | loadIndex =>
    obtain ⟨container, index, rfl⟩ := List.length_eq_two.1 count
    exact Knows.look.bind fun _ known => Knows.lift fun _ found => known.heap.load found
  | storeIndex =>
    obtain ⟨container, index, v, rfl⟩ := List.length_eq_three.1 count
    exact knows_storeIndex container (known index (by simp)) (known v (by simp))
  | arithmetic op =>
    obtain ⟨a, b, rfl⟩ := List.length_eq_two.1 count
    exact knows_arithmetic op a b
  | compare op =>
    obtain ⟨a, b, rfl⟩ := List.length_eq_two.1 count
    exact Knows.look.bind fun _ _ =>
      (Knows.lift fun _ _ => trivial).bind fun _ _ => .pure trivial
  | and =>
    obtain ⟨a, b, rfl⟩ := List.length_eq_two.1 count
    exact knows_choose .and (known a (by simp)) (known b (by simp))
  | or =>
    obtain ⟨a, b, rfl⟩ := List.length_eq_two.1 count
    exact knows_choose .or (known a (by simp)) (known b (by simp))
  | not =>
    obtain ⟨a, rfl⟩ := List.length_eq_one_iff.1 count
    exact fun _ known => ⟨trivial, known⟩
  | negate =>
    obtain ⟨a, rfl⟩ := List.length_eq_one_iff.1 count
    refine Knows.lift fun v negated => ?_
    unfold Heap.negate at negated
    split at negated <;> cases negated
    trivial
  | construct className argc => exact knows_construct className
  | print argc =>
    cases args with
    | nil => cases count
    | cons receiver values => exact knows_print values
  | buildList n => exact knows_newList known
  | buildMap n => exact knows_newMap (pairs_knownTo known)
  | halt | pop | jump _ | jumpIfFalse _ | call _ _ | giveBack | openHandler _ | closeHandler
  | raise => cases plain

/-- A plain instruction does not fail for want of a class. -/
theorem operate_resolves {i : Instruction} {args : List Value} (known : ∀ v ∈ args, v.KnownTo names)
    (plain : i.isPlain) (count : args.length = i.pops) {scene after : Scene β}
    (loaded : names.Loaded scene.classes) {id : ClassId} :
    (i.operate args : Eval β Value) scene ≠ .faulted (.unknownClassId id) after := by
  intro failed
  by_cases static : i.usesStatic
  · cases i with
    | loadStatic field =>
      obtain ⟨c, rfl⟩ := List.length_eq_one_iff.1 count
      cases c with
      | classRef id =>
        obtain ⟨c, found, -⟩ := loaded.loaded_eq (known (.classRef id) (by simp))
        simp [operate, Eval.onOne, Eval.loadStatic, Eval.look, Eval.bind_apply, Registry.getStatic,
          found, Except.map, Eval.lift, Eval.pure_apply] at failed
      | _ => cases failed
    | storeStatic field =>
      obtain ⟨c, v, rfl⟩ := List.length_eq_two.1 count
      cases c with
      | classRef id =>
        obtain ⟨c, found, -⟩ := loaded.loaded_eq (known (.classRef id) (by simp))
        simp [operate, Eval.onTwo, Eval.storeStatic, Eval.look, Eval.bind_apply, Registry.setStatic,
          found, Except.map, Eval.lift, Eval.pure_apply, Eval.alter] at failed
      | _ => cases failed
    | _ => cases static
  · simp only [Bool.not_eq_true] at static
    have ends := ends_operate (β := β) plain static count scene
    rw [failed] at ends
    exact ends

end Instruction

end Monogram
