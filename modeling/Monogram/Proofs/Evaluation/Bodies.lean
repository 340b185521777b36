import Monogram.Proofs.Evaluation.Scene

/-! # Classes and bodies in a scene

New classes come only with a program that is loaded.  So what holds of all classes of a scene holds
of those of every scene that an operation leads to, and what holds of all their bodies holds of every
body that a call reaches.

* `World.All` — a property of all classes, those of objects included.
* `Eval.Keeps` — an operation keeps it, whichever way it ends.
-/

namespace Monogram

namespace Table

variable {α : Type}

theorem mem_values_of_find? {t : Table α} {name : String} {value : α}
    (found : t.find? name = some value) : value ∈ t.values := by
  obtain ⟨entries⟩ := t
  simp only [find?, values] at found ⊢
  induction entries with
  | nil => cases found
  | cons entry rest ih =>
    obtain ⟨key, old⟩ := entry
    by_cases hk : key = name
    · simp only [findIn, hk, if_true, Option.some.injEq] at found
      exact List.mem_cons.2 (.inl found.symm)
    · simp only [findIn, hk, if_false] at found
      exact List.mem_cons_of_mem _ (ih found)

theorem mem_values_insert {t : Table α} {name : String} {value other : α}
    (member : other ∈ (t.insert name value).values) : other = value ∨ other ∈ t.values := by
  obtain ⟨entries⟩ := t
  simp only [insert, values] at member ⊢
  induction entries with
  | nil => exact .inl (List.mem_singleton.1 member)
  | cons entry rest ih =>
    obtain ⟨key, old⟩ := entry
    by_cases hk : key = name
    · simp only [insertIn, hk, if_true, List.map_cons, List.mem_cons] at member ⊢
      exact member.imp id .inr
    · simp only [insertIn, hk, if_false, List.map_cons, List.mem_cons] at member ⊢
      rcases member with rfl | member
      · exact .inr (.inl rfl)
      · exact (ih member).imp id .inr

theorem mem_values_ofList {entries : List (String × α)} {value : α}
    (member : value ∈ (ofList entries).values) : value ∈ entries.map Prod.snd := by
  have folded : ∀ (entries : List (String × α)) (t : Table α),
      value ∈ (entries.foldl (fun t entry => t.insert entry.1 entry.2) t).values →
      value ∈ t.values ∨ value ∈ entries.map Prod.snd := by
    intro entries
    induction entries with
    | nil => exact fun t member => .inl member
    | cons entry rest ih =>
      intro t member
      rcases ih _ member with old | later
      · exact (mem_values_insert old).symm.imp_right fun same => by simp [same]
      · exact .inr (List.mem_cons_of_mem _ later)
  exact (folded entries empty member).resolve_left fun none => by cases none

end Table

/-- What holds of all elements and of all that a change makes of them holds behind the change. -/
theorem Array.forall_mem_modify {α : Type} {P : α → Prop} {items : Array α} (place : Nat) (change : α → α)
    (changed : ∀ a, P a → P (change a)) (all : ∀ a ∈ items, P a) :
    ∀ a ∈ items.modify place change, P a := by
  intro a member
  obtain ⟨i, bound, rfl⟩ := Array.mem_iff_getElem.1 member
  rw [Array.getElem_modify]
  have old := all _ (Array.getElem_mem (by simpa using bound))
  split
  · exact changed _ old
  · exact old

theorem Array.forall_mem_push {α : Type} {P : α → Prop} {items : Array α} {last : α} (all : ∀ a ∈ items, P a)
    (new : P last) : ∀ a ∈ items.push last, P a := by
  intro a member
  rcases Array.mem_push.1 member with old | rfl
  · exact all a old
  · exact new

variable {β α γ : Type} {P : β → Prop} {Q : ClassImage β → Prop}

/-- All bodies of a class have the property. -/
structure ClassImage.All (P : β → Prop) (c : ClassImage β) : Prop where
  methods : ∀ m ∈ c.methods.values, P m.code
  staticMethods : ∀ m ∈ c.staticMethods.values, P m.code
  staticInit : P c.staticInit

theorem ClassImage.All.mono {P P' : β → Prop} {c : ClassImage β} (all : c.All P)
    (implies : ∀ b, P b → P' b) : c.All P' :=
  ⟨fun m member => implies _ (all.methods m member),
    fun m member => implies _ (all.staticMethods m member), implies _ all.staticInit⟩

/-- All loaded classes and all classes of objects have the property. -/
structure World.All (Q : ClassImage β → Prop) (w : World β) : Prop where
  classes : ∀ c ∈ w.classes.classes.values, Q c.image
  objects : ∀ o ∈ w.heap.objects, Q o.image

/-- All classes of the scene that an evaluation ends in have the property. -/
def Ending.All (Q : ClassImage β → Prop) : Ending β α → Prop
  | .done _ scene | .raised _ scene | .faulted _ scene => scene.All Q
  | .unfinished => True

/-! ## Calls reach such bodies only -/

namespace Registry

theorem all_register {r : Registry β} (image : ClassImage β)
    (all : ∀ c ∈ r.classes.values, Q c.image) (new : Q image) :
    ∀ c ∈ (r.register image).classes.values, Q c.image := by
  intro c member
  rcases Table.mem_values_insert member with rfl | member
  · exact new
  · exact all c member

theorem all_registerAll {images : List (ClassImage β)} {r : Registry β}
    (all : ∀ c ∈ r.classes.values, Q c.image) (new : ∀ c ∈ images, Q c) :
    ∀ c ∈ (images.foldl register r).classes.values, Q c.image := by
  induction images generalizing r with
  | nil => exact all
  | cons c rest ih =>
    exact ih (all_register c all (new c (List.mem_cons_self ..)))
      fun other member => new other (List.mem_cons_of_mem _ member)

theorem all_byName? {r : Registry β} (all : ∀ c ∈ r.classes.values, Q c.image) {name : String}
    {image : ClassImage β} (found : r.byName? name = some image) : Q image := by
  obtain ⟨c, known, rfl⟩ := Option.map_eq_some_iff.1 found
  exact all c (Table.mem_values_of_find? known)

theorem mem_values_of_loaded {r : Registry β} {id : ClassId} {c : LoadedClass β}
    (found : r.loaded id = .ok c) : c ∈ r.classes.values := by
  unfold loaded at found
  cases known : r.loaded? id with
  | none => simp [known] at found
  | some c' =>
    simp only [known, Except.ok.injEq] at found
    obtain ⟨name, -, entry⟩ := Option.bind_eq_some_iff.1 known
    exact found ▸ Table.mem_values_of_find? entry

theorem all_loaded {r : Registry β} (all : ∀ c ∈ r.classes.values, Q c.image) {id : ClassId}
    {c : LoadedClass β} (found : r.loaded id = .ok c) : Q c.image :=
  all c (mem_values_of_loaded found)

theorem all_setStatic {r r' : Registry β} (all : ∀ c ∈ r.classes.values, Q c.image)
    {id : ClassId} {field : String} {v : Value} (stored : r.setStatic id field v = .ok r') :
    ∀ c ∈ r'.classes.values, Q c.image := by
  unfold setStatic at stored
  cases known : r.loaded id with
  | error e => simp [known, Except.map] at stored
  | ok c =>
    simp only [known, Except.map, Except.ok.injEq] at stored
    subst stored
    intro c' member
    rcases Table.mem_values_insert member with rfl | member
    · have old : Q c.image := all_loaded all known
      exact old
    · exact all c' member

theorem all_resolveMethod {r : Registry β} (all : ∀ c ∈ r.classes.values, c.image.All P)
    {c : ClassImage β} (own : ∀ m ∈ c.methods.values, P m.code) {method : String}
    {caller : Option String} {body : β} (found : r.resolveMethod c method caller = .ok body) :
    P body := by
  unfold resolveMethod at found
  generalize r.size + 1 = steps at found
  induction steps generalizing c with
  | zero => cases found
  | succ steps ih =>
    simp only [resolveMethodIn] at found
    cases known : c.methods.find? method with
    | some image =>
      simp only [known] at found
      split at found
      · cases found
      · cases found
        exact own image (Table.mem_values_of_find? known)
    | none =>
      simp only [known] at found
      cases above : c.superclass with
      | none => simp [above] at found
      | some ancestor =>
        simp only [above] at found
        cases parent : r.byName? ancestor with
        | none => simp [parent] at found
        | some image =>
          simp only [parent] at found
          exact ih (all_byName? all parent).methods found

theorem all_resolveStatic {r : Registry β} (all : ∀ c ∈ r.classes.values, c.image.All P)
    {id : ClassId} {method : String} {body : β} (found : r.resolveStatic id method = .ok body) :
    P body := by
  unfold resolveStatic at found
  cases known : r.loaded id with
  | error e => simp [known, bind, Except.bind] at found
  | ok c =>
    simp only [known, bind, Except.bind] at found
    cases entry : c.image.staticMethods.find? method with
    | none => simp [entry, throw, throwThe, MonadExceptOf.throw] at found
    | some image =>
      simp only [entry, pure, Except.pure, Except.ok.injEq] at found
      exact found ▸ (all_loaded all known).staticMethods image (Table.mem_values_of_find? entry)

end Registry

theorem World.All.object_methods [Inhabited β] {w : World β} (all : w.All (ClassImage.All P)) (address : Address) :
    ∀ m ∈ (w.heap.object address).image.methods.values, P m.code := by
  unfold Heap.object
  cases known : w.heap.objects[address]? with
  | none => intro m member; cases member
  | some o => exact (all.objects o (Array.mem_of_getElem? known)).methods

/-- A store into a list or a map changes no object. -/
theorem Heap.objects_storing {h : Heap β} {container index v : Value} {change : Heap β → Heap β}
    (stored : h.storing container index v = .ok change) (h' : Heap β) :
    (change h').objects = h'.objects := by
  cases container with
  | list address =>
    simp only [storing] at stored
    cases place : listPlace index (h.list address).size <;> rw [place] at stored <;> cases stored
    rfl
  | map address =>
    simp only [storing] at stored
    cases known : Dict.keyOf index <;> rw [known] at stored <;> cases stored
    rfl
  | _ => cases stored

/-! ## Operations keep the property -/

namespace Eval

/-- If all classes have the property, they still have it at the end. -/
def Keeps (Q : ClassImage β → Prop) (p : Eval β α) : Prop :=
  ∀ scene, scene.All Q → (p scene).All Q

theorem Keeps.bind {p : Eval β α} {q : α → Eval β γ} (first : Keeps Q p)
    (second : ∀ a, Keeps Q (q a)) : Keeps Q (p >>= q) := by
  intro scene all
  have after := first scene all
  rw [bind_apply]
  cases h : p scene with
  | done a scene => rw [h] at after; exact second a scene after
  | raised v scene => rw [h] at after; exact after
  | faulted f scene => rw [h] at after; exact after
  | unfinished => trivial

theorem Keeps.pure (a : α) : Keeps Q (pure a : Eval β α) := fun _ all => all

theorem Keeps.look : Keeps Q (look : Eval β (Scene β)) := fun _ all => all

theorem Keeps.fault (f : Fault) : Keeps Q (fault f : Eval β α) := fun _ all => all

theorem Keeps.lift (result : Except Fault α) : Keeps Q (lift result : Eval β α) := by
  cases result with
  | ok a => exact Keeps.pure a
  | error f => exact Keeps.fault f

theorem keeps_writeSlot (slot : Nat) (v : Value) : Keeps Q (writeSlot slot v : Eval β Value) :=
  fun _ all => ⟨all.classes, all.objects⟩

theorem keeps_writeName (name : String) (v : Value) :
    Keeps Q (writeName name v : Eval β Value) := by
  intro scene all
  simp only [writeName, alter, bind_apply, pure_apply]
  split <;> exact ⟨all.classes, all.objects⟩

theorem keeps_arithmetic (op : Arithmetic) (a b : Value) :
    Keeps Q (arithmetic op a b : Eval β Value) := by
  intro scene all
  simp only [arithmetic, look, bind_apply]
  cases scene.heap.arithmetic op a b with
  | error e => exact all
  | ok result =>
    cases result with
    | value v => exact all
    | newList items => exact ⟨all.classes, all.objects⟩

theorem keeps_compare (op : Comparison) (a b : Value) : Keeps Q (compare op a b : Eval β Value) :=
  Keeps.look.bind fun _ => (Keeps.lift _).bind fun _ => Keeps.pure _

theorem keeps_truthy (a : Value) : Keeps Q (truthy a : Eval β Bool) :=
  Keeps.look.bind fun _ => Keeps.pure _

theorem keeps_choose (op : LogicalOp) (a b : Value) : Keeps Q (choose op a b : Eval β Value) :=
  (keeps_truthy a).bind fun _ => by cases op <;> exact Keeps.pure _

theorem keeps_newMap (entries : List (Value × Value)) :
    Keeps Q (newMap entries : Eval β Value) := by
  intro scene all
  simp only [newMap, bind_apply]
  cases Dict.ofEntries entries with
  | error e => exact all
  | ok contents => exact ⟨all.classes, all.objects⟩

theorem keeps_storeIndex (container index v : Value) :
    Keeps Q (storeIndex container index v : Eval β Value) := by
  intro scene all
  simp only [storeIndex, look, bind_apply]
  cases stored : scene.heap.storing container index v with
  | error e => exact all
  | ok change =>
    refine ⟨all.classes, ?_⟩
    intro o member
    exact all.objects o (Heap.objects_storing stored scene.heap ▸ member)

theorem keeps_loadStatic (c : Value) (field : String) :
    Keeps Q (loadStatic c field : Eval β Value) := by
  cases c with
  | classRef id => exact Keeps.look.bind fun _ => Keeps.lift _
  | _ => exact Keeps.fault _

theorem keeps_storeStatic (c : Value) (field : String) (v : Value) :
    Keeps Q (storeStatic c field v : Eval β Value) := by
  intro scene all
  cases c with
  | classRef id =>
    simp only [storeStatic, look, bind_apply]
    cases stored : scene.classes.setStatic id field v with
    | error e => exact all
    | ok classes => exact ⟨Registry.all_setStatic all.classes stored, all.objects⟩
  | _ => exact all

theorem keeps_construct (className : String) : Keeps Q (construct className : Eval β Value) := by
  intro scene all
  simp only [construct, look, bind_apply]
  cases found : scene.classes.byName? className with
  | none => exact all
  | some image =>
    exact ⟨all.classes, Array.forall_mem_push all.objects (Registry.all_byName? all.classes found)⟩

theorem keeps_consult (ask : Console → α × Console) : Keeps Q (consult ask : Eval β α) :=
  fun _ all => ⟨all.classes, all.objects⟩

theorem keeps_readLine : Keeps Q (readLine : Eval β Value) :=
  (keeps_consult _).bind fun _ => Keeps.lift _

variable [Inhabited β]

theorem keeps_loadField (object : Value) (field : String) :
    Keeps Q (loadField object field : Eval β Value) := by
  cases object with
  | object address => exact Keeps.look.bind fun _ => (Keeps.lift _).bind fun _ => Keeps.pure _
  | _ => exact Keeps.fault _

theorem keeps_storeField (object : Value) (field : String) (v : Value) :
    Keeps Q (storeField object field v : Eval β Value) := by
  intro scene all
  cases object with
  | object address =>
    simp only [storeField, look, bind_apply]
    cases scene.classes.checkField (scene.heap.object address).image field scene.callerClass with
    | error e => exact all
    | ok _ =>
      exact ⟨all.classes, Array.forall_mem_modify address (Object.set · field v) (fun _ image => image)
        all.objects⟩
  | _ => exact all

theorem keeps_print (values : List Value) : Keeps Q (print values : Eval β Value) :=
  Keeps.look.bind fun _ => (keeps_consult _).bind fun _ => (Keeps.lift _).bind fun _ => Keeps.pure _

theorem keeps_readFile (arguments : List Value) : Keeps Q (readFile arguments : Eval β Value) := by
  cases arguments with
  | nil => exact Keeps.fault _
  | cons first others =>
    exact Keeps.look.bind fun _ => (keeps_consult _).bind fun _ => Keeps.lift _

theorem keeps_system (name : String) (arguments : List Value) :
    Keeps Q (system name arguments : Eval β Value) := by
  unfold system
  split
  · exact keeps_print arguments
  · exact keeps_readLine
  · exact fun _ all => all
  · exact keeps_readFile arguments
  · exact Keeps.fault _

/-- A call that leads to no body keeps the property. -/
theorem keeps_callee {scene : Scene β} (all : scene.All Q) {method : String} {receiver : Value}
    {arguments : List Value} {e : Ending β Value}
    (ended : callee method receiver arguments scene = .ending e) : e.All Q := by
  cases receiver with
  | object address =>
    simp only [callee] at ended
    split at ended <;> cases ended
    exact all
  | classRef id =>
    simp only [callee] at ended
    split at ended <;> cases ended
    exact all
  | system =>
    cases ended
    exact keeps_system method arguments scene all
  | _ =>
    cases ended
    exact all

/-- A call of a method reaches a body with the property. -/
theorem all_of_callee {scene : Scene β} (all : scene.All (ClassImage.All P)) {method : String}
    {receiver : Value} {arguments : List Value} {b : β} {this : Option Value}
    (reached : callee method receiver arguments scene = .body b this) : P b := by
  cases receiver with
  | object address =>
    simp only [callee] at reached
    split at reached
    · next found =>
      cases reached
      exact Registry.all_resolveMethod all.classes (all.object_methods address) found
    · cases reached
  | classRef id =>
    simp only [callee] at reached
    split at reached
    · next found =>
      cases reached
      exact Registry.all_resolveStatic all.classes found
    · cases reached
  | _ => cases reached

/-- Only a call of the system object has a result without reaching a body. -/
theorem system_of_callee {scene after : Scene β} {method : String} {receiver v : Value}
    {arguments : List Value}
    (ended : callee method receiver arguments scene = .ending (.done v after)) :
    receiver = .system := by
  cases receiver with
  | object address =>
    simp only [callee] at ended
    split at ended <;> cases ended
  | classRef id =>
    simp only [callee] at ended
    split at ended <;> cases ended
  | system => rfl
  | _ => cases ended

/-- In a body that a call reaches, `this` is an object if it is anything. -/
theorem this_of_callee {scene : Scene β} {method : String} {receiver : Value}
    {arguments : List Value} {b : β} {this : Option Value}
    (reached : callee method receiver arguments scene = .body b this) :
    ∃ object : Option Address, this = object.map .object := by
  cases receiver with
  | object address =>
    simp only [callee] at reached
    split at reached <;> cases reached
    exact ⟨some address, rfl⟩
  | classRef id =>
    simp only [callee] at reached
    split at reached <;> cases reached
    exact ⟨none, rfl⟩
  | _ => cases reached

end Eval

end Monogram
