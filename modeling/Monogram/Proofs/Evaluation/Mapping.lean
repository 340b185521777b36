import Monogram.Proofs.Evaluation.Scene

/-! # Another kind of body

Nothing but entering a body looks at it.  So a change of all bodies by a function goes through every
operation on scenes.

* `World.mapBodies`, `Scene.mapBodies` — the function on all bodies of all classes and objects.
* `Eval.Commutes` — an operation and its counterpart for other bodies.
-/

namespace Monogram

/-! ## Tables -/

namespace Table

variable {α γ : Type}

/-- A function on all values of a table. -/
def map (f : α → γ) (t : Table α) : Table γ :=
  ⟨t.entries.map fun entry => (entry.1, f entry.2)⟩

@[simp] theorem find?_map (f : α → γ) (t : Table α) (name : String) :
    (t.map f).find? name = (t.find? name).map f := by
  obtain ⟨entries⟩ := t
  simp only [find?, map]
  induction entries with
  | nil => rfl
  | cons entry rest ih =>
    obtain ⟨key, value⟩ := entry
    by_cases hk : key = name <;> simp [findIn, hk, ih]

@[simp] theorem insert_map (f : α → γ) (t : Table α) (name : String) (value : α) :
    (t.map f).insert name (f value) = (t.insert name value).map f := by
  obtain ⟨entries⟩ := t
  simp only [insert, map, Table.mk.injEq]
  induction entries with
  | nil => rfl
  | cons entry rest ih =>
    obtain ⟨key, old⟩ := entry
    by_cases hk : key = name <;> simp [insertIn, hk, ih]

@[simp] theorem values_map (f : α → γ) (t : Table α) : (t.map f).values = t.values.map f := by
  simp [values, map, Function.comp_def]

@[simp] theorem size_map (f : α → γ) (t : Table α) : (t.map f).size = t.size := by
  simp [size, map]

end Table

/-! ## Bodies of classes and objects -/

variable {β γ α : Type}

/-- A function on the body of a method. -/
def MethodImage.mapBodies (f : β → γ) (m : MethodImage β) : MethodImage γ :=
  ⟨f m.code, m.visibility, m.parameters, m.returnType⟩

/-- A function on the bodies of a class. -/
def ClassImage.mapBodies (f : β → γ) (c : ClassImage β) : ClassImage γ :=
  { name := c.name, id := c.id, superclass := c.superclass, interfaces := c.interfaces
    methods := c.methods.map (MethodImage.mapBodies f)
    staticMethods := c.staticMethods.map (MethodImage.mapBodies f)
    fields := c.fields, staticFields := c.staticFields, staticInit := f c.staticInit }

/-- A function on the bodies of an object's class. -/
def Object.mapBodies (f : β → γ) (o : Object β) : Object γ :=
  ⟨o.image.mapBodies f, o.fields⟩

/-- A function on the bodies of all objects. -/
def Heap.mapBodies (f : β → γ) (h : Heap β) : Heap γ :=
  ⟨h.lists, h.maps, h.objects.map (Object.mapBodies f)⟩

/-- A function on the bodies of a loaded class. -/
def LoadedClass.mapBodies (f : β → γ) (c : LoadedClass β) : LoadedClass γ :=
  ⟨c.image.mapBodies f, c.statics⟩

/-- A function on the bodies of all loaded classes. -/
def Registry.mapBodies (f : β → γ) (r : Registry β) : Registry γ :=
  ⟨r.classes.map (LoadedClass.mapBodies f), r.owners⟩

/-- A function on all bodies of a world. -/
def World.mapBodies (f : β → γ) (w : World β) : World γ :=
  ⟨w.console, w.classes.mapBodies f, w.heap.mapBodies f, w.slots, w.globals⟩

/-- A function on all bodies of a scene. -/
def Scene.mapBodies (f : β → γ) (scene : Scene β) : Scene γ :=
  { scene.toWorld.mapBodies f with this := scene.this }

@[simp] theorem Scene.console_mapBodies (f : β → γ) (scene : Scene β) :
    (scene.mapBodies f).console = scene.console := rfl

/-- A function on all bodies of the scene that an evaluation ends in. -/
def Ending.mapBodies (f : β → γ) : Ending β α → Ending γ α
  | .done a scene => .done a (scene.mapBodies f)
  | .raised v scene => .raised v (scene.mapBodies f)
  | .faulted e scene => .faulted e (scene.mapBodies f)
  | .unfinished => .unfinished

/-- A function on the body that a call leads to. -/
def Eval.Callee.mapBodies (f : β → γ) : Eval.Callee β → Eval.Callee γ
  | .body b this => .body (f b) this
  | .ending e => .ending (e.mapBodies f)

/-! ## The heap -/

namespace Heap

@[simp] theorem list_mapBodies (f : β → γ) (h : Heap β) (address : Address) :
    (h.mapBodies f).list address = h.list address := rfl

theorem allocObject_mapBodies (f : β → γ) (h : Heap β) (o : Object β) :
    (h.mapBodies f).allocObject (o.mapBodies f)
      = ((h.allocObject o).1, (h.allocObject o).2.mapBodies f) := by
  simp [allocObject, mapBodies]

theorem modifyObject_mapBodies (f : β → γ) (h : Heap β) (address : Address) (field : String)
    (v : Value) :
    (h.mapBodies f).modifyObject address (fun o => o.set field v)
      = (h.modifyObject address fun o => o.set field v).mapBodies f := by
  simp only [modifyObject, mapBodies, Heap.mk.injEq, true_and]
  ext i : 1
  · simp
  · rename_i h₁ h₂
    simp only [Array.size_modify, Array.size_map] at h₁
    by_cases hi : address = i <;> simp [Array.getElem_modify, hi, Object.mapBodies, Object.set]

@[simp] theorem truthy_mapBodies (f : β → γ) (h : Heap β) (v : Value) :
    (h.mapBodies f).truthy v = h.truthy v := by
  cases v <;> rfl

theorem equalAt_mapBodies (f : β → γ) (h : Heap β) (depth : Nat) (assumed : Assumed) (a b : Value) :
    (h.mapBodies f).equalAt depth assumed a b = h.equalAt depth assumed a b := by
  induction depth generalizing assumed a b with
  | zero => rfl
  | succ depth ih =>
    unfold equalAt
    simp only [ih]
    rfl

@[simp] theorem equal_mapBodies (f : β → γ) (h : Heap β) (a b : Value) :
    (h.mapBodies f).equal a b = h.equal a b :=
  congrArg (Option.getD · false) (equalAt_mapBodies f h _ _ a b)

@[simp] theorem arithmetic_mapBodies (f : β → γ) (h : Heap β) (op : Arithmetic) (a b : Value) :
    (h.mapBodies f).arithmetic op a b = h.arithmetic op a b := by
  unfold arithmetic
  rfl

@[simp] theorem compare_mapBodies (f : β → γ) (h : Heap β) (op : Comparison) (a b : Value) :
    (h.mapBodies f).compare op a b = h.compare op a b := by
  cases op <;> simp [compare]

theorem storing_mapBodies (f : β → γ) (h : Heap β) (container index v : Value) :
    ((h.mapBodies f).storing container index v).map (fun change => change (h.mapBodies f))
      = (h.storing container index v).map fun change => (change h).mapBodies f := by
  cases container with
  | list address =>
    simp only [storing, list_mapBodies]
    cases listPlace index (h.list address).size <;> rfl
  | map address =>
    simp only [storing]
    cases Dict.keyOf index <;> rfl
  | _ => rfl

variable [Inhabited β] [Inhabited γ] {f : β → γ}

theorem object_mapBodies (kept : f default = default) (h : Heap β) (address : Address) :
    (h.mapBodies f).object address = (h.object address).mapBodies f := by
  have same : (default : ClassImage β).mapBodies f = default :=
    congrArg (ClassImage.mk _ _ _ _ _ _ _ _) kept
  simp only [object, mapBodies, Array.getElem?_map]
  cases h.objects[address]? with
  | none => exact congrArg (Object.mk · _) same.symm
  | some o => rfl

@[simp] theorem display_mapBodies (kept : f default = default) (h : Heap β) (v : Value) :
    (h.mapBodies f).display v = h.display v := by
  have scalar : ∀ style v, scalarText style (h.mapBodies f) v = scalarText style h v := by
    intro style v
    cases v with
    | object address => simp only [scalarText, object_mapBodies kept]; rfl
    | _ => rfl
  have deep : ∀ style depth outer,
      (h.mapBodies f).renderAt style depth outer = h.renderAt style depth outer := by
    intro style depth
    induction depth with
    | zero => intro outer; funext v; exact scalar style v
    | succ depth ih =>
      intro outer
      funext v
      unfold renderAt
      simp only [ih, scalar]
      rfl
  exact congrFun (deep .display _ []) v

theorem load_mapBodies (kept : f default = default) (h : Heap β) (container index : Value) :
    (h.mapBodies f).load container index = h.load container index := by
  unfold load
  simp only [display_mapBodies kept]
  rfl

end Heap

/-! ## Loaded classes -/

namespace Registry

variable {f : β → γ}

@[simp] theorem size_mapBodies (r : Registry β) : (r.mapBodies f).size = r.size :=
  Table.size_map _ _

theorem register_mapBodies (r : Registry β) (image : ClassImage β) :
    (r.mapBodies f).register (image.mapBodies f) = (r.register image).mapBodies f := by
  have loading : LoadedClass.ofImage (image.mapBodies f) = (LoadedClass.ofImage image).mapBodies f :=
    rfl
  simp only [register, mapBodies, loading]
  rw [Registry.mk.injEq]
  refine ⟨Table.insert_map _ _ _ _, ?_⟩
  rw [Table.find?_map]
  simp only [ClassImage.mapBodies]
  cases r.classes.find? image.name <;> rfl

@[simp] theorem byName?_mapBodies (r : Registry β) (name : String) :
    (r.mapBodies f).byName? name = (r.byName? name).map (ClassImage.mapBodies f) := by
  simp only [byName?, mapBodies, Table.find?_map, Option.map_map]
  rfl

theorem loaded_mapBodies (r : Registry β) (id : ClassId) :
    (r.mapBodies f).loaded id = (r.loaded id).map (LoadedClass.mapBodies f) := by
  have found : (r.mapBodies f).loaded? id = (r.loaded? id).map (LoadedClass.mapBodies f) := by
    simp only [loaded?, mapBodies]
    cases r.owners.lookup id with
    | none => rfl
    | some name => exact Table.find?_map _ _ _
  simp only [loaded, found]
  cases r.loaded? id <;> rfl

theorem getStatic_mapBodies (r : Registry β) (id : ClassId) (field : String) :
    (r.mapBodies f).getStatic id field = r.getStatic id field := by
  simp only [getStatic, loaded_mapBodies]
  cases r.loaded id <;> rfl

theorem setStatic_mapBodies (r : Registry β) (id : ClassId) (field : String) (v : Value) :
    (r.mapBodies f).setStatic id field v = (r.setStatic id field v).map (mapBodies f) := by
  simp only [setStatic, loaded_mapBodies]
  cases r.loaded id with
  | error e => rfl
  | ok c =>
    simp only [Except.map, Except.ok.injEq, mapBodies, Registry.mk.injEq, and_true]
    exact Table.insert_map (LoadedClass.mapBodies f) _ _ { c with statics := c.statics.insert field v }

theorem resolveMethod_mapBodies (r : Registry β) (c : ClassImage β) (method : String)
    (caller : Option String) :
    (r.mapBodies f).resolveMethod (c.mapBodies f) method caller
      = (r.resolveMethod c method caller).map f := by
  simp only [resolveMethod, size_mapBodies]
  generalize r.size + 1 = steps
  induction steps generalizing c with
  | zero => rfl
  | succ steps ih =>
    simp only [resolveMethodIn, ClassImage.mapBodies, Table.find?_map, byName?_mapBodies]
    cases c.methods.find? method with
    | some image =>
      simp only [Option.map_some, MethodImage.mapBodies]
      by_cases hidden : image.visibility = .hidden ∧ caller ≠ some c.name
      · rw [if_pos hidden]; exact if_pos hidden
      · rw [if_neg hidden]; exact if_neg hidden
    | none =>
      cases c.superclass with
      | none => rfl
      | some ancestor =>
        simp only [Option.map_none]
        cases r.byName? ancestor with
        | none => rfl
        | some parent => exact ih parent

theorem resolveStatic_mapBodies (r : Registry β) (id : ClassId) (method : String) :
    (r.mapBodies f).resolveStatic id method = (r.resolveStatic id method).map f := by
  simp only [resolveStatic, loaded_mapBodies]
  cases r.loaded id with
  | error e => rfl
  | ok c =>
    simp only [Except.map, bind, Except.bind, LoadedClass.mapBodies, ClassImage.mapBodies,
      Table.find?_map]
    cases c.image.staticMethods.find? method <;> rfl

theorem checkField_mapBodies (r : Registry β) (c : ClassImage β) (field : String)
    (caller : Option String) :
    (r.mapBodies f).checkField (c.mapBodies f) field caller = r.checkField c field caller := by
  simp only [checkField, size_mapBodies]
  generalize r.size + 1 = steps
  induction steps generalizing c with
  | zero => rfl
  | succ steps ih =>
    have parent : (c.superclass.bind fun name => (r.mapBodies f).byName? name)
        = (c.superclass.bind r.byName?).map (ClassImage.mapBodies f) := by
      cases c.superclass with
      | none => rfl
      | some ancestor => exact byName?_mapBodies r ancestor
    have fields : (c.mapBodies f).fields = c.fields := rfl
    simp only [checkFieldIn, fields]
    cases c.fields.find? field with
    | some image => rfl
    | none =>
      simp only [ClassImage.mapBodies, parent]
      cases c.superclass.bind r.byName? with
      | none => rfl
      | some parent => exact ih parent

end Registry

/-! ## Operations on scenes -/

namespace Eval

/-- What `q` does to a scene with other bodies is what `p` does to the scene. -/
def Commutes (f : β → γ) (p : Eval β α) (q : Eval γ α) : Prop :=
  ∀ scene, q (scene.mapBodies f) = (p scene).mapBodies f

variable {f : β → γ}

theorem Commutes.lift (result : Except Fault α) : Commutes f (lift result) (lift result) := by
  intro scene
  cases result <;> rfl

theorem commutes_writeName (name : String) (v : Value) :
    Commutes f (writeName name v) (writeName name v) := by
  intro scene
  simp only [writeName, alter, bind_apply, pure_apply, Ending.mapBodies]
  change Ending.done v (if name = "this" ∧ scene.this.isSome then _ else _) = _
  by_cases own : name = "this" ∧ scene.this.isSome
  · simp only [if_pos own]; rfl
  · simp only [if_neg own]; rfl

theorem commutes_arithmetic (op : Arithmetic) (a b : Value) :
    Commutes f (arithmetic op a b) (arithmetic op a b) := by
  intro scene
  simp only [arithmetic, look, bind_apply]
  have same : (scene.mapBodies f).heap.arithmetic op a b = scene.heap.arithmetic op a b :=
    Heap.arithmetic_mapBodies f _ op a b
  rw [same]
  cases scene.heap.arithmetic op a b with
  | error e => rfl
  | ok result => cases result <;> rfl

theorem commutes_compare (op : Comparison) (a b : Value) :
    Commutes f (compare op a b) (compare op a b) := by
  intro scene
  simp only [compare, look, bind_apply]
  have same : (scene.mapBodies f).heap.compare op a b = scene.heap.compare op a b :=
    Heap.compare_mapBodies f _ op a b
  rw [same]
  cases scene.heap.compare op a b <;> rfl

theorem commutes_truthy (a : Value) : Commutes f (truthy a) (truthy a) := by
  intro scene
  exact congrArg (Ending.done · _) (Heap.truthy_mapBodies f scene.heap a)

theorem commutes_choose (op : LogicalOp) (a b : Value) :
    Commutes f (choose op a b) (choose op a b) := by
  intro scene
  simp only [choose, bind_apply, commutes_truthy a scene]
  cases op <;> rfl

theorem commutes_negation (a : Value) : Commutes f (negation a) (negation a) := by
  intro scene
  simp only [negation, bind_apply, commutes_truthy a scene]
  rfl

theorem commutes_newMap (entries : List (Value × Value)) :
    Commutes f (newMap entries) (newMap entries) := by
  intro scene
  simp only [newMap, bind_apply]
  cases Dict.ofEntries entries <;> rfl

theorem commutes_storeIndex (container index v : Value) :
    Commutes f (storeIndex container index v) (storeIndex container index v) := by
  intro scene
  have same := Heap.storing_mapBodies f scene.heap container index v
  have heap : (scene.mapBodies f).heap = scene.heap.mapBodies f := rfl
  simp only [storeIndex, look, bind_apply, heap]
  cases h₁ : (scene.heap.mapBodies f).storing container index v <;>
    cases h₂ : scene.heap.storing container index v <;> simp only [h₁, h₂, Except.map] at same
  · cases same; rfl
  · cases same
  · cases same
  · rename_i change₁ change₂
    have heap : change₁ (scene.heap.mapBodies f) = (change₂ scene.heap).mapBodies f := by
      injection same
    simp only [lift, pure_apply, alter, Ending.mapBodies]
    exact congrArg (fun heap => Ending.done v { scene.mapBodies f with heap }) heap

theorem commutes_loadStatic (c : Value) (field : String) :
    Commutes f (loadStatic c field) (loadStatic c field) := by
  intro scene
  cases c with
  | classRef id =>
    simp only [loadStatic, look, bind_apply]
    exact (congrArg (lift · (scene.mapBodies f)) (Registry.getStatic_mapBodies _ id field)).trans
      (Commutes.lift _ scene)
  | _ => rfl

theorem commutes_storeStatic (c : Value) (field : String) (v : Value) :
    Commutes f (storeStatic c field v) (storeStatic c field v) := by
  intro scene
  cases c with
  | classRef id =>
    have same : (scene.mapBodies f).classes.setStatic id field v = _ :=
      Registry.setStatic_mapBodies scene.classes id field v
    simp only [storeStatic, look, bind_apply, same]
    cases scene.classes.setStatic id field v <;> rfl
  | _ => rfl

theorem commutes_construct (className : String) :
    Commutes f (construct className) (construct className) := by
  intro scene
  have same : (scene.mapBodies f).classes.byName? className = _ :=
    Registry.byName?_mapBodies scene.classes className
  simp only [construct, look, bind_apply, same]
  cases scene.classes.byName? className with
  | none => rfl
  | some image =>
    have new := Heap.allocObject_mapBodies f scene.heap ⟨image, ∅⟩
    exact congrArg
      (fun p : Value × Heap γ => Ending.done p.1 { scene.mapBodies f with heap := p.2 }) new

theorem commutes_readLine : Commutes f readLine readLine := by
  intro scene
  simp only [readLine, bind_apply, consult_apply, Scene.console_mapBodies]
  exact Commutes.lift _ { scene with console := scene.console.readLine.2 }

variable [Inhabited β] [Inhabited γ]

theorem commutes_loadIndex (kept : f default = default) (container index : Value) :
    Commutes f (loadIndex container index) (loadIndex container index) := by
  intro scene
  have same := Heap.load_mapBodies kept scene.heap container index
  simp only [loadIndex, look, bind_apply]
  exact (congrArg (lift · (scene.mapBodies f)) same).trans (Commutes.lift _ scene)

theorem callerClass_mapBodies (kept : f default = default) (scene : Scene β) :
    (scene.mapBodies f).callerClass = scene.callerClass := by
  obtain ⟨world, this⟩ := scene
  cases this with
  | none => rfl
  | some v =>
    cases v with
    | object address =>
      exact congrArg (fun o => some o.image.name) (Heap.object_mapBodies kept world.heap address)
    | _ => rfl

/-- The check of a field gives the same for other bodies. -/
theorem checkField_scene (kept : f default = default) (scene : Scene β) (address : Address)
    (field : String) :
    (scene.mapBodies f).classes.checkField ((scene.mapBodies f).heap.object address).image field
        (scene.mapBodies f).callerClass
      = scene.classes.checkField (scene.heap.object address).image field scene.callerClass := by
  rw [callerClass_mapBodies kept]
  change (scene.classes.mapBodies f).checkField ((scene.heap.mapBodies f).object address).image _ _ = _
  rw [Heap.object_mapBodies kept]
  exact Registry.checkField_mapBodies _ _ _ _

theorem commutes_loadField (kept : f default = default) (object : Value) (field : String) :
    Commutes f (loadField object field) (loadField object field) := by
  intro scene
  cases object with
  | object address =>
    simp only [loadField, look, bind_apply, checkField_scene kept]
    cases scene.classes.checkField (scene.heap.object address).image field scene.callerClass with
    | error e => rfl
    | ok _ =>
      exact congrArg (fun o => Ending.done (Object.get o field) _)
        (Heap.object_mapBodies kept scene.heap address)
  | _ => rfl

theorem commutes_storeField (kept : f default = default) (object : Value) (field : String)
    (v : Value) : Commutes f (storeField object field v) (storeField object field v) := by
  intro scene
  cases object with
  | object address =>
    simp only [storeField, look, bind_apply, checkField_scene kept]
    cases scene.classes.checkField (scene.heap.object address).image field scene.callerClass with
    | error e => rfl
    | ok _ =>
      exact congrArg (fun heap => Ending.done v { scene.mapBodies f with heap })
        (Heap.modifyObject_mapBodies f scene.heap address field v)
  | _ => rfl

theorem commutes_print (kept : f default = default) (values : List Value) :
    Commutes f (print values) (print values) := by
  intro scene
  have shown : (scene.mapBodies f).heap.display = scene.heap.display :=
    funext fun v => Heap.display_mapBodies kept scene.heap v
  simp only [print, look, bind_apply, consult_apply, shown, Scene.console_mapBodies]
  cases (scene.console.print _).1 <;> rfl

theorem commutes_readFile (kept : f default = default) (arguments : List Value) :
    Commutes f (readFile arguments) (readFile arguments) := by
  intro scene
  cases arguments with
  | nil => rfl
  | cons first others =>
    have shown : (scene.mapBodies f).heap.display first = scene.heap.display first :=
      Heap.display_mapBodies kept scene.heap first
    simp only [readFile, look, bind_apply, consult_apply, shown, Scene.console_mapBodies]
    exact Commutes.lift _ { scene with console := (scene.console.readFile _).2 }

theorem commutes_system (kept : f default = default) (name : String) (arguments : List Value) :
    Commutes f (system name arguments) (system name arguments) := by
  unfold system
  split
  · exact commutes_print kept arguments
  · exact commutes_readLine
  · exact fun _ => rfl
  · exact commutes_readFile kept arguments
  · exact fun _ => rfl

theorem callee_mapBodies (kept : f default = default) (method : String) (receiver : Value)
    (arguments : List Value) (scene : Scene β) :
    callee method receiver arguments (scene.mapBodies f)
      = (callee method receiver arguments scene).mapBodies f := by
  cases receiver with
  | object address =>
    have found : (scene.mapBodies f).classes.resolveMethod
        ((scene.mapBodies f).heap.object address).image method (scene.mapBodies f).callerClass
        = (scene.classes.resolveMethod (scene.heap.object address).image method
            scene.callerClass).map f := by
      rw [callerClass_mapBodies kept]
      change (scene.classes.mapBodies f).resolveMethod
        ((scene.heap.mapBodies f).object address).image _ _ = _
      rw [Heap.object_mapBodies kept]
      exact Registry.resolveMethod_mapBodies _ _ _ _
    simp only [callee, found]
    cases scene.classes.resolveMethod (scene.heap.object address).image method
      scene.callerClass <;> rfl
  | classRef id =>
    have found : (scene.mapBodies f).classes.resolveStatic id method = _ :=
      Registry.resolveStatic_mapBodies scene.classes id method
    simp only [callee, found]
    cases scene.classes.resolveStatic id method <;> rfl
  | system => exact congrArg Callee.ending (commutes_system kept method arguments scene)
  | _ => rfl

end Eval

end Monogram
