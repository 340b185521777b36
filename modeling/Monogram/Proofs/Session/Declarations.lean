import Monogram.Proofs.Session.References

/-! # The classes that a text declares

A text may declare a class more than once.  The last declaration counts, and the class has its turn
where the first one stands.  Loading the classes makes their static fields zero, and leaves the classes
of other names as they were.

* `lastClass?` — the declaration that counts, with the names known in front of it.
* `Names.declaredClasses` — the classes of a text, each once, in the order of their first declarations.
* `classTrees_values` — they are the classes that the evaluation of the text loads.
* `Loads` — what becomes of a registry when classes are loaded into it.
-/

namespace Monogram

/-! ## Declarations that count -/

/-- A declaration of a class, and the names known in front of it. -/
structure PlacedClass where
  decl : ClassDecl
  known : Names

namespace PlacedClass

def name (c : PlacedClass) : String := c.decl.name

/-- The number of the class. -/
def id (c : PlacedClass) : ClassId := (c.known.classId? c.name).getD firstClassId

/-- The class, with trees for its methods. -/
def tree (c : PlacedClass) : ClassImage Body := c.decl.tree c.id c.known

/-- The names of the static fields, in the order of the declaration. -/
def staticNames (c : PlacedClass) : List String :=
  (c.decl.fields.filter VarDecl.isStatic).map VarDecl.name

end PlacedClass

/-- The last declaration of a class of this name.  Where there are several, the earlier ones are no more
than names that they declare. -/
def lastClass? (name : String) : List Stmt → Names → Option PlacedClass
  | [], _ => none
  | s :: rest, names =>
    (lastClass? name rest (names.addGlobals (globalsTop [s]))).or
      ((s.class?.filter fun d => d.name = name).map fun d => ⟨d, names⟩)

theorem classNames_cons (s : Stmt) (rest : List Stmt) :
    classNames (s :: rest) = (s.class?.map ClassDecl.name).toList ++ classNames rest := by
  unfold classNames
  cases h : s.class? <;> simp [h]

theorem lastClass?_eq_none {name : String} {statements : List Stmt} {names : Names} :
    lastClass? name statements names = none ↔ name ∉ classNames statements := by
  induction statements generalizing names with
  | nil => simp [lastClass?, classNames]
  | cons s rest ih =>
    rw [lastClass?, Option.or_eq_none_iff, ih, classNames_cons, List.mem_append, not_or, and_comm]
    cases s.class? with
    | none => simp
    | some d => simp [Option.filter, eq_comm]

/-- The declaration that counts is one of a proper class of that name, behind which there is no other. -/
theorem lastClass?_last {name : String} {statements : List Stmt} {names : Names} {c : PlacedClass}
    (found : lastClass? name statements names = some c) :
    ∃ before after, statements = before ++ .classDecl c.decl :: after ∧ c.decl.isInterface = false
      ∧ c.name = name ∧ name ∉ classNames after ∧ c.known = names.addGlobals (globalsTop before) := by
  induction statements generalizing names with
  | nil => cases found
  | cons s rest ih =>
    rw [lastClass?] at found
    cases later : lastClass? name rest (names.addGlobals (globalsTop [s])) with
    | some c' =>
      rw [later] at found
      cases found
      obtain ⟨before, after, rfl, proper, named, last, known⟩ := ih later
      refine ⟨s :: before, after, rfl, proper, named, last, ?_⟩
      rw [known, ← Names.addGlobals_append, ← globalsTop_append, List.singleton_append]
    | none =>
      rw [later, Option.none_or] at found
      obtain ⟨d, kept, rfl⟩ := Option.map_eq_some_iff.1 found
      obtain ⟨declares, named⟩ := Option.filter_eq_some_iff.1 kept
      cases s with
      | classDecl d' =>
        simp only [Stmt.class?] at declares
        split at declares
        · cases declares
        · next proper =>
          cases declares
          refine ⟨[], rest, rfl, Bool.eq_false_iff.2 proper, of_decide_eq_true named,
            lastClass?_eq_none.1 later, rfl⟩
      | _ => cases declares

/-- The evaluation makes a class of the declaration that counts. -/
theorem classTrees_find? : ∀ (statements : List Stmt) (trees : Table (ClassImage Body)) (names : Names)
    (name : String), (classTrees statements trees names).find? name
      = ((lastClass? name statements names).map PlacedClass.tree).or (trees.find? name)
  | [], trees, names, name => rfl
  | s :: rest, trees, names, name => by
    cases s with
    | classDecl d =>
      simp only [classTrees, lastClass?, Stmt.class?]
      cases kind : d.isInterface with
      | true =>
        have none : globalsTop [.classDecl d] = [] := by simp [globalsTop, kind]
        rw [none, if_pos rfl, if_pos rfl]
        exact (classTrees_find? rest trees names name).trans (by simp; rfl)
      | false =>
        have own : names.addGlobals (globalsTop [.classDecl d]) = d.declared names := by
          simp [globalsTop, kind, d.declared_eq]
        rw [own, if_neg Bool.false_ne_true, if_neg Bool.false_ne_true, classTrees_find? rest,
          Table.find?_insert]
        -- A later declaration counts before this one, and this one before what was there.
        cases lastClass? name rest (d.declared names) with
        | some c => rfl
        | none =>
          by_cases same : d.name = name
          · simp [same, Option.filter, PlacedClass.tree, PlacedClass.id, PlacedClass.name]
          · simp [same, Option.filter]
    | _ =>
      simp only [classTrees, lastClass?, Stmt.class?, Option.filter_none, Option.map_none, Option.or_none]
      rw [classTrees_find? rest, Stmt.declared_eq]
      simp [globalsTop]

namespace Names

/-- The classes that statements declare, in the order of their first declarations. -/
def declaredClasses (names : Names) (statements : List Stmt) : List PlacedClass :=
  (classNames statements).eraseDups.filterMap fun name =>
    lastClass? name statements (names.addClasses statements)

variable {names later : Names} {statements : List Stmt} {p : Program} {c : PlacedClass}

/-- Every name of a class occurs once, where it is declared first. -/
theorem declaredClasses_names (names : Names) (statements : List Stmt) :
    (names.declaredClasses statements).map PlacedClass.name = (classNames statements).eraseDups := by
  have each : ∀ name ∈ (classNames statements).eraseDups,
      (lastClass? name statements (names.addClasses statements)).map PlacedClass.name = some name := by
    intro name member
    cases found : lastClass? name statements (names.addClasses statements) with
    | none => exact absurd (List.mem_eraseDups.1 member) (lastClass?_eq_none.1 found)
    | some c =>
      obtain ⟨-, -, -, -, named, -⟩ := lastClass?_last found
      exact congrArg some named
  rw [declaredClasses, List.map_filterMap, List.filterMap_congr each, List.filterMap_some]

theorem last_of_mem (member : c ∈ names.declaredClasses statements) :
    lastClass? c.name statements (names.addClasses statements) = some c := by
  obtain ⟨name, -, found⟩ := List.mem_filterMap.1 member
  obtain ⟨-, -, -, -, rfl, -⟩ := lastClass?_last found
  exact found

/-- A class has the number of its name. -/
theorem classId?_of_mem (member : c ∈ names.declaredClasses statements) :
    (names.addClasses statements).classId? c.name = some c.id := by
  have mentioned : c.name ∈ classNames statements := by
    rw [← List.mem_eraseDups, ← names.declaredClasses_names]
    exact List.mem_map_of_mem member
  obtain ⟨id, numbered⟩ := names.classId?_declared mentioned
  obtain ⟨before, -, -, -, -, -, known⟩ := lastClass?_last (last_of_mem member)
  have still : c.known.classId? c.name = some id := by
    rw [known]
    exact numbered
  rw [numbered, PlacedClass.id, still, Option.getD_some]

end Names

/-! ## What the evaluation loads -/

theorem Table.names_map {α γ : Type} (f : α → γ) (t : Table α) : (t.map f).names = t.names := by
  simp [names, Table.map]

theorem Table.values_eq {α : Type} {t : Table α} (distinct : t.names.Nodup) :
    t.values = t.names.filterMap t.find? := by
  rw [values, names, List.filterMap_map, ← List.filterMap_eq_map]
  exact List.filterMap_congr fun entry member => (find?_of_mem distinct member).symm

/-- The classes of a text are those that its evaluation loads. -/
theorem classTrees_values {names later : Names} {statements : List Stmt} {p : Program}
    (lowered : names.lowerProgram statements = .ok (p, later)) :
    (classTrees statements ∅ (names.addClasses statements)).values
      = (names.declaredClasses statements).map PlacedClass.tree := by
  obtain ⟨⟨top, known⟩, first, lowered⟩ := Except.bind_eq_ok lowered
  have none : (∅ : Table ClassImage).names = List.eraseDups [] := rfl
  -- The trees stand under the names of their code.
  have listed := lowerTop_class_names statements first none
  obtain ⟨images, -⟩ := lowerTop_classes statements .empty first
  rw [images, Table.names_map, List.nil_append] at listed
  rw [Table.values_eq (listed ▸ nodup_eraseDups _), listed, Names.declaredClasses, List.map_filterMap]
  refine List.filterMap_congr fun name _ => ?_
  rw [classTrees_find?]
  exact Option.or_none

/-! ## Loading -/

variable {β : Type}

theorem Table.mem_names_ofList {α : Type} {entries : List (String × α)} {name : String} :
    name ∈ (ofList entries).names ↔ name ∈ entries.map Prod.fst := by
  have folded : ∀ (entries : List (String × α)) (t : Table α),
      name ∈ (entries.foldl (fun t entry => t.insert entry.1 entry.2) t).names
        ↔ name ∈ t.names ∨ name ∈ entries.map Prod.fst := by
    intro entries
    induction entries with
    | nil => simp
    | cons entry rest ih =>
      intro t
      rw [List.foldl_cons, ih, names_insert, List.map_cons, List.mem_cons, ← or_assoc]
      refine or_congr_left ?_
      split
      · next there => exact ⟨.inl, fun among => among.elim id fun same => same ▸ there⟩
      · simp
  simpa [ofList, empty, names] using folded entries empty

/-- A class that has just been loaded has its static fields, all of them zero, and no others. -/
theorem PlacedClass.find?_statics (c : PlacedClass) (field : String) :
    (LoadedClass.ofImage c.tree).statics.find? field
      = if field ∈ c.staticNames then some .zero else none := by
  have names : field ∈ c.tree.staticFields.names ↔ field ∈ c.staticNames := by
    refine Table.mem_names_ofList.trans ?_
    simp [staticNames, Function.comp_def]
  rw [LoadedClass.ofImage, Table.find?_ofList_const]
  exact if_congr names rfl rfl

namespace Registry

/-- Loads classes one after the other. -/
def loadAll (r : Registry Body) (classes : List PlacedClass) : Registry Body :=
  (classes.map PlacedClass.tree).foldl register r

/-- Of a name that occurs once among them the class is loaded, and no other name is touched. -/
theorem find?_registerAll {images : List (ClassImage β)} (distinct : (images.map ClassImage.name).Nodup)
    (r : Registry β) (name : String) :
    (images.foldl register r).classes.find? name
      = ((images.find? fun image => image.name = name).map LoadedClass.ofImage).or
          (r.classes.find? name) := by
  induction images generalizing r with
  | nil => rfl
  | cons image rest ih =>
    obtain ⟨absent, others⟩ := List.nodup_cons.1 distinct
    rw [List.foldl_cons, ih others, find?_register]
    by_cases here : image.name = name
    · have none : (rest.find? fun image => image.name = name) = none := by
        refine List.find?_eq_none.2 fun other member same => absent ?_
        exact List.mem_map.2 ⟨other, member, (of_decide_eq_true same).trans here.symm⟩
      rw [none, if_pos here, List.find?_cons_of_pos (by simpa using here)]
      rfl
    · rw [if_neg here, List.find?_cons_of_neg (by simpa using here)]

end Registry

/-- The classes of a text are loaded: each has its number and its static fields, all of them zero and no
others, and the classes of other names are as they were. -/
structure Loads (names : Names) (statements : List Stmt) (before after : Registry Body) : Prop where
  zeroed : ∀ c ∈ names.declaredClasses statements, ∃ l, after.loaded c.id = .ok l ∧ l.image = c.tree
    ∧ ∀ field, l.statics.find? field = if field ∈ c.staticNames then some .zero else none
  others : ∀ name, name ∉ classNames statements →
    after.classes.find? name = before.classes.find? name
    ∧ ∀ id, names.classId? name = some id → after.loaded id = before.loaded id

namespace Names

variable {names later : Names} {statements : List Stmt} {p : Program} {c : PlacedClass}

/-- Whether a registry agrees with the names does not depend on what its bodies are. -/
theorem Loaded.of_mapBodies {γ : Type} {f : β → γ} {r : Registry β}
    (loaded : names.Loaded (r.mapBodies f)) : names.Loaded r := by
  have mapped : ∀ name, (r.mapBodies f).classes.find? name
      = (r.classes.find? name).map (LoadedClass.mapBodies f) := fun name => Table.find?_map ..
  refine ⟨fun name c found => ?_, fun name id known => ?_⟩
  · exact loaded.numbers name _ ((mapped name).trans (congrArg _ found))
  · obtain ⟨c, found⟩ := loaded.present name id known
    rw [mapped] at found
    obtain ⟨c, found, -⟩ := Option.map_eq_some_iff.1 found
    exact ⟨c, found⟩

theorem find?_of_mem (member : c ∈ names.declaredClasses statements) :
    (((names.declaredClasses statements).map PlacedClass.tree).find? fun image => image.name = c.name)
      = some c.tree := by
  cases found : ((names.declaredClasses statements).map PlacedClass.tree).find?
      fun image => image.name = c.name with
  | none =>
    have other := List.find?_eq_none.1 found c.tree (List.mem_map_of_mem member)
    exact absurd (decide_eq_true rfl) other
  | some image =>
    have same : image.name = c.name := by simpa using List.find?_some found
    obtain ⟨c', member', rfl⟩ := List.mem_map.1 (List.mem_of_find?_eq_some found)
    change c'.name = c.name at same
    -- Both are the last declaration of that name.
    have last := last_of_mem member'
    rw [same, last_of_mem member] at last
    rw [Option.some.inj last]

/-- The classes of a text that has code are loaded as they are declared. -/
theorem Loaded.loads {r : Registry Body} (loaded : names.Loaded r)
    (lowered : names.lowerProgram statements = .ok (p, later)) :
    Loads names statements r (r.loadAll (names.declaredClasses statements)) := by
  have adds := lowerProgram_extends lowered
  have numbers : ∀ name, later.classId? name = (names.addClasses statements).classId? name := by
    intro name
    rw [lowerProgram_names lowered, addClasses_eq]
    rfl
  have images_names : ((names.declaredClasses statements).map PlacedClass.tree).map ClassImage.name
      = (classNames statements).eraseDups := by
    rw [← names.declaredClasses_names, List.map_map]
    rfl
  have find? := Registry.find?_registerAll (images_names ▸ nodup_eraseDups _) r
  -- The numbers agree behind the loads too, so each class is found by its number.
  have behind : later.Loaded (r.loadAll (names.declaredClasses statements)) := by
    refine loaded.registerAll adds.keeps ?_ fun name id known => (adds.only name id known).imp_right ?_
    · intro image member
      obtain ⟨c, declared, rfl⟩ := List.mem_map.1 member
      exact (numbers _).trans (classId?_of_mem declared)
    · rintro ⟨image, member, rfl⟩
      have among := List.mem_map_of_mem (f := ClassImage.name) member
      rw [(lowerProgram_classes lowered).ordered, ← images_names] at among
      exact List.mem_map.1 among
  refine ⟨fun c member => ?_, fun name absent => ?_⟩
  · have found := find? c.name
    rw [find?_of_mem member] at found
    exact ⟨_, behind.numbers.loaded_eq found, rfl, c.find?_statics⟩
  · have still : (r.loadAll (names.declaredClasses statements)).classes.find? name
        = r.classes.find? name := by
      refine (find? name).trans ?_
      rw [List.find?_eq_none.2, Option.map_none, Option.none_or]
      intro image member same
      have among := List.mem_map_of_mem (f := ClassImage.name) member
      rw [images_names, List.mem_eraseDups] at among
      exact absent (of_decide_eq_true same ▸ among)
    refine ⟨still, fun id known => ?_⟩
    obtain ⟨l, found⟩ := loaded.present name id known
    obtain ⟨-, numbered, -⟩ := loaded.numbers name l found
    cases known.symm.trans numbered
    exact (behind.numbers.loaded_eq (still.trans found)).trans (loaded.numbers.loaded_eq found).symm

end Names

end Monogram
