import Mathlib.Data.List.Basic
import Monogram.Classes.Registry
import Monogram.Proofs.Lowering.Naming

/-! # Classes under their numbers

The lowering gives every class its number and the registry loads it; code holds the number and
nothing else.  A registry agrees with the names when every class that they number is loaded under its
name and under its number, and no class is loaded that they do not number.

* `Registry.Holds` — a class is loaded under a name and a number.
* `Names.Loaded` — the registry agrees with the names.
* `Names.Loaded.registerAll` — so it does behind the classes of a program.
-/

namespace Monogram

variable {β : Type}

/-- One class is loaded under the name and under the number, and has both. -/
def Registry.Holds (r : Registry β) (name : String) (id : ClassId) : Prop :=
  ∃ image, r.byName? name = some image ∧ r.byId? id = some image ∧ image.name = name ∧ image.id = id

namespace Names

/-- The number is that of a class. -/
def HasClass (names : Names) (id : ClassId) : Prop := ∃ name, names.classId? name = some id

/-- Every class that is loaded stands under its name and has the number that the names give it, and
the number leads back to the name. -/
def Numbers (names : Names) (r : Registry β) : Prop :=
  ∀ name c, r.classes.find? name = some c →
    c.image.name = name ∧ names.classId? name = some c.image.id
      ∧ r.owners.lookup c.image.id = some name

/-- The registry agrees with the names. -/
structure Loaded (names : Names) (r : Registry β) : Prop where
  numbers : names.Numbers r
  present : ∀ name id, names.classId? name = some id → ∃ c, r.classes.find? name = some c

end Names

theorem Table.find?_ofList_const {α : Type} (fields : List String) (v : α) (name : String) :
    (ofList (fields.map fun field => (field, v))).find? name = if name ∈ fields then some v else none := by
  have folded : ∀ (fields : List String) (t : Table α),
      ((fields.map fun field => (field, v)).foldl (fun t entry => t.insert entry.1 entry.2) t).find? name
        = if name ∈ fields then some v else t.find? name := by
    intro fields
    induction fields with
    | nil => simp
    | cons first rest ih =>
      intro t
      rw [List.map_cons, List.foldl_cons, ih, find?_insert]
      by_cases later : name ∈ rest
      · simp [later]
      · by_cases here : first = name <;> simp [later, here, Ne.symm]
  exact folded fields empty

namespace Registry

theorem lookup_removeOwner {id other : ClassId} (apart : id ≠ other)
    (owners : List (ClassId × String)) : (removeOwner other owners).lookup id = owners.lookup id := by
  induction owners with
  | nil => rfl
  | cons owner rest ih =>
    obtain ⟨key, name⟩ := owner
    rw [removeOwner] at ih ⊢
    by_cases gone : key = other
    · subst gone
      simp [List.lookup_cons, ih, beq_false_of_ne apart]
    · by_cases here : id = key
      · simp [here, gone]
      · simp [gone, ih, List.lookup_cons, beq_false_of_ne here]

theorem find?_register (r : Registry β) (image : ClassImage β) (name : String) :
    (r.register image).classes.find? name
      = if image.name = name then some (.ofImage image) else r.classes.find? name :=
  Table.find?_insert ..

theorem loaded?_eq_some {r : Registry β} {id : ClassId} {c : LoadedClass β} :
    r.loaded? id = some c ↔ ∃ name, r.owners.lookup id = some name ∧ r.classes.find? name = some c :=
  Option.bind_eq_some_iff

theorem loaded_eq_ok {r : Registry β} {id : ClassId} {c : LoadedClass β} :
    r.loaded id = .ok c ↔ r.loaded? id = some c := by
  unfold loaded
  cases r.loaded? id <;> simp

end Registry

namespace Names

variable {names names' : Names} {r r' : Registry β} {image : ClassImage β}

theorem Numbers.mono (numbers : names.Numbers r)
    (still : ∀ name id, names.classId? name = some id → names'.classId? name = some id) :
    names'.Numbers r := by
  intro name c found
  obtain ⟨named, numbered, owned⟩ := numbers name c found
  exact ⟨named, still _ _ numbered, owned⟩

/-- A class that gets the number of its name takes no other class its number. -/
theorem Numbers.register (numbers : names.Numbers r)
    (known : names.classId? image.name = some image.id) : names.Numbers (r.register image) := by
  intro name c found
  rw [Registry.find?_register] at found
  by_cases here : image.name = name
  · rw [if_pos here] at found
    obtain rfl := Option.some.inj found
    exact ⟨here, here ▸ known, by simp [Registry.register, LoadedClass.ofImage, here]⟩
  rw [if_neg here] at found
  obtain ⟨named, numbered, owned⟩ := numbers name c found
  have apart : c.image.id ≠ image.id := fun same =>
    here (classId?_injective known (same ▸ numbered))
  refine ⟨named, numbered, ?_⟩
  -- The number that becomes free is that of the class before, which had the same name.
  simp only [Registry.register, List.lookup_cons, beq_false_of_ne apart,
    Registry.lookup_removeOwner apart]
  cases before : r.classes.find? image.name with
  | none => exact owned
  | some previous =>
    have same := (numbers _ _ before).2.1.symm.trans known
    exact (Registry.lookup_removeOwner (Option.some.inj same ▸ apart) _).trans owned

/-- A class that is loaded is found under its number. -/
theorem Numbers.loaded_eq (numbers : names.Numbers r) {name : String} {c : LoadedClass β}
    (found : r.classes.find? name = some c) : r.loaded c.image.id = .ok c := by
  obtain ⟨-, -, owned⟩ := numbers name c found
  simp [Registry.loaded, Registry.loaded?, owned, found]

namespace Loaded

theorem empty : Names.empty.Loaded (.empty : Registry β) := by
  refine ⟨fun _ _ => nofun, fun name id known => ?_⟩
  cases known

/-- The number of a name leads to the class of that name. -/
theorem entry (loaded : names.Loaded r) {name : String} {id : ClassId}
    (known : names.classId? name = some id) :
    ∃ c, r.owners.lookup id = some name ∧ r.classes.find? name = some c ∧ c.image.name = name
      ∧ c.image.id = id := by
  obtain ⟨c, found⟩ := loaded.present name id known
  obtain ⟨named, numbered, owned⟩ := loaded.numbers name c found
  obtain rfl : id = c.image.id := Option.some.inj (known.symm.trans numbered)
  exact ⟨c, owned, found, named, rfl⟩

theorem holds (loaded : names.Loaded r) {name : String} {id : ClassId}
    (known : names.classId? name = some id) : r.Holds name id := by
  obtain ⟨c, owned, found, named, numbered⟩ := loaded.entry known
  refine ⟨c.image, ?_, ?_, named, numbered⟩
  · simp [Registry.byName?, found]
  · simp [Registry.byId?, Registry.loaded?, owned, found]

/-- A number that the names know leads to a class that has it. -/
theorem loaded_eq (loaded : names.Loaded r) {id : ClassId} (known : names.HasClass id) :
    ∃ c, r.loaded id = .ok c ∧ r.classes.find? c.image.name = some c := by
  obtain ⟨name, known⟩ := known
  obtain ⟨c, -, found, named, rfl⟩ := loaded.entry known
  exact ⟨c, loaded.numbers.loaded_eq found, named ▸ found⟩

/-- The classes of a program are loaded under the numbers that the names behind it give them. -/
theorem registerAll {images : List (ClassImage β)} (loaded : names.Loaded r)
    (still : ∀ name id, names.classId? name = some id → names'.classId? name = some id)
    (known : ∀ image ∈ images, names'.classId? image.name = some image.id)
    (only : ∀ name id, names'.classId? name = some id →
      names.classId? name = some id ∨ ∃ image ∈ images, image.name = name) :
    names'.Loaded (images.foldl Registry.register r) := by
  have numbers : ∀ (images : List (ClassImage β)) (r : Registry β), names'.Numbers r →
      (∀ image ∈ images, names'.classId? image.name = some image.id) →
      names'.Numbers (images.foldl Registry.register r) := by
    intro images
    induction images with
    | nil => exact fun _ numbers _ => numbers
    | cons image rest ih =>
      intro r numbers known
      obtain ⟨first, others⟩ := List.forall_mem_cons.1 known
      exact ih _ (numbers.register first) others
  -- A class that is there stays there, or is replaced by one of its name.
  have present : ∀ (images : List (ClassImage β)) (r : Registry β) (name : String),
      ((∃ c, r.classes.find? name = some c) ∨ ∃ image ∈ images, image.name = name) →
      ∃ c, (images.foldl Registry.register r).classes.find? name = some c := by
    intro images
    induction images with
    | nil => simp
    | cons image rest ih =>
      intro r name there
      apply ih
      rw [Registry.find?_register]
      by_cases here : image.name = name
      · simp [here]
      · simpa [here] using there
  refine ⟨numbers images r (loaded.numbers.mono still) known, fun name id numbered => ?_⟩
  apply present
  exact (only name id numbered).imp_left (loaded.present name id)

/-- A store into a static field leaves every class where it is. -/
theorem setStatic (loaded : names.Loaded r) {id : ClassId} {field : String} {v : Value}
    (stored : r.setStatic id field v = .ok r') : names.Loaded r' := by
  cases found : r.loaded id with
  | error f => simp [Registry.setStatic, found, Except.map] at stored
  | ok c =>
    simp only [Registry.setStatic, found, Except.map, Except.ok.injEq] at stored
    subst stored
    obtain ⟨name, owned, entry⟩ := Registry.loaded?_eq_some.1 (Registry.loaded_eq_ok.1 found)
    obtain ⟨rfl, numbered, back⟩ := loaded.numbers name c entry
    refine ⟨fun name c' found' => ?_, fun name id known => ?_⟩
    · rw [Table.find?_insert] at found'
      split at found'
      · next here =>
        cases found'
        exact ⟨here, here ▸ numbered, here ▸ back⟩
      · exact loaded.numbers name c' found'
    · obtain ⟨c', found'⟩ := loaded.present name id known
      rw [Table.find?_insert]
      split
      · exact ⟨_, rfl⟩
      · exact ⟨c', found'⟩

end Loaded

end Names

end Monogram
