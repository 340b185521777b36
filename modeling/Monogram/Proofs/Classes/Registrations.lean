import Mathlib.Data.List.Induction
import Monogram.Proofs.Classes.Loaded

/-! # Registries made by registrations

A registry comes about by loading classes, of any names and numbers, and by storing into their static
fields.  Under each name stands the class that was loaded last.  A number leads to the class that got it
last, unless a class that had the number before is loaded again: that frees the number, whoever has it
by then.

* `Registry.Change`, `Registry.after` — a registry behind any changes.
* `Registry.lookup_register` — the owner of a number behind one more class.
* `Registry.Stays`, `Registry.Freed` — nobody takes the place of a class, and its number becomes free.
* `Registry.after_keeps` — what is found by name and by number.
* `Registry.loading_hides_another` — loading one class may hide another one.
-/

namespace Monogram

namespace Registry

variable {β : Type}

/-- What changes a registry. -/
inductive Change (β : Type := Code) where
  | register (image : ClassImage β)
  | setStatic (id : ClassId) (field : String) (value : Value)

/-- The class that is loaded. -/
def Change.image? : Change β → Option (ClassImage β)
  | .register image => some image
  | .setStatic _ _ _ => none

/-- The value that is stored into this static field of the class with this number. -/
def Change.stored? (id : ClassId) (field : String) : Change β → Option Value
  | .register _ => none
  | .setStatic other name value => if other = id ∧ name = field then some value else none

/-- The registry behind one more change.  A store under a number that no class has changes nothing. -/
def change (r : Registry β) : Change β → Registry β
  | .register image => r.register image
  | .setStatic id field value => (r.setStatic id field value).toOption.getD r

/-- The registry behind changes that start from nothing. -/
def after (changes : List (Change β)) : Registry β := changes.foldl change empty

/-- The classes that are loaded, in order. -/
def images (changes : List (Change β)) : List (ClassImage β) := changes.filterMap Change.image?

/-- The class that is loaded last under a name. -/
def lastUnder (name : String) (changes : List (Change β)) : Option (ClassImage β) :=
  (images changes).reverse.find? fun image => image.name = name

/-- The value that is stored last into a static field of the class with this number. -/
def lastStored (id : ClassId) (field : String) (changes : List (Change β)) : Option Value :=
  (changes.filterMap (Change.stored? id field)).getLast?

/-- No class that is loaded later has the name or the number of `d`. -/
def Stays (d : ClassImage β) (later : List (Change β)) : Prop :=
  ∀ e ∈ images later, e.name ≠ d.name ∧ e.id ≠ d.id

/-- A class is loaded again that had the number of `d` before. -/
def Freed (earlier : List (Change β)) (d : ClassImage β) (later : List (Change β)) : Prop :=
  ∃ e ∈ images later, ∃ c, lastUnder e.name earlier = some c ∧ c.id = d.id

variable {r : Registry β} {image c d e : ClassImage β} {earlier later changes : List (Change β)}
  {id : ClassId} {name field : String} {value : Value} {x : Change β}

@[simp] theorem images_append (changes more : List (Change β)) :
    images (changes ++ more) = images changes ++ images more :=
  List.filterMap_append

@[simp] theorem images_register (image : ClassImage β) : images [.register image] = [image] := rfl

@[simp] theorem images_setStatic (id : ClassId) (field : String) (value : Value) :
    images [.setStatic (β := β) id field value] = [] := rfl

/-! ## One change -/

theorem lookup_removeOwner_self (id : ClassId) (owners : List (ClassId × String)) :
    (removeOwner id owners).lookup id = none := by
  induction owners with
  | nil => rfl
  | cons owner rest ih =>
    obtain ⟨key, name⟩ := owner
    rw [removeOwner] at ih ⊢
    by_cases here : key = id
    · subst here
      simpa using ih
    · simpa [here, List.lookup_cons, beq_false_of_ne (Ne.symm here)] using ih

/-- The owner of a number behind one more class: that class, nobody when the number was that of a class
which it replaces, and else the owner before. -/
theorem lookup_register (r : Registry β) (image : ClassImage β) (id : ClassId) :
    (r.register image).owners.lookup id
      = if id = image.id then some image.name
        else if (r.byName? image.name).map ClassImage.id = some id then none
        else r.owners.lookup id := by
  by_cases own : id = image.id
  · subst own
    simp [register]
  · simp only [register, List.lookup_cons, beq_false_of_ne own, if_neg own, lookup_removeOwner own,
      byName?, Option.map_map]
    cases before : r.classes.find? image.name with
    | none => simp
    | some previous =>
      by_cases same : previous.image.id = id
      · simp [same, lookup_removeOwner_self]
      · simp [same, lookup_removeOwner (Ne.symm same)]

theorem byName?_register (r : Registry β) (image : ClassImage β) (name : String) :
    (r.register image).byName? name = if image.name = name then some image else r.byName? name := by
  rw [byName?, find?_register]
  split
  · rfl
  · rfl

/-- Every class stands under its name, and a number leads to a class that has it. -/
structure Consistent (r : Registry β) : Prop where
  named : ∀ name c, r.classes.find? name = some c → c.image.name = name
  owned : ∀ id name, r.owners.lookup id = some name →
    ∃ c, r.classes.find? name = some c ∧ c.image.id = id

theorem Consistent.register (consistent : r.Consistent) (image : ClassImage β) :
    (r.register image).Consistent where
  named name c found := by
    rw [find?_register] at found
    split at found
    · next here =>
      cases found
      exact here
    · exact consistent.named name c found
  owned id name owner := by
    rw [lookup_register] at owner
    rw [find?_register]
    split at owner
    · next own =>
      cases owner
      exact ⟨_, if_pos rfl, own.symm⟩
    · split at owner
      · cases owner
      · next old =>
        obtain ⟨c, found, numbered⟩ := consistent.owned id name owner
        -- The class of that name is not the one that is replaced: it has another number.
        have apart : image.name ≠ name := by
          rintro rfl
          exact old (by simp [byName?, found, numbered])
        exact ⟨c, (if_neg apart).trans found, numbered⟩

/-- A store finds no class under the number, or changes the static fields of the class. -/
theorem change_setStatic (r : Registry β) (id : ClassId) (field : String) (value : Value) :
    r.change (.setStatic id field value) = match r.loaded? id with
      | none => r
      | some c =>
        { r with classes :=
            r.classes.insert c.image.name { c with statics := c.statics.insert field value } } := by
  simp only [change, setStatic, loaded]
  cases r.loaded? id <;> rfl

theorem owners_setStatic (r : Registry β) (id : ClassId) (field : String) (value : Value) :
    (r.change (.setStatic id field value)).owners = r.owners := by
  rw [change_setStatic]
  cases r.loaded? id <;> rfl

/-- A store leaves every class where it is. -/
theorem Consistent.image_setStatic (consistent : r.Consistent) (id : ClassId) (field : String)
    (value : Value) (name : String) :
    ((r.change (.setStatic id field value)).classes.find? name).map LoadedClass.image
      = (r.classes.find? name).map LoadedClass.image := by
  rw [change_setStatic]
  cases found : r.loaded? id with
  | none => rfl
  | some c =>
    obtain ⟨other, -, here⟩ := loaded?_eq_some.1 found
    obtain rfl := consistent.named other c here
    simp only [Table.find?_insert]
    split
    · next same => rw [← same, here, Option.map_some, Option.map_some]
    · rfl

theorem Consistent.names_setStatic (consistent : r.Consistent) :
    (r.change (.setStatic id field value)).classes.names = r.classes.names := by
  rw [change_setStatic]
  cases found : r.loaded? id with
  | none => rfl
  | some c =>
    obtain ⟨other, -, here⟩ := loaded?_eq_some.1 found
    obtain rfl := consistent.named other c here
    have there : c.image.name ∈ r.classes.names := by
      rw [Table.mem_names_iff, here]
      nofun
    simp only [Table.names_insert, if_pos there]

theorem Consistent.change (consistent : r.Consistent) (x : Change β) : (r.change x).Consistent := by
  cases x with
  | register image => exact consistent.register image
  | setStatic id field value =>
    constructor
    · intro name c found
      have same := consistent.image_setStatic id field value name
      rw [found, Option.map_some, eq_comm, Option.map_eq_some_iff] at same
      obtain ⟨c', found', same⟩ := same
      rw [← same]
      exact consistent.named name c' found'
    · intro number name owner
      rw [owners_setStatic] at owner
      obtain ⟨c, found, numbered⟩ := consistent.owned number name owner
      have same := consistent.image_setStatic id field value name
      rw [found, Option.map_some, Option.map_eq_some_iff] at same
      obtain ⟨c', found', same⟩ := same
      exact ⟨c', found', same ▸ numbered⟩

/-! ## All changes -/

theorem after_append (changes : List (Change β)) (x : Change β) :
    after (changes ++ [x]) = (after changes).change x := by
  rw [after, List.foldl_append]
  rfl

theorem consistent_after (changes : List (Change β)) : (after changes).Consistent := by
  induction changes using List.reverseRecOn with
  | nil => exact ⟨fun _ _ => nofun, fun _ _ => nofun⟩
  | append_singleton changes x ih =>
    rw [after_append]
    exact ih.change x

theorem lastUnder_append (name : String) (changes more : List (Change β)) :
    lastUnder name (changes ++ more) = (lastUnder name more).or (lastUnder name changes) := by
  simp only [lastUnder, images_append, List.reverse_append, List.find?_append]

theorem mem_of_lastUnder (found : lastUnder name changes = some c) :
    c ∈ images changes ∧ c.name = name :=
  ⟨List.mem_reverse.1 (List.mem_of_find?_eq_some found), by simpa using List.find?_some found⟩

/-- Under a name stands the class that was loaded last. -/
theorem byName?_after (changes : List (Change β)) (name : String) :
    (after changes).byName? name = lastUnder name changes := by
  induction changes using List.reverseRecOn with
  | nil => rfl
  | append_singleton changes x ih =>
    rw [after_append, lastUnder_append, ← ih]
    cases x with
    | register image =>
      rw [change, byName?_register]
      by_cases here : image.name = name <;> simp [lastUnder, here]
    | setStatic id field value => exact (consistent_after changes).image_setStatic id field value name

/-- The names are those of all classes that were loaded, each once. -/
theorem names_after (changes : List (Change β)) :
    (after changes).classes.names = ((images changes).map ClassImage.name).eraseDups := by
  induction changes using List.reverseRecOn with
  | nil => rfl
  | append_singleton changes x ih =>
    rw [after_append, images_append, List.map_append]
    cases x with
    | register image =>
      have added := (after changes).classes.names_insert image.name (.ofImage image)
      rw [ih] at added
      simp only [List.mem_eraseDups] at added
      exact added.trans (eraseDups_concat ..).symm
    | setStatic id field value =>
      rw [(consistent_after changes).names_setStatic, ih, images_setStatic, List.map_nil,
        List.append_nil]

theorem lastStored_append (id : ClassId) (field : String) (changes : List (Change β)) (x : Change β) :
    lastStored id field (changes ++ [x]) = (x.stored? id field).or (lastStored id field changes) := by
  rw [lastStored, List.filterMap_append, List.getLast?_append]
  cases here : x.stored? id field <;> simp [here, lastStored]

/-! ## A class that stays -/

theorem Stays.of_append {more : List (Change β)} (stays : Stays d (later ++ more)) :
    Stays d later ∧ Stays d more := by
  simpa only [Stays, images_append, List.forall_mem_append] using stays

/-- The class that is found under the name of another one which is loaded behind `d`. -/
theorem byName?_behind (apart : e.name ≠ d.name) :
    (after (earlier ++ .register d :: later)).byName? e.name
      = (lastUnder e.name later).or (lastUnder e.name earlier) := by
  have between : lastUnder e.name [.register d] = none := by
    simp [lastUnder, Ne.symm apart]
  rw [byName?_after, lastUnder_append, ← List.singleton_append, lastUnder_append, between,
    Option.or_none]

/-- A number that has been freed stays free. -/
theorem lookup_of_freed (stays : Stays d later) (freed : Freed earlier d later) :
    (after (earlier ++ .register d :: later)).owners.lookup d.id = none := by
  induction later using List.reverseRecOn with
  | nil => obtain ⟨e, ⟨⟩, -⟩ := freed
  | append_singleton later x ih =>
    obtain ⟨others, last⟩ := stays.of_append
    rw [← List.cons_append, ← List.append_assoc, after_append]
    cases x with
    | setStatic id field value =>
      rw [owners_setStatic]
      apply ih others
      simpa [Freed] using freed
    | register e =>
      obtain ⟨other_name, other_id⟩ := last e (by simp)
      rw [change, lookup_register, if_neg (Ne.symm other_id)]
      by_cases before : Freed earlier d later
      · rw [ih others before, ite_self]
      · -- The class that frees the number is the one loaded now, and it is the first of its name.
        have now : ∃ c, lastUnder e.name earlier = some c ∧ c.id = d.id := by
          obtain ⟨e', member, c, held, same⟩ := freed
          rw [images_append, images_register, List.mem_append, List.mem_singleton] at member
          rcases member with member | rfl
          · exact absurd ⟨e', member, c, held, same⟩ before
          · exact ⟨c, held, same⟩
        obtain ⟨c, held, same⟩ := now
        have fresh : lastUnder e.name later = none := by
          refine Option.eq_none_iff_forall_ne_some.2 fun e' found => before ?_
          obtain ⟨member, named⟩ := mem_of_lastUnder found
          exact ⟨e', member, c, named ▸ held, same⟩
        rw [if_pos]
        rw [byName?_behind other_name, fresh, Option.none_or, held, Option.map_some, same]

/-- A class that stays, and whose number nobody frees, is found under its number, with what has been
stored into its static fields. -/
theorem loaded?_of_stays (stays : Stays d later) (kept : ¬ Freed earlier d later) :
    (after (earlier ++ .register d :: later)).owners.lookup d.id = some d.name
      ∧ ∃ c, (after (earlier ++ .register d :: later)).classes.find? d.name = some c ∧ c.image = d
        ∧ ∀ field, (c.statics.find? field).getD .zero = (lastStored d.id field later).getD .zero := by
  induction later using List.reverseRecOn with
  | nil =>
    rw [after_append, change, lookup_register, find?_register, if_pos rfl, if_pos rfl]
    refine ⟨rfl, _, rfl, rfl, fun field => ?_⟩
    rw [LoadedClass.ofImage, Table.find?_ofList_const]
    split
    · rfl
    · rfl
  | append_singleton later x ih =>
    obtain ⟨others, last⟩ := stays.of_append
    have before : ¬ Freed earlier d later := by
      rintro ⟨e, member, c, held, same⟩
      exact kept ⟨e, by simp [member], c, held, same⟩
    obtain ⟨owner, c, found, rfl, statics⟩ := ih others before
    rw [← List.cons_append, ← List.append_assoc, after_append]
    cases x with
    | register e =>
      obtain ⟨other_name, other_id⟩ := last e (by simp)
      -- The class that is replaced, if any, has another number.
      have others_number : ((after (earlier ++ .register c.image :: later)).byName? e.name).map
          ClassImage.id ≠ some c.image.id := by
        rw [byName?_behind other_name]
        intro same
        obtain ⟨c', held, numbered⟩ := Option.map_eq_some_iff.1 same
        rcases Option.or_eq_some_iff.1 held with held | ⟨-, held⟩
        · exact (others c' (mem_of_lastUnder held).1).2 numbered
        · exact kept ⟨e, by simp, c', held, numbered⟩
      rw [change, lookup_register, if_neg (Ne.symm other_id), if_neg others_number, find?_register,
        if_neg other_name]
      refine ⟨owner, c, found, rfl, fun field => ?_⟩
      rw [lastStored_append, statics]
      rfl
    | setStatic id field value =>
      rw [owners_setStatic, change_setStatic]
      refine ⟨owner, ?_⟩
      by_cases own : id = c.image.id
      · subst own
        rw [loaded?_eq_some.2 ⟨_, owner, found⟩]
        refine ⟨_, Table.find?_insert_self .., rfl, fun other => ?_⟩
        rw [lastStored_append, Table.find?_insert]
        by_cases same : field = other <;> simp [Change.stored?, same, statics]
      · have unchanged (other : String) :
            lastStored c.image.id other (later ++ [.setStatic id field value])
              = lastStored c.image.id other later := by
          rw [lastStored_append, Change.stored?, if_neg fun both => own both.1, Option.none_or]
        simp only [unchanged]
        cases there : (after (earlier ++ .register c.image :: later)).loaded? id with
        | none => exact ⟨c, found, rfl, statics⟩
        | some c' =>
          have consistent := consistent_after (earlier ++ .register c.image :: later)
          obtain ⟨name, owner', found'⟩ := loaded?_eq_some.1 there
          obtain ⟨c'', found'', numbered⟩ := consistent.owned id name owner'
          obtain rfl := Option.some.inj (found'.symm.trans found'')
          have apart : c'.image.name ≠ c.image.name := by
            rw [consistent.named name c' found']
            rintro rfl
            obtain rfl := Option.some.inj (found'.symm.trans found)
            exact own numbered.symm
          exact ⟨c, (Table.find?_insert_of_ne _ apart _).trans found, rfl, statics⟩

/-! ## What is found -/

/-- By name the class is found that was loaded last under it.  A class that stays is found by its number,
with its static fields, unless another class that had the number is loaded again. -/
theorem after_keeps (changes : List (Change β)) :
    (∀ name, (after changes).byName? name = lastUnder name changes)
    ∧ (after changes).size = ((images changes).map ClassImage.name).eraseDups.length
    ∧ ∀ earlier d later, changes = earlier ++ .register d :: later → Stays d later →
      ((after changes).byId? d.id = some d ↔ ¬ Freed earlier d later)
      ∧ (¬ Freed earlier d later → ∀ field, (after changes).getStatic d.id field
          = .ok ((lastStored d.id field later).getD .zero)) := by
  refine ⟨byName?_after changes, ?_, ?_⟩
  · rw [← names_after, Table.names, List.length_map]
    rfl
  · rintro earlier d later rfl stays
    have kept_loaded (kept : ¬ Freed earlier d later) :
        ∃ c, (after (earlier ++ .register d :: later)).loaded? d.id = some c ∧ c.image = d
          ∧ ∀ field, (c.statics.find? field).getD .zero = (lastStored d.id field later).getD .zero := by
      obtain ⟨owner, c, found, same, statics⟩ := loaded?_of_stays stays kept
      exact ⟨c, loaded?_eq_some.2 ⟨_, owner, found⟩, same, statics⟩
    refine ⟨⟨fun found freed => ?_, fun kept => ?_⟩, fun kept field => ?_⟩
    · simp [byId?, loaded?, lookup_of_freed stays freed] at found
    · obtain ⟨c, loaded, same, -⟩ := kept_loaded kept
      rw [byId?, loaded, Option.map_some, same]
    · obtain ⟨c, loaded, -, statics⟩ := kept_loaded kept
      rw [getStatic, loaded_eq_ok.2 loaded, ← statics]
      rfl

/-- A class without members. -/
def bare (name : String) (id : ClassId) : ClassImage :=
  { name, id, superclass := none, interfaces := [], methods := ∅, staticMethods := ∅, fields := ∅
    staticFields := ∅, staticInit := Code.ofInstructions [] }

/-- A bell takes the number of a clock, which is not loaded again. -/
def bells : List Change :=
  [.register (bare "Clock" 15), .register (bare "Bell" 15), .setStatic 15 "rings" (.bool true),
    .register (bare "Gong" 16)]

theorem after_keeps_bells :
    Stays (bare "Bell" 15) [.setStatic 15 "rings" (.bool true), .register (bare "Gong" 16)]
      ∧ (after bells).byId? 15 = some (bare "Bell" 15)
      ∧ (after bells).getStatic 15 "rings" = .ok (.bool true) := by
  have stays : Stays (bare "Bell" 15)
      [.setStatic 15 "rings" (.bool true), .register (bare "Gong" 16)] := by
    simp [Stays, images, Change.image?, bare]
  have kept : ¬ Freed [.register (bare "Clock" 15)] (bare "Bell" 15)
      [.setStatic 15 "rings" (.bool true), .register (bare "Gong" 16)] := by
    simp [Freed, lastUnder, images, Change.image?, bare]
  obtain ⟨found, statics⟩ := (after_keeps bells).2.2 [.register (bare "Clock" 15)] _ _ rfl stays
  exact ⟨stays, found.2 kept, statics kept "rings"⟩

/-- Loading the clock again, under another number, hides the bell. -/
theorem loading_hides_another : ¬ ∀ (changes earlier later : List Change) (d : ClassImage),
    changes = earlier ++ .register d :: later → Stays d later →
    (after changes).byId? d.id = some d := by
  intro found
  have bell := found _ [.register (bare "Clock" 15)] [.register (bare "Clock" 16)] (bare "Bell" 15) rfl
    (by simp [Stays, images, Change.image?, bare])
  have hidden : (after [.register (bare "Clock" 15), .register (bare "Bell" 15),
      .register (bare "Clock" 16)]).byId? 15 = none := rfl
  cases hidden.symm.trans bell

end Registry

end Monogram
