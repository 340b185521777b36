import Mathlib.Data.List.Nodup
import Mathlib.Data.List.Perm.Subperm
import Monogram.Value.Dict

/-! # Maps as finite functions

A map that was made by insertions has an index that agrees with its entries, so that it is a finite
function from keys to values.  Of two such maps with as many entries, the first has the keys of the
second as soon as the second has the keys of the first.

* `Dict.Built`, `Dict.Built.indexed` — what insertions make.
* `Dict.getKey?_insertKey` — what an insertion changes.
* `Dict.covers_iff` — looking the entries of one map up in the other compares them at every key.
* `Dict.getKey?_ofEntries_perm` — entries with distinct keys may come in any order.
-/

namespace Monogram

namespace Dict

/-- Made by insertions. -/
inductive Built : Dict → Prop where
  | empty : Built .empty
  | insert {d d' : Dict} {key value : Value} (built : Built d)
      (inserted : d.insert key value = .ok d') : Built d'

/-- Every entry has a key, and the index gives the place of every key and no other. -/
structure Indexed (d : Dict) : Prop where
  keyed : ∀ entry ∈ d.entries, ∃ known, entry.1.key? = some known
  placed : ∀ known place, d.index[known]? = some place ↔
    ∃ entry : Value × Value, d.entries[place]? = some entry ∧ entry.1.key? = some known

variable {d d' xs ys : Dict} {known other : Key} {key value v w : Value}

theorem insert_eq_ok :
    d.insert key value = .ok d' ↔ ∃ known, key.key? = some known ∧ d.insertKey known key value = d' := by
  cases h : key.key? <;> simp [insert, keyOf, h, Except.map]

theorem get_eq_ok {found : Option Value} :
    d.get key = .ok found ↔ ∃ known, key.key? = some known ∧ d.getKey? known = found := by
  cases h : key.key? <;> simp [get, keyOf, h, Except.map]

@[simp] theorem getKey?_empty : Dict.empty.getKey? known = none := by
  simp [getKey?, Dict.empty]

/-! ## The index -/

theorem Indexed.empty : Indexed .empty where
  keyed := by simp [Dict.empty]
  placed := by simp [Dict.empty]

/-- A new value leaves every entry's key where it is. -/
theorem modify_keyed {entries : Array (Value × Value)} (place at_ : Nat) :
    (∃ entry, (entries.modify place fun entry => (entry.1, value))[at_]? = some entry
        ∧ entry.1.key? = some known)
      ↔ ∃ entry, entries[at_]? = some entry ∧ entry.1.key? = some known := by
  rw [Array.getElem?_modify]
  split
  · cases entries[at_]? <;> simp
  · rfl

theorem Indexed.insertKey (indexed : d.Indexed) (keyed : key.key? = some known) :
    (d.insertKey known key value).Indexed := by
  unfold Dict.insertKey
  cases found : d.index[known]? with
  | some place =>
    refine ⟨fun entry member => ?_, fun other at_ => ?_⟩
    · obtain ⟨at_, here⟩ := Array.mem_iff_getElem?.1 member
      rw [Array.getElem?_modify] at here
      split at here
      · obtain ⟨old, old_here, rfl⟩ := Option.map_eq_some_iff.1 here
        exact indexed.keyed old (Array.mem_of_getElem? old_here)
      · exact indexed.keyed entry (Array.mem_of_getElem? here)
    · exact (indexed.placed other at_).trans (modify_keyed place at_).symm
  | none =>
    -- no entry has the key, so the new one is alone with it
    have absent (place : Nat) (entry : Value × Value) (here : d.entries[place]? = some entry) :
        entry.1.key? ≠ some known := fun same => by
      have := (indexed.placed known place).2 ⟨entry, here, same⟩
      simp [found] at this
    refine ⟨fun entry member => ?_, fun other place => ?_⟩
    · obtain old | rfl := Array.mem_push.1 member
      · exact indexed.keyed entry old
      · exact ⟨known, keyed⟩
    · rw [Std.HashMap.getElem?_insert, Array.getElem?_push]
      by_cases last : place = d.entries.size
      · subst last
        by_cases same : known = other
        · simp [← same, keyed]
        · have := indexed.placed other d.entries.size
          simp_all
      · by_cases same : known = other
        · subst same
          simpa [last, eq_comm] using fun a b here => absent place (a, b) here
        · simpa [last, same] using indexed.placed other place

theorem Built.indexed (built : d.Built) : d.Indexed := by
  induction built with
  | empty => exact .empty
  | insert _ inserted ih =>
    obtain ⟨known, keyed, rfl⟩ := insert_eq_ok.1 inserted
    exact ih.insertKey keyed

/-! ## Looking up -/

theorem Indexed.getKey?_eq_some (indexed : d.Indexed) :
    d.getKey? known = some v ↔ ∃ key, (key, v) ∈ d.entries ∧ key.key? = some known := by
  constructor
  · intro found
    obtain ⟨place, placed, here⟩ := Option.bind_eq_some_iff.1 found
    obtain ⟨entry, at_place, keyed⟩ := (indexed.placed known place).1 placed
    rw [at_place] at here
    obtain rfl := Option.some.inj here
    exact ⟨entry.1, Array.mem_of_getElem? at_place, keyed⟩
  · rintro ⟨key, member, keyed⟩
    obtain ⟨place, here⟩ := Array.mem_iff_getElem?.1 member
    have placed := (indexed.placed known place).2 ⟨_, here, keyed⟩
    simp [getKey?, placed, here]

theorem Indexed.getKey?_insertKey (indexed : d.Indexed) :
    (d.insertKey known key value).getKey? other
      = if known = other then some value else d.getKey? other := by
  unfold Dict.insertKey getKey?
  cases found : d.index[known]? with
  | some place =>
    obtain ⟨entry, here, keyed⟩ := (indexed.placed known place).1 found
    by_cases same : known = other
    · simp [← same, found, Array.getElem?_modify, here]
    · cases elsewhere : d.index[other]? with
      | none => simp [same]
      | some place' =>
        obtain ⟨entry', here', keyed'⟩ := (indexed.placed other place').1 elsewhere
        have apart : place ≠ place' := by
          rintro rfl
          have := here.symm.trans here'
          simp_all
        simp [same, Array.getElem?_modify, apart]
  | none =>
    by_cases same : known = other
    · simp [← same]
    · cases elsewhere : d.index[other]? with
      | none => simp [same, Std.HashMap.getElem?_insert, elsewhere]
      | some place =>
        obtain ⟨entry, here, -⟩ := (indexed.placed other place).1 elsewhere
        have below : place ≠ d.entries.size := by
          rintro rfl
          simp at here
        simp [same, Std.HashMap.getElem?_insert, elsewhere, Array.getElem?_push, below]

/-! ## Comparing at every key -/

/-- The keys of the entries, in order. -/
def keys (d : Dict) : List (Option Key) := d.entries.toList.map fun entry => entry.1.key?

theorem length_keys : d.keys.length = d.size := by
  simp [keys, size]

theorem Indexed.nodup_keys (indexed : d.Indexed) : d.keys.Nodup := by
  rw [List.nodup_iff_getElem?_ne_getElem?]
  intro i j ij inside same
  have j_inside : j < d.entries.size := by simpa [keys] using inside
  have i_inside : i < d.entries.size := by omega
  obtain ⟨known, keyed⟩ := indexed.keyed d.entries[i] (Array.getElem_mem _)
  have same' : d.entries[i].1.key? = d.entries[j].1.key? := by
    simpa [keys, i_inside, j_inside] using same
  have at_i := (indexed.placed known i).2 ⟨_, Array.getElem?_eq_getElem i_inside, keyed⟩
  have at_j := (indexed.placed known j).2
    ⟨_, Array.getElem?_eq_getElem j_inside, same'.symm.trans keyed⟩
  have := Option.some.inj (at_i.symm.trans at_j)
  omega

theorem Indexed.mem_keys (indexed : d.Indexed) :
    some known ∈ d.keys ↔ (d.getKey? known).isSome := by
  rw [Option.isSome_iff_exists]
  simp only [indexed.getKey?_eq_some]
  simp [keys]
  grind

theorem Indexed.keys_subset (xs_indexed : xs.Indexed) (ys_indexed : ys.Indexed)
    (covered : ∀ known, (xs.getKey? known).isSome → (ys.getKey? known).isSome) :
    xs.keys ⊆ ys.keys := by
  intro name member
  obtain ⟨entry, inside, rfl⟩ := List.mem_map.1 member
  obtain ⟨known, keyed⟩ := xs_indexed.keyed entry (by simpa using inside)
  change entry.1.key? ∈ xs.keys at member
  rw [keyed] at member ⊢
  exact ys_indexed.mem_keys.2 (covered known (xs_indexed.mem_keys.1 member))

theorem Indexed.keys_perm (xs_indexed : xs.Indexed) (ys_indexed : ys.Indexed)
    (sizes : ys.size ≤ xs.size)
    (covered : ∀ known, (xs.getKey? known).isSome → (ys.getKey? known).isSome) :
    xs.keys.Perm ys.keys := by
  have inside := List.subperm_of_subset xs_indexed.nodup_keys
    (xs_indexed.keys_subset ys_indexed covered)
  exact inside.perm_of_length_le (by simpa [length_keys] using sizes)

theorem isSome_iff_of_rel {R : Value → Value → Prop} {a b : Option Value}
    (related : Option.Rel R a b) : a.isSome ↔ b.isSome := by
  cases related <;> simp

/-- Looking every entry of one map up in another one with as many entries compares the two at every
key. -/
theorem Indexed.covers_iff (xs_indexed : xs.Indexed) (ys_indexed : ys.Indexed)
    (R : Value → Value → Prop) :
    (xs.size = ys.size ∧
        ∀ entry ∈ xs.entries, ∃ w, ys.get entry.1 = .ok (some w) ∧ R entry.2 w)
      ↔ ∀ known, Option.Rel R (xs.getKey? known) (ys.getKey? known) := by
  constructor
  · rintro ⟨sizes, related⟩ known
    have found {known : Key} {v : Value} (here : xs.getKey? known = some v) :
        ∃ w, ys.getKey? known = some w ∧ R v w := by
      obtain ⟨key, member, keyed⟩ := xs_indexed.getKey?_eq_some.1 here
      obtain ⟨w, got, holds⟩ := related _ member
      obtain ⟨known', keyed', got⟩ := get_eq_ok.1 got
      obtain rfl := Option.some.inj (keyed.symm.trans keyed')
      exact ⟨w, got, holds⟩
    cases here : xs.getKey? known with
    | some v =>
      obtain ⟨w, there, holds⟩ := found here
      rw [there]
      exact .some holds
    | none =>
      -- the keys are as many, so the second map has none beyond those of the first
      have covered (known : Key) (known_here : (xs.getKey? known).isSome) :
          (ys.getKey? known).isSome := by
        obtain ⟨v, here⟩ := Option.isSome_iff_exists.1 known_here
        obtain ⟨w, there, -⟩ := found here
        exact Option.isSome_iff_exists.2 ⟨w, there⟩
      have same := xs_indexed.keys_perm ys_indexed (Nat.le_of_eq sizes.symm) covered
      cases there : ys.getKey? known with
      | none => exact .none
      | some w =>
        have := xs_indexed.mem_keys.1
          (same.mem_iff.2 (ys_indexed.mem_keys.2 (Option.isSome_iff_exists.2 ⟨w, there⟩)))
        simp [here] at this
  · intro related
    have inside := List.subperm_of_subset xs_indexed.nodup_keys
      (xs_indexed.keys_subset ys_indexed fun known => (isSome_iff_of_rel (related known)).1)
    have around := List.subperm_of_subset ys_indexed.nodup_keys
      (ys_indexed.keys_subset xs_indexed fun known => (isSome_iff_of_rel (related known)).2)
    refine ⟨?_, fun entry member => ?_⟩
    · simpa [length_keys] using (inside.antisymm around).length_eq
    · obtain ⟨known, keyed⟩ := xs_indexed.keyed entry member
      have here := xs_indexed.getKey?_eq_some.2 ⟨entry.1, member, keyed⟩
      have at_key := related known
      rw [here] at at_key
      cases there : ys.getKey? known with
      | none =>
        rw [there] at at_key
        nomatch at_key
      | some w =>
        rw [there] at at_key
        cases at_key with
        | some holds => exact ⟨w, get_eq_ok.2 ⟨known, keyed, there⟩, holds⟩

/-! ## The order of insertion -/

/-- Insertions under distinct keys: what was inserted is there, and of the rest what was there. -/
theorem Indexed.getKey?_foldlM {entries : List (Value × Value)} (indexed : d.Indexed)
    (distinct : (entries.map fun entry => entry.1.key?).Nodup)
    (made : entries.foldlM (fun d entry => d.insert entry.1 entry.2) d = .ok d') :
    d'.getKey? known = some v ↔
      (∃ key, (key, v) ∈ entries ∧ key.key? = some known)
        ∨ d.getKey? known = some v ∧ ∀ entry ∈ entries, entry.1.key? ≠ some known := by
  induction entries generalizing d with
  | nil =>
    cases made
    simp
  | cons entry rest ih =>
    obtain ⟨key, value⟩ := entry
    rw [List.foldlM_cons] at made
    cases inserted : d.insert key value with
    | error fault => simp [inserted, bind, Except.bind] at made
    | ok next =>
    simp only [inserted, bind, Except.bind] at made
    obtain ⟨first, keyed, rfl⟩ := insert_eq_ok.1 inserted
    simp only [List.map_cons, List.nodup_cons] at distinct
    rw [ih (indexed.insertKey keyed) distinct.2 made, indexed.getKey?_insertKey]
    -- The keys are distinct, so what is inserted first stands to the end.
    by_cases same : first = known
    · subst same
      have later : ∀ entry ∈ rest, entry.1.key? ≠ some first := fun entry member equal =>
        distinct.1 (List.mem_map.2 ⟨entry, member, equal.trans keyed.symm⟩)
      constructor
      · rintro (⟨key', member, keyed'⟩ | ⟨here, -⟩)
        · exact absurd keyed' (later _ member)
        · obtain rfl : value = v := by simpa using here
          exact .inl ⟨key, List.mem_cons_self, keyed⟩
      · rintro (⟨key', member, keyed'⟩ | ⟨-, none_has⟩)
        · obtain here | member := List.mem_cons.1 member
          · cases here
            exact .inr ⟨by simp, later⟩
          · exact absurd keyed' (later _ member)
        · exact absurd keyed (none_has _ List.mem_cons_self)
    · have other : key.key? ≠ some known := fun equal =>
        same (Option.some.inj (keyed.symm.trans equal))
      simp [same, other]
      grind

theorem Built.foldlM {entries : List (Value × Value)} (built : d.Built)
    (made : entries.foldlM (fun d entry => d.insert entry.1 entry.2) d = .ok d') : d'.Built := by
  induction entries generalizing d with
  | nil =>
    cases made
    exact built
  | cons entry rest ih =>
    rw [List.foldlM_cons] at made
    cases inserted : d.insert entry.1 entry.2 with
    | error fault => simp [inserted, bind, Except.bind] at made
    | ok next =>
      simp only [inserted, bind, Except.bind] at made
      exact ih (built.insert inserted) made

/-- Entries with distinct keys may be given in any order. -/
theorem getKey?_ofEntries_perm {entries entries' : List (Value × Value)}
    (distinct : (entries.map fun entry => entry.1.key?).Nodup) (perm : entries.Perm entries')
    (made : ofEntries entries = .ok d) (made' : ofEntries entries' = .ok d') :
    d.getKey? known = d'.getKey? known := by
  have distinct' := (perm.map fun entry => entry.1.key?).nodup_iff.1 distinct
  ext v
  rw [Indexed.empty.getKey?_foldlM distinct made, Indexed.empty.getKey?_foldlM distinct' made']
  simp [perm.mem_iff]

end Dict

end Monogram
