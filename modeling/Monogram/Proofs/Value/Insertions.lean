import Monogram.Proofs.Number.Bits
import Monogram.Proofs.Value.Bisimilarity

/-! # A map made by insertions

What a map knows of a key is the same for two keys exactly when these are equal as values.  So a map
after any insertions is the finite function from values, up to equality, that the insertions describe:
each key has the value that was inserted last, and the entries stand in the order in which the keys came
up first.

* `Heap.equal_iff_key` — equal keys are keys of which a map knows the same.
* `firsts`, `latest` — what insertions describe.
* `Dict.after`, `Dict.Refines` — a map after insertions, and what it is to be.
* `Dict.after_refines` — it is that.
-/

namespace Monogram

/-! ## Keys and equality -/

namespace Value

/-- Whether a value is a list or a map. -/
def isContainer : Value → Bool
  | .list _ | .map _ => true
  | _ => false

/-- Other than an undefined number. -/
def Defined (v : Value) : Prop := ∀ negative, v ≠ .number (.undefined negative)

theorem key?_eq_none {v : Value} : v.key? = none ↔ v.isContainer = true := by
  cases v <;> simp [key?, isContainer, number?]

theorem exists_key {v : Value} (scalar : v.isContainer = false) : ∃ known, v.key? = some known := by
  cases keyed : v.key? with
  | none => simp [key?_eq_none.1 keyed] at scalar
  | some known => exact ⟨known, rfl⟩

theorem key?_of_number {v : Value} {x : Number} (counts : v.number? = some x) :
    v.key? = some (Key.ofNumber x) := by
  cases v <;> simp_all [number?, key?]

end Value

theorem Heap.equalAt_of_numbers {β : Type} {h : Heap β} {depth : Nat} {assumed : Heap.Assumed}
    {a b : Value} {x y : Number} (left : a.number? = some x) (right : b.number? = some y) :
    h.equalAt (depth + 1) assumed a b = some (x.equal y) := by
  cases a <;> cases b <;> simp_all [Heap.equalAt, Value.number?]

/-- What a map knows of a number is the key of a number. -/
theorem Key.ofNumber_apart (x : Number) : Key.ofNumber x ≠ .nil ∧ Key.ofNumber x ≠ .system
    ∧ (∀ s, Key.ofNumber x ≠ .string s) ∧ ∀ address, Key.ofNumber x ≠ .object address := by
  cases x <;> simp [Key.ofNumber]

/-- A key is equal to the values of which a map knows the same. -/
theorem Heap.equal_iff_key {β : Type} (h : Heap β) {a b : Value} (a_defined : a.Defined)
    (b_defined : b.Defined) (scalar : a.isContainer = false) :
    h.equal a b = true ↔ a.key? = b.key? := by
  obtain ⟨depth, deep⟩ : ∃ depth, h.equalDepth = depth + 1 := ⟨_, rfl⟩
  rw [Heap.equal, deep]
  cases left : a.number? with
  | some x =>
    cases right : b.number? with
    | some y =>
      rw [Heap.equalAt_of_numbers left right, Value.key?_of_number left, Value.key?_of_number right,
        Option.getD_some, Option.some.injEq]
      exact Number.equal_iff_key (Matches.number?_defined left a_defined)
        (Matches.number?_defined right b_defined)
    | none =>
      have apart := Key.ofNumber_apart x
      rw [Value.key?_of_number left]
      cases a <;> cases b <;> simp_all [Heap.equalAt, Value.number?, Value.key?]
  | none =>
    cases right : b.number? with
    | some y =>
      have apart := Key.ofNumber_apart y
      rw [Value.key?_of_number right, @eq_comm _ a.key?]
      cases a <;> cases b <;> simp_all [Heap.equalAt, Value.number?, Value.key?]
    | none =>
      cases a <;> cases b <;>
        simp_all [Heap.equalAt, Value.number?, Value.key?, Value.isContainer]

/-! ## What insertions describe -/

/-- The values other than those that equal an earlier one. -/
def firsts (same : Value → Value → Bool) : List Value → List Value
  | [] => []
  | v :: rest => v :: (firsts same rest).filter fun w => !same v w

/-- The value of the last insertion whose key is the same as `key`. -/
def latest (same : Value → Value → Bool) (insertions : List (Value × Value)) (key : Value) :
    Option Value :=
  (insertions.reverse.find? fun entry => same entry.1 key).map Prod.snd

section
variable {same same' : Value → Value → Bool} {keys : List Value} {v w key value : Value}
  {insertions : List (Value × Value)}

theorem mem_of_mem_firsts (member : v ∈ firsts same keys) : v ∈ keys := by
  induction keys with
  | nil => exact member
  | cons w rest ih =>
    rcases List.mem_cons.1 member with rfl | later
    · exact List.mem_cons_self
    · exact List.mem_cons_of_mem _ (ih (List.mem_filter.1 later).1)

theorem firsts_append : firsts same (keys ++ [v])
    = firsts same keys ++ if keys.any (same · v) then [] else [v] := by
  induction keys with
  | nil => rfl
  | cons w rest ih =>
    rw [List.cons_append, firsts, ih, List.filter_append, firsts, List.cons_append, List.any_cons]
    cases here : same w v <;> cases later : rest.any (same · v) <;> simp [here]

/-- No two of them are the same. -/
theorem firsts_pairwise : (firsts same keys).Pairwise fun v w => same v w = false := by
  induction keys with
  | nil => exact .nil
  | cons v rest ih =>
    refine .cons (fun w later => ?_) (ih.filter _)
    simpa using (List.mem_filter.1 later).2

/-- Each value is the same as one of them. -/
theorem firsts_cover (refl : ∀ v ∈ keys, same v v = true)
    (trans : ∀ u v w, same u v = true → same v w = true → same u w = true) (member : v ∈ keys) :
    ∃ w ∈ firsts same keys, same w v = true := by
  induction keys with
  | nil => nomatch member
  | cons u rest ih =>
    by_cases here : same u v = true
    · exact ⟨u, List.mem_cons_self, here⟩
    · have later : v ∈ rest := by
        rcases List.mem_cons.1 member with rfl | later
        · exact absurd (refl v List.mem_cons_self) here
        · exact later
      obtain ⟨w, found, equal⟩ := ih (fun v member => refl v (List.mem_cons_of_mem _ member)) later
      have kept : same u w = false :=
        Bool.eq_false_iff.2 fun earlier => here (trans u w v earlier equal)
      exact ⟨w, List.mem_cons_of_mem _ (List.mem_filter.2 ⟨found, by simp [kept]⟩), equal⟩

theorem firsts_congr (alike : ∀ v ∈ keys, ∀ w ∈ keys, same v w = same' v w) :
    firsts same keys = firsts same' keys := by
  induction keys with
  | nil => rfl
  | cons v rest ih =>
    rw [firsts, firsts, ih fun v first w second =>
      alike v (List.mem_cons_of_mem _ first) w (List.mem_cons_of_mem _ second)]
    congr 1
    refine List.filter_congr fun w member => ?_
    rw [alike v List.mem_cons_self w (List.mem_cons_of_mem _ (mem_of_mem_firsts member))]

theorem latest_append : latest same (insertions ++ [(key, value)]) v
    = if same key v then some value else latest same insertions v := by
  rw [latest, List.reverse_append, List.reverse_singleton, List.singleton_append, List.find?_cons]
  cases same key v <;> rfl

theorem latest_congr (alike : ∀ entry ∈ insertions, same entry.1 key = same' entry.1 key) :
    latest same insertions key = latest same' insertions key := by
  induction insertions using List.reverseRecOn with
  | nil => rfl
  | append_singleton front entry ih =>
    rw [latest_append, latest_append, alike entry (by simp),
      ih fun earlier member => alike earlier (List.mem_append_left _ member)]

theorem isSome_latest : (latest same insertions key).isSome
    = (insertions.map Prod.fst).any (same · key) := by
  rw [latest, Option.isSome_map, Bool.eq_iff_iff]
  simp [List.find?_isSome]

end

/-! ## A map after insertions -/

namespace Dict

/-- The map after an insertion was attempted. -/
def take (d : Dict) (entry : Value × Value) : Dict :=
  match d.insert entry.1 entry.2 with
  | .ok d' => d'
  | .error _ => d

/-- The map that insertions, one after the other, leave behind. -/
def after (insertions : List (Value × Value)) : Dict := insertions.foldl take .empty

/-- The insertions that are possible: those under other keys than lists and maps. -/
def possible (insertions : List (Value × Value)) : List (Value × Value) :=
  insertions.filter fun entry => !entry.1.isContainer

variable {d : Dict} {insertions : List (Value × Value)} {key value : Value} {known : Key}

theorem insert_of_container (container : key.isContainer = true) :
    d.insert key value = .error (.unhashableKey key.sort) := by
  simp [insert, keyOf, Value.key?_eq_none.2 container, Except.map]

theorem insert_of_scalar (scalar : key.isContainer = false) :
    ∃ d', d.insert key value = .ok d' := by
  obtain ⟨known, keyed⟩ := Value.exists_key scalar
  exact ⟨_, insert_eq_ok.2 ⟨known, keyed, rfl⟩⟩

theorem after_append (entry : Value × Value) :
    after (insertions ++ [entry]) = (after insertions).take entry := by
  rw [after, List.foldl_append]
  rfl

/-- An insertion that is not possible changes nothing. -/
theorem take_of_container (container : key.isContainer = true) : d.take (key, value) = d := by
  rw [take, insert_of_container container]

theorem take_of_key (keyed : key.key? = some known) :
    d.take (key, value) = d.insertKey known key value := by
  rw [take, insert_eq_ok.2 ⟨known, keyed, rfl⟩]

theorem possible_append_container (container : key.isContainer = true) :
    possible (insertions ++ [(key, value)]) = possible insertions := by
  simp [possible, container]

theorem possible_append_scalar (scalar : key.isContainer = false) :
    possible (insertions ++ [(key, value)]) = possible insertions ++ [(key, value)] := by
  simp [possible, scalar]

theorem built_after : (after insertions).Built := by
  induction insertions using List.reverseRecOn with
  | nil => exact .empty
  | append_singleton front entry ih =>
    rw [after_append, take]
    split
    · next inserted => exact ih.insert inserted
    · exact ih

/-- Whether a map knows the same of two keys. -/
def sameKey (a b : Value) : Bool := a.key? == b.key?

/-- Looking a key up gives what was inserted last under it. -/
theorem getKey?_after (keyed : key.key? = some known) :
    (after insertions).getKey? known = latest sameKey (possible insertions) key := by
  induction insertions using List.reverseRecOn with
  | nil => exact getKey?_empty
  | append_singleton front entry ih =>
    obtain ⟨new, value⟩ := entry
    rw [after_append]
    cases container : new.isContainer with
    | true => rw [take_of_container container, possible_append_container container, ih]
    | false =>
      obtain ⟨first, new_keyed⟩ := Value.exists_key container
      rw [take_of_key new_keyed, possible_append_scalar container, latest_append,
        built_after.indexed.getKey?_insertKey, ih]
      simp [sameKey, new_keyed, keyed]

theorem Indexed.isSome_getKey? (indexed : d.Indexed) :
    (d.getKey? known).isSome = d.index[known]?.isSome := by
  cases found : d.index[known]? with
  | none => simp [getKey?, found]
  | some place =>
    obtain ⟨entry, here, -⟩ := (indexed.placed known place).1 found
    simp [getKey?, found, here]

/-- The keys of the entries after an insertion: a new key goes behind the others. -/
theorem keys_insertKey : (d.insertKey known key value).entries.toList.map Prod.fst
    = d.entries.toList.map Prod.fst ++ if d.index[known]?.isSome then [] else [key] := by
  unfold insertKey
  cases d.index[known]? with
  | none => simp
  | some place =>
    refine List.ext_getElem? fun at_ => ?_
    simp only [Array.toList_modify, List.getElem?_map, List.getElem?_modify, Option.isSome_some, if_true,
      List.append_nil]
    cases d.entries.toList[at_]? with
    | none => rfl
    | some entry => simp only [Option.map_eq_map, Option.map_some]; split <;> rfl

/-- The keys of the entries are those that came up first. -/
theorem keys_after : (after insertions).entries.toList.map Prod.fst
    = firsts sameKey ((possible insertions).map Prod.fst) := by
  induction insertions using List.reverseRecOn with
  | nil => rfl
  | append_singleton front entry ih =>
    obtain ⟨new, value⟩ := entry
    rw [after_append]
    cases container : new.isContainer with
    | true => rw [take_of_container container, possible_append_container container, ih]
    | false =>
      obtain ⟨first, new_keyed⟩ := Value.exists_key container
      rw [take_of_key new_keyed, possible_append_scalar container, List.map_append, List.map_singleton,
        firsts_append, keys_insertKey, ih, ← built_after.indexed.isSome_getKey?, getKey?_after new_keyed,
        isSome_latest]

/-! ## Keys up to equality -/

/-- A map is the finite function from keys, up to `same`, that the insertions describe: what each key
is looked up as, the entries in order, and the place of each entry. -/
structure Refines (d : Dict) (same : Value → Value → Bool) (insertions : List (Value × Value)) :
    Prop where
  get : ∀ key : Value, key.Defined → key.isContainer = false →
    d.get key = .ok (latest same insertions key)
  keys : d.entries.toList.map Prod.fst = firsts same (insertions.map Prod.fst)
  values : ∀ entry ∈ d.entries, latest same insertions entry.1 = some entry.2
  /-- No two entries for one class of keys. -/
  distinct : d.entries.toList.Pairwise fun a b => same a.1 b.1 = false
  /-- An entry for each class of keys. -/
  covered : ∀ insertion ∈ insertions, ∃ entry ∈ d.entries, same entry.1 insertion.1 = true
  size : d.size = (firsts same (insertions.map Prod.fst)).length
  indexed : d.Indexed

theorem mem_possible {insertion : Value × Value} :
    insertion ∈ possible insertions ↔ insertion ∈ insertions ∧ insertion.1.isContainer = false := by
  simp [possible]

/-- Every entry has a key that came up. -/
theorem key_possible {entry : Value × Value} (member : entry ∈ (after insertions).entries) :
    entry.1 ∈ (possible insertions).map Prod.fst := by
  have came_first : entry.1 ∈ firsts sameKey ((possible insertions).map Prod.fst) := by
    rw [← keys_after]
    exact List.mem_map_of_mem (Array.mem_toList_iff.2 member)
  exact mem_of_mem_firsts came_first

theorem insert_fails_iff :
    (∃ fault, d.insert key value = .error fault) ↔ key.isContainer = true := by
  constructor
  · rintro ⟨fault, failed⟩
    cases scalar : key.isContainer with
    | true => rfl
    | false =>
      obtain ⟨d', inserted⟩ : ∃ d', d.insert key value = .ok d' := insert_of_scalar scalar
      rw [inserted] at failed
      nomatch failed
  · exact fun container => ⟨_, insert_of_container container⟩

section
variable {β : Type} {h : Heap β}

theorem equal_eq_sameKey {a b : Value} (a_defined : a.Defined) (b_defined : b.Defined)
    (scalar : a.isContainer = false) : h.equal a b = sameKey a b := by
  rw [Bool.eq_iff_iff, h.equal_iff_key a_defined b_defined scalar, sameKey, beq_iff_eq]

variable (defined : ∀ insertion ∈ insertions, insertion.1.Defined)
include defined

theorem defined_of_possible {v : Value} (member : v ∈ (possible insertions).map Prod.fst) :
    v.Defined ∧ v.isContainer = false := by
  obtain ⟨insertion, inside, rfl⟩ := List.mem_map.1 member
  obtain ⟨given, scalar⟩ := mem_possible.1 inside
  exact ⟨defined _ given, scalar⟩

theorem latest_equal (key_defined : key.Defined) :
    latest h.equal (possible insertions) key = latest sameKey (possible insertions) key :=
  latest_congr fun entry member =>
    have ⟨given, scalar⟩ := mem_possible.1 member
    equal_eq_sameKey (defined entry given) key_defined scalar

theorem keys_after_equal : (after insertions).entries.toList.map Prod.fst
    = firsts h.equal ((possible insertions).map Prod.fst) := by
  rw [keys_after]
  refine firsts_congr fun v first w second => (equal_eq_sameKey ?_ ?_ ?_).symm
  · exact (defined_of_possible defined first).1
  · exact (defined_of_possible defined second).1
  · exact (defined_of_possible defined first).2

/-- Each key that came up is equal to the key of an entry. -/
theorem covered_after {insertion : Value × Value} (inside : insertion ∈ possible insertions) :
    ∃ entry ∈ (after insertions).entries, h.equal entry.1 insertion.1 = true := by
  have member := List.mem_map_of_mem (f := Prod.fst) inside
  have refl (v : Value) : sameKey v v = true := by simp [sameKey]
  have trans (u v w : Value) (first : sameKey u v = true) (second : sameKey v w = true) :
      sameKey u w = true := by simp_all [sameKey]
  obtain ⟨w, found, equal⟩ := firsts_cover (fun v _ => refl v) trans member
  rw [← keys_after] at found
  obtain ⟨entry, here, rfl⟩ := List.mem_map.1 found
  have here := Array.mem_toList_iff.1 here
  obtain ⟨entry_defined, scalar⟩ := defined_of_possible defined (key_possible here)
  have insertion_defined := (defined_of_possible defined member).1
  exact ⟨entry, here, (equal_eq_sameKey entry_defined insertion_defined scalar).trans equal⟩

end

/-- A map after insertions is the finite function, up to equality of values, that the possible
insertions describe.  An insertion fails when its key is a list or a map, and then changes nothing. -/
theorem after_refines {β : Type} (h : Heap β) (insertions : List (Value × Value))
    (defined : ∀ insertion ∈ insertions, insertion.1.Defined) :
    (after insertions).Refines h.equal (possible insertions)
      ∧ ∀ key value,
        ((∃ fault, (after insertions).insert key value = .error fault) ↔ key.isContainer = true)
          ∧ (key.isContainer = true →
            (after insertions).insert key value = .error (.unhashableKey key.sort)
              ∧ after (insertions ++ [(key, value)]) = after insertions) := by
  have indexed : (after insertions).Indexed := built_after.indexed
  have keys := keys_after_equal (h := h) defined
  refine ⟨⟨?get, keys, ?values, ?distinct, ?covered, ?size, indexed⟩, ?failing⟩
  case get =>
    intro key key_defined scalar
    obtain ⟨known, keyed⟩ := Value.exists_key scalar
    refine get_eq_ok.2 ⟨known, keyed, ?_⟩
    rw [getKey?_after keyed, latest_equal defined key_defined]
  case values =>
    intro entry member
    obtain ⟨known, keyed⟩ := indexed.keyed entry member
    rw [latest_equal defined (defined_of_possible defined (key_possible member)).1,
      ← getKey?_after keyed]
    exact indexed.getKey?_eq_some.2 ⟨entry.1, member, keyed⟩
  case distinct =>
    have apart : ((after insertions).entries.toList.map Prod.fst).Pairwise fun v w =>
        h.equal v w = false := by
      rw [keys]
      exact firsts_pairwise
    exact List.pairwise_map.1 apart
  case covered => exact fun insertion inside => covered_after defined inside
  case size => rw [← keys, List.length_map, Array.length_toList, size]
  case failing =>
    intro key value
    refine ⟨insert_fails_iff, fun container => ⟨insert_of_container container, ?_⟩⟩
    rw [after_append, take_of_container container]

/-- A number, the truth value that equals it, and a list. -/
def uno : List (Value × Value) :=
  [(.number 1, .string "one"), (.bool true, .string "uno"), (.list 0, .nil), (.object 0, .nil)]

theorem uno_defined : ∀ insertion ∈ uno, insertion.1.Defined := by
  simp [uno, Value.Defined]
  exact ⟨Number.ofNat_defined 1 false, Number.ofNat_defined 1 true⟩

theorem after_refines_uno :
    (∀ insertion ∈ uno, insertion.1.Defined)
      ∧ (after uno).Refines (Heap.empty (β := Code)).equal (possible uno)
      ∧ (after uno).get (.classRef 1) = .ok (some (.string "uno")) := by
  have refines := (after_refines (Heap.empty (β := Code)) uno uno_defined).1
  refine ⟨uno_defined, refines, (refines.get (.classRef 1) nofun rfl).trans ?_⟩
  rfl

end Dict

end Monogram
