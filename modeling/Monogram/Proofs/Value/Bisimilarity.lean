import Mathlib.Data.List.Forall2
import Mathlib.Data.List.ProdSigma
import Monogram.Proofs.Number.Equality
import Monogram.Proofs.Value.Dict
import Monogram.Value.Equality

/-! # Equality is bisimilarity

Values match up to a relation when they look the same from the outside and the relation holds
between what they contain.  Two values are bisimilar when some relation between them is closed under
matching.  The comparison, which takes a pair as equal while it is being compared, finds out exactly
that, however the containers of the heap contain one another.

* `Heap.Matches`, `Heap.Bisimilar` — the relation, without an algorithm.
* `Heap.near_of_equalAt` — what the comparison accepts matches to every depth.
* `Heap.equalAt_ne_false` — what is bisimilar is never refused.
* `Heap.isSome_equalAt` — the comparison comes to an end.
* `Heap.equal_iff_bisimilar` — all of it together, with what follows for the order of insertion.
-/

namespace Monogram

namespace Heap

variable {β : Type} {h : Heap β} {R S : Value → Value → Prop} {a b c : Value}

/-- Looking the same from the outside, with related contents.  Scalars are compared as they are,
objects by identity. -/
inductive Matches (h : Heap β) (R : Value → Value → Prop) : Value → Value → Prop where
  | nil : Matches h R .nil .nil
  | system : Matches h R .system .system
  | string (s : String) : Matches h R (.string s) (.string s)
  | number {a b : Value} {x y : Number} (left : a.number? = some x) (right : b.number? = some y)
      (equal : x.equal y = true) : Matches h R a b
  | object (x : Address) : Matches h R (.object x) (.object x)
  | sameList (x : Address) : Matches h R (.list x) (.list x)
  | list {x y : Address} (elements : List.Forall₂ R (h.list x).toList (h.list y).toList) :
      Matches h R (.list x) (.list y)
  | sameMap (x : Address) : Matches h R (.map x) (.map x)
  | map {x y : Address}
      (values : ∀ known, Option.Rel R ((h.map x).getKey? known) ((h.map y).getKey? known)) :
      Matches h R (.map x) (.map y)

/-- The greatest relation whose pairs match up to itself. -/
def Bisimilar (h : Heap β) (a b : Value) : Prop :=
  ∃ R, (∀ v w, R v w → h.Matches R v w) ∧ R a b

/-! ## Relations between optional values and between lists -/

theorem rel_mono {a b : Option Value} (weaker : ∀ v w, R v w → S v w) (related : Option.Rel R a b) :
    Option.Rel S a b := by
  cases related with
  | some holds => exact .some (weaker _ _ holds)
  | none => exact .none

theorem rel_flip {a b : Option Value} (related : Option.Rel R a b) : Option.Rel (flip R) b a := by
  cases related with
  | some holds => exact .some holds
  | none => exact .none

theorem rel_comp {a b c : Option Value} (first : Option.Rel R a b) (second : Option.Rel S b c) :
    Option.Rel (fun v w => ∃ u, R v u ∧ S u w) a c := by
  cases first with
  | none => cases second; exact .none
  | some holds =>
    cases second with
    | some holds' => exact .some ⟨_, holds, holds'⟩

theorem rel_forall {R : Nat → Value → Value → Prop} {a b : Option Value}
    (related : ∀ n, Option.Rel (R n) a b) : Option.Rel (fun v w => ∀ n, R n v w) a b := by
  cases a with
  | none =>
    cases related 0
    exact .none
  | some v =>
    cases b with
    | none => nomatch related 0
    | some w =>
      refine .some fun n => ?_
      cases related n with
      | some holds => exact holds

theorem forall₂_comp : ∀ {xs ys zs : List Value}, List.Forall₂ R xs ys → List.Forall₂ S ys zs →
    List.Forall₂ (fun v w => ∃ u, R v u ∧ S u w) xs zs
  | [], [], [], .nil, .nil => .nil
  | _ :: _, _ :: _, _ :: _, .cons holds first, .cons holds' second =>
    .cons ⟨_, holds, holds'⟩ (forall₂_comp first second)

theorem forall₂_forall {R : Nat → Value → Value → Prop} {xs ys : List Value}
    (related : ∀ n, List.Forall₂ (R n) xs ys) : List.Forall₂ (fun v w => ∀ n, R n v w) xs ys := by
  induction xs generalizing ys with
  | nil =>
    cases related 0
    exact .nil
  | cons x xs ih =>
    cases ys with
    | nil => nomatch related 0
    | cons y ys =>
      simp only [List.forall₂_cons] at related
      exact .cons (fun n => (related n).1) (ih fun n => (related n).2)

/-! ## Matching -/

namespace Matches

theorem mono (weaker : ∀ v w, R v w → S v w) (matched : h.Matches R a b) : h.Matches S a b := by
  cases matched with
  | nil => exact .nil
  | system => exact .system
  | string s => exact .string s
  | number left right equal => exact .number left right equal
  | object x => exact .object x
  | sameList x => exact .sameList x
  | list elements => exact .list (elements.imp weaker)
  | sameMap x => exact .sameMap x
  | map values => exact .map fun known => rel_mono weaker (values known)

/-- Truth values and classes count as defined numbers. -/
theorem number?_defined {x : Number} (counts : a.number? = some x)
    (defined : ∀ negative, a ≠ .number (.undefined negative)) (negative : Bool) :
    x ≠ .undefined negative := by
  cases a with
  | number y =>
    obtain rfl : y = x := by simpa [Value.number?] using counts
    exact fun same => defined negative (same ▸ rfl)
  | bool b =>
    obtain rfl : Number.ofNat (if b then 1 else 0) = x := by
      cases b <;> exact Option.some.inj counts
    exact Number.ofNat_defined _ _
  | classRef id =>
    obtain rfl : Number.ofNat id = x := by simpa [Value.number?] using counts
    exact Number.ofNat_defined _ _
  | nil | system | string | object | list | map => simp [Value.number?] at counts

/-- Everything but a bare undefined number matches itself. -/
theorem refl (defined : ∀ negative, a ≠ .number (.undefined negative)) : h.Matches R a a := by
  have counting {x : Number} (counts : a.number? = some x) : h.Matches R a a :=
    .number counts counts (Number.equal_self.2 (number?_defined counts defined))
  cases a with
  | nil => exact .nil
  | system => exact .system
  | string s => exact .string s
  | number | bool | classRef => exact counting rfl
  | object x => exact .object x
  | list x => exact .sameList x
  | map x => exact .sameMap x

theorem symm (matched : h.Matches R a b) : h.Matches (flip R) b a := by
  cases matched with
  | nil => exact .nil
  | system => exact .system
  | string s => exact .string s
  | number left right equal => exact .number right left (Number.equal_symm equal)
  | object x => exact .object x
  | sameList x => exact .sameList x
  | list elements => exact .list elements.flip
  | sameMap x => exact .sameMap x
  | map values => exact .map fun known => rel_flip (values known)

/-! What matches a value of a known shape. -/

theorem of_number? {x : Number} (counts : a.number? = some x) (matched : h.Matches R a b) :
    ∃ y, b.number? = some y ∧ x.equal y = true := by
  cases matched with
  | number left right equal =>
    obtain rfl := Option.some.inj (counts.symm.trans left)
    exact ⟨_, right, equal⟩
  | nil | system | string | object | sameList | list | sameMap | map =>
    simp [Value.number?] at counts

theorem of_list {x : Address} (matched : h.Matches R (.list x) b) :
    ∃ y, b = .list y ∧ (x = y ∨ List.Forall₂ R (h.list x).toList (h.list y).toList) := by
  cases matched with
  | sameList => exact ⟨x, rfl, .inl rfl⟩
  | list elements => exact ⟨_, rfl, .inr elements⟩
  | number left => simp [Value.number?] at left

theorem of_map {x : Address} (matched : h.Matches R (.map x) b) :
    ∃ y, b = .map y ∧
      (x = y ∨ ∀ known, Option.Rel R ((h.map x).getKey? known) ((h.map y).getKey? known)) := by
  cases matched with
  | sameMap => exact ⟨x, rfl, .inl rfl⟩
  | map values => exact ⟨_, rfl, .inr values⟩
  | number left => simp [Value.number?] at left

/-- Matching twice is matching up to what is related directly or by way of a third value: containers
that are the same one have no relation between their contents. -/
theorem trans (first : h.Matches R a b) (second : h.Matches R b c) :
    h.Matches (fun v w => R v w ∨ ∃ u, R v u ∧ R u w) a c := by
  have atom (same : a = b) : h.Matches (fun v w => R v w ∨ ∃ u, R v u ∧ R u w) a c := by
    subst same
    exact second.mono fun _ _ => .inl
  cases first with
  | nil | system | string | object | sameList | sameMap => exact atom rfl
  | number left right equal =>
    obtain ⟨z, last, equal'⟩ := of_number? right second
    exact .number left last (Number.equal_trans equal equal')
  | list elements =>
    obtain ⟨z, rfl, rfl | elements'⟩ := of_list second
    · exact .list (elements.imp fun _ _ => .inl)
    · exact .list ((forall₂_comp elements elements').imp fun _ _ => .inr)
  | map values =>
    obtain ⟨z, rfl, rfl | values'⟩ := of_map second
    · exact .map fun known => rel_mono (fun _ _ => .inl) (values known)
    · exact .map fun known => rel_mono (fun _ _ => .inr) (rel_comp (values known) (values' known))

/-- Matching up to each of a sequence of relations is matching up to all of them at once. -/
theorem forall_nat {R : Nat → Value → Value → Prop} (matched : ∀ n, h.Matches (R n) a b) :
    h.Matches (fun v w => ∀ n, R n v w) a b := by
  cases matched 0 with
  | nil => exact .nil
  | system => exact .system
  | string s => exact .string s
  | number left right equal => exact .number left right equal
  | object x => exact .object x
  | sameList x => exact .sameList x
  | sameMap x => exact .sameMap x
  | @list x y _ =>
    by_cases same : x = y
    · subst same
      exact .sameList x
    · refine .list (forall₂_forall fun n => ?_)
      obtain ⟨z, equal, same' | elements⟩ := of_list (matched n)
      · cases equal
        exact absurd same' same
      · cases equal
        exact elements
  | @map x y _ =>
    by_cases same : x = y
    · subst same
      exact .sameMap x
    · refine .map fun known => rel_forall fun n => ?_
      obtain ⟨z, equal, same' | values⟩ := of_map (matched n)
      · cases equal
        exact absurd same' same
      · cases equal
        exact values known

end Matches

/-! ## Bisimilar values -/

theorem bisimilar_iff : h.Bisimilar a b ↔ h.Matches h.Bisimilar a b := by
  constructor
  · rintro ⟨R, closed, holds⟩
    exact (closed a b holds).mono fun v w holds => ⟨R, closed, holds⟩
  · intro matched
    -- matching up to bisimilarity is itself closed
    refine ⟨h.Matches h.Bisimilar, fun v w matched => matched.mono ?_, matched⟩
    rintro v w ⟨R, closed, holds⟩
    exact (closed v w holds).mono fun v w holds => ⟨R, closed, holds⟩

theorem Bisimilar.refl (defined : ∀ negative, a ≠ .number (.undefined negative)) : h.Bisimilar a a :=
  bisimilar_iff.2 (.refl defined)

theorem Bisimilar.symm (similar : h.Bisimilar a b) : h.Bisimilar b a :=
  ⟨flip h.Bisimilar, fun _ _ similar => (bisimilar_iff.1 similar).symm, similar⟩

theorem Bisimilar.trans (first : h.Bisimilar a b) (second : h.Bisimilar b c) : h.Bisimilar a c := by
  refine ⟨fun v w => h.Bisimilar v w ∨ ∃ u, h.Bisimilar v u ∧ h.Bisimilar u w, ?_,
    .inr ⟨b, first, second⟩⟩
  rintro v w (similar | ⟨u, first, second⟩)
  · exact (bisimilar_iff.1 similar).mono fun _ _ => .inl
  · exact (bisimilar_iff.1 first).trans (bisimilar_iff.1 second)

/-- Matching to a depth. -/
def Near (h : Heap β) : Nat → Value → Value → Prop
  | 0, _, _ => True
  | n + 1, a, b => h.Matches (h.Near n) a b

theorem Near.pred : ∀ {n : Nat} {a b : Value}, h.Near (n + 1) a b → h.Near n a b
  | 0, _, _, _ => trivial
  | _ + 1, _, _, matched => Matches.mono (fun _ _ => Near.pred) matched

/-- What matches to every depth is bisimilar. -/
theorem bisimilar_of_near (near : ∀ n, h.Near n a b) : h.Bisimilar a b :=
  ⟨fun v w => ∀ n, h.Near n v w, fun _ _ near => .forall_nat fun n => near (n + 1), near⟩

/-- Heaps with the same lists and maps with the same values at every key match the same. -/
theorem Matches.of_alike {h' : Heap β} (lists : h'.lists = h.lists)
    (maps : ∀ x known, (h'.map x).getKey? known = (h.map x).getKey? known)
    (matched : h.Matches R a b) : h'.Matches R a b := by
  have list (x : Address) : h'.list x = h.list x := by simp [Heap.list, lists]
  cases matched with
  | nil => exact .nil
  | system => exact .system
  | string s => exact .string s
  | number left right equal => exact .number left right equal
  | object x => exact .object x
  | sameList x => exact .sameList x
  | list elements => exact .list (by simpa [list] using elements)
  | sameMap x => exact .sameMap x
  | map values => exact .map fun known => by simpa [maps] using values known

theorem Bisimilar.of_alike {h' : Heap β} (lists : h'.lists = h.lists)
    (maps : ∀ x known, (h'.map x).getKey? known = (h.map x).getKey? known)
    (similar : h.Bisimilar a b) : h'.Bisimilar a b := by
  obtain ⟨R, closed, holds⟩ := similar
  exact ⟨R, fun v w holds => (closed v w holds).of_alike lists maps, holds⟩

/-! ## The comparison, one level deep -/

theorem allM_eq_true {α : Type} {p : α → Option Bool} {l : List α} :
    l.allM p = some true ↔ ∀ x ∈ l, p x = some true := by
  induction l with
  | nil => simp [List.allM]
  | cons x l ih =>
    rw [List.allM, List.forall_mem_cons, ← ih]
    rcases p x with _ | _ | _ <;> simp

theorem allM_ne_false {α : Type} {p : α → Option Bool} {l : List α}
    (never : ∀ x ∈ l, p x ≠ some false) : l.allM p ≠ some false := by
  induction l with
  | nil => simp [List.allM]
  | cons x l ih =>
    obtain ⟨first, rest⟩ := List.forall_mem_cons.1 never
    rw [List.allM]
    rcases here : p x with _ | _ | _
    · simp
    · exact absurd here first
    · exact ih rest

theorem isSome_allM {α : Type} {p : α → Option Bool} {l : List α}
    (ends : ∀ x ∈ l, (p x).isSome) : (l.allM p).isSome := by
  induction l with
  | nil => rfl
  | cons x l ih =>
    obtain ⟨first, rest⟩ := List.forall_mem_cons.1 ends
    rw [List.allM]
    rcases here : p x with _ | _ | _
    · simp [here] at first
    · rfl
    · exact ih rest

/-- Two lists or two maps, the pairs that the comparison remembers. -/
def pair? : Value → Value → Option (Container × Container)
  | .list x, .list y => some (.list x, .list y)
  | .map x, .map y => some (.map x, .map y)
  | _, _ => none

theorem pair?_injective {v w : Value} {p : Container × Container} (first : pair? a b = some p)
    (second : pair? v w = some p) : v = a ∧ w = b := by
  unfold pair? at first second
  split at first <;> split at second <;> simp_all
  all_goals
    subst first
    simp_all

/-- The pairs under comparison while the contents of two values are compared. -/
def under (a b : Value) (assumed : Assumed) : Assumed := (pair? a b).toList ++ assumed

variable {depth : Nat} {assumed : Assumed}

/-- What is accepted is assumed, or matches as far as the contents are accepted. -/
theorem matches_of_equalAt (indexed : ∀ x, (h.map x).Indexed)
    (accepted : h.equalAt (depth + 1) assumed a b = some true) :
    (∃ p ∈ assumed, pair? a b = some p) ∨
      h.Matches (fun v w => h.equalAt depth (under a b assumed) v w = some true) a b := by
  unfold equalAt at accepted
  -- Two containers are one and the same, or assumed to be equal, or their contents are accepted.
  split at accepted
  · exact .inr .nil
  · exact .inr .system
  · obtain rfl := by simpa using accepted
    exact .inr (.string _)
  · next x y =>
    simp only [Bool.or_eq_true, decide_eq_true_eq, List.contains_iff_mem] at accepted
    split at accepted
    · next known =>
      obtain rfl | known := known
      · exact .inr (.sameList x)
      · exact .inl ⟨_, known, rfl⟩
    · split at accepted
      · simp at accepted
      · next sizes =>
        refine .inr (.list (List.forall₂_iff_zip.2 ⟨by simpa using sizes, fun member => ?_⟩))
        exact allM_eq_true.1 accepted _ member
  · next x y =>
    simp only [Bool.or_eq_true, decide_eq_true_eq, List.contains_iff_mem] at accepted
    split at accepted
    · next known =>
      obtain rfl | known := known
      · exact .inr (.sameMap x)
      · exact .inl ⟨_, known, rfl⟩
    · split at accepted
      · simp at accepted
      · next sizes =>
        refine .inr (.map (((indexed x).covers_iff (indexed y) _).1 ⟨by simpa using sizes, ?_⟩))
        intro entry member
        have found := allM_eq_true.1 accepted entry (by simpa using member)
        split at found
        · next w got => exact ⟨w, got, found⟩
        · simp at found
  · obtain rfl := by simpa using accepted
    exact .inr (.object _)
  · split at accepted
    · next x y left right => exact .inr (.number left right (by simpa using accepted))
    · simp at accepted

/-- What matches as far as no contents are refused is not refused. -/
theorem equalAt_succ_ne_false (indexed : ∀ x, (h.map x).Indexed)
    (matched : h.Matches (fun v w => h.equalAt depth (under a b assumed) v w ≠ some false) a b) :
    h.equalAt (depth + 1) assumed a b ≠ some false := by
  cases matched with
  | nil | system => simp [equalAt]
  | string | object => simp [equalAt]
  | sameList | sameMap => simp [equalAt]
  | number left right equal =>
    unfold equalAt
    split
    · simp
    · simp
    · simp [Value.number?] at left
    · simp [Value.number?] at left
    · simp [Value.number?] at left
    · simp [Value.number?] at left
    · simp [left, right, equal]
  | @list x y elements =>
    obtain ⟨sizes, elements⟩ := List.forall₂_iff_zip.1 elements
    have sizes : (h.list x).size = (h.list y).size := by simpa using sizes
    unfold equalAt
    simp only [sizes, bne_self_eq_false, Bool.false_eq_true, if_false]
    split
    · simp
    · exact allM_ne_false fun pair member => elements member
  | @map x y values =>
    obtain ⟨sizes, values⟩ := ((indexed x).covers_iff (indexed y) _).2 values
    unfold equalAt
    simp only [sizes, bne_self_eq_false, Bool.false_eq_true, if_false]
    split
    · simp
    · refine allM_ne_false fun entry member => ?_
      obtain ⟨w, got, unrefused⟩ := values entry (by simpa using member)
      simp only [got]
      exact unrefused

/-- The pairs of lists, and those of maps, that the heap holds. -/
def pairs (h : Heap β) : Assumed :=
  (List.range h.lists.size ×ˢ List.range h.lists.size).map (fun (x, y) => (.list x, .list y))
    ++ (List.range h.maps.size ×ˢ List.range h.maps.size).map (fun (x, y) => (.map x, .map y))

theorem length_pairs :
    h.pairs.length = h.lists.size * h.lists.size + h.maps.size * h.maps.size := by
  simp [pairs, List.length_product]

theorem list_mem_pairs {x y : Address} (first : x < h.lists.size) (second : y < h.lists.size) :
    (.list x, .list y) ∈ h.pairs := by
  simp [pairs, first, second]

theorem map_mem_pairs {x y : Address} (first : x < h.maps.size) (second : y < h.maps.size) :
    (.map x, .map y) ∈ h.pairs := by
  simp [pairs, first, second]

/-- Only an address of the heap has contents. -/
theorem lt_of_mem_list {x : Address} (member : a ∈ (h.list x).toList) : x < h.lists.size := by
  apply Nat.lt_of_not_le
  intro beyond
  simp [Heap.list, Array.getElem?_eq_none beyond] at member

theorem lt_of_mem_map {x : Address} {entry : Value × Value}
    (member : entry ∈ (h.map x).entries.toList) : x < h.maps.size := by
  apply Nat.lt_of_not_le
  intro beyond
  simp [Heap.map, Array.getElem?_eq_none beyond, Dict.empty] at member

theorem lt_of_get_map {x : Address} {key : Value} (got : (h.map x).get key = .ok (some a)) :
    x < h.maps.size := by
  apply Nat.lt_of_not_le
  intro beyond
  obtain ⟨known, -, found⟩ := Dict.get_eq_ok.1 got
  simp [Heap.map, Array.getElem?_eq_none beyond] at found

/-- There is an answer when there is one for all contents, of a pair that is new and in the heap. -/
theorem isSome_equalAt_succ
    (inner : ∀ p ∈ h.pairs, p ∉ assumed → ∀ v w, (h.equalAt depth (p :: assumed) v w).isSome) :
    (h.equalAt (depth + 1) assumed a b).isSome := by
  unfold equalAt
  split
  · rfl
  · rfl
  · rfl
  · next x y =>
    simp only [Bool.or_eq_true, decide_eq_true_eq, List.contains_iff_mem]
    split
    · rfl
    · next unknown =>
      split
      · rfl
      -- An element that is compared shows that both lists are in the heap.
      · refine isSome_allM fun pair member => inner _ ?_ (fun known => unknown (.inr known)) _ _
        obtain ⟨left, right⟩ := List.of_mem_zip member
        exact list_mem_pairs (lt_of_mem_list left) (lt_of_mem_list right)
  · next x y =>
    simp only [Bool.or_eq_true, decide_eq_true_eq, List.contains_iff_mem]
    split
    · rfl
    · next unknown =>
      split
      · rfl
      · refine isSome_allM fun entry member => ?_
        split
        · next w got =>
          exact inner _ (map_mem_pairs (lt_of_mem_map member) (lt_of_get_map got))
            (fun known => unknown (.inr known)) _ _
        · rfl
  · rfl
  · split <;> rfl

/-! ## The comparison as a whole -/

/-- What is accepted matches to every depth to which the assumed pairs do: the pair itself is assumed
for its contents, and matches to one depth less. -/
theorem near_of_equalAt (indexed : ∀ x, (h.map x).Indexed) (n : Nat)
    (accepted : h.equalAt depth assumed a b = some true)
    (near : ∀ v w, ∀ p ∈ assumed, pair? v w = some p → h.Near n v w) : h.Near n a b := by
  induction n generalizing depth assumed a b with
  | zero => trivial
  | succ n ih =>
    cases depth with
    | zero => simp [equalAt] at accepted
    | succ depth =>
      have before (v w : Value) (p) (member : p ∈ assumed) (of_pair : pair? v w = some p) :
          h.Near n v w := (near v w p member of_pair).pred
      obtain ⟨p, member, of_pair⟩ | matched := matches_of_equalAt indexed accepted
      · exact near a b p member of_pair
      · apply matched.mono
        intro v w accepted_inside
        apply ih accepted_inside
        intro v w p member of_pair
        obtain opened | member := List.mem_append.1 member
        · obtain ⟨rfl, rfl⟩ := pair?_injective (Option.mem_toList.1 opened) of_pair
          exact ih accepted before
        · exact before v w p member of_pair

/-- What is bisimilar is not refused. -/
theorem equalAt_ne_false (indexed : ∀ x, (h.map x).Indexed) (similar : h.Bisimilar a b)
    (depth : Nat) (assumed : Assumed) : h.equalAt depth assumed a b ≠ some false := by
  induction depth generalizing assumed a b with
  | zero => simp [equalAt]
  | succ depth ih =>
    apply equalAt_succ_ne_false indexed
    exact (bisimilar_iff.1 similar).mono fun v w similar => ih similar _

/-- The assumed pairs are different pairs of the heap, so that they run out. -/
theorem isSome_equalAt (different : assumed.Nodup) (inside : assumed ⊆ h.pairs)
    (enough : h.pairs.length < depth + assumed.length) :
    (h.equalAt depth assumed a b).isSome := by
  induction depth generalizing assumed a b with
  | zero =>
    have := (List.subperm_of_subset different inside).length_le
    omega
  | succ depth ih =>
    apply isSome_equalAt_succ
    intro p member unknown v w
    apply ih
    · exact List.nodup_cons.2 ⟨unknown, different⟩
    · exact List.cons_subset.2 ⟨member, inside⟩
    · simp only [List.length_cons]
      omega

theorem isSome_equalAt_nil (enough : h.equalDepth ≤ depth) : (h.equalAt depth [] a b).isSome := by
  apply isSome_equalAt List.nodup_nil (List.nil_subset _)
  rw [length_pairs]
  unfold equalDepth at enough
  simp only [List.length_nil]
  omega

theorem equalAt_eq_true (indexed : ∀ x, (h.map x).Indexed) (enough : h.equalDepth ≤ depth) :
    h.equalAt depth [] a b = some true ↔ h.Bisimilar a b := by
  constructor
  · intro accepted
    exact bisimilar_of_near fun n => near_of_equalAt indexed n accepted (by simp)
  · intro similar
    obtain ⟨answer, answered⟩ := Option.isSome_iff_exists.1 (isSome_equalAt_nil (a := a) (b := b) enough)
    cases answer with
    | true => exact answered
    | false => exact absurd answered (equalAt_ne_false indexed similar _ _)

theorem equal_eq_true (indexed : ∀ x, (h.map x).Indexed) :
    h.equal a b = true ↔ h.Bisimilar a b := by
  rw [← equalAt_eq_true indexed (Nat.le_refl _), equal]
  rcases h.equalAt h.equalDepth [] a b with _ | _ | _ <;> simp

/-- A greater depth changes nothing. -/
theorem equalAt_eq_equal (indexed : ∀ x, (h.map x).Indexed) (enough : h.equalDepth ≤ depth) :
    h.equalAt depth [] a b = some (h.equal a b) := by
  obtain ⟨answer, answered⟩ := Option.isSome_iff_exists.1 (isSome_equalAt_nil (a := a) (b := b) enough)
  have same : answer = true ↔ h.equal a b = true := by
    rw [equal_eq_true indexed, ← equalAt_eq_true indexed enough, answered, Option.some.injEq]
  rw [answered, Bool.eq_iff_iff.2 same]

theorem indexed_map (built : ∀ d ∈ h.maps, d.Built) (x : Address) : (h.map x).Indexed := by
  unfold Heap.map
  cases here : h.maps[x]? with
  | none => exact .empty
  | some d => exact (built d (Array.mem_of_getElem? here)).indexed

theorem equal_of_alike {h' : Heap β} (indexed : ∀ x, (h.map x).Indexed)
    (indexed' : ∀ x, (h'.map x).Indexed) (lists : h'.lists = h.lists)
    (maps : ∀ x known, (h'.map x).getKey? known = (h.map x).getKey? known) (a b : Value) :
    h'.equal a b = h.equal a b := by
  rw [Bool.eq_iff_iff, equal_eq_true indexed, equal_eq_true indexed']
  constructor
  · exact Bisimilar.of_alike lists.symm fun x known => (maps x known).symm
  · exact Bisimilar.of_alike lists maps

theorem map_modifyMap (x y : Address) (d : Dict) :
    ((h.modifyMap x fun _ => d).map y) = if x = y ∧ y < h.maps.size then d else h.map y := by
  unfold Heap.map modifyMap
  rw [Array.getElem?_modify]
  by_cases inside : y < h.maps.size
  · by_cases same : x = y <;> simp [inside, same]
  · simp [inside]

/-- Entries with distinct keys may have been inserted in any order. -/
theorem equal_modifyMap_perm (indexed : ∀ x, (h.map x).Indexed) {entries entries' : List (Value × Value)}
    {d d' : Dict} (distinct : (entries.map fun entry => entry.1.key?).Nodup)
    (perm : entries.Perm entries') (made : Dict.ofEntries entries = .ok d)
    (made' : Dict.ofEntries entries' = .ok d') (x : Address) (a b : Value) :
    (h.modifyMap x fun _ => d).equal a b = (h.modifyMap x fun _ => d').equal a b := by
  apply equal_of_alike
  · intro y
    rw [map_modifyMap]
    split
    · exact (Dict.Built.empty.foldlM made').indexed
    · exact indexed y
  · intro y
    rw [map_modifyMap]
    split
    · exact (Dict.Built.empty.foldlM made).indexed
    · exact indexed y
  · rfl
  · intro y known
    rw [map_modifyMap, map_modifyMap]
    split
    · exact Dict.getKey?_ofEntries_perm distinct perm made made'
    · rfl

/-- Equality is bisimilarity: the comparison ends, however deep it may go, and accepts just the pairs
of the greatest relation whose pairs match.  So it is symmetric, transitive, reflexive but for a bare
undefined number, and does not see in which order the entries of a map were inserted. -/
theorem equal_iff_bisimilar (h : Heap β) (built : ∀ d ∈ h.maps, d.Built) :
    (∀ a b depth, h.equalDepth ≤ depth → h.equalAt depth [] a b = some (h.equal a b))
      ∧ (∀ a b, h.equal a b = true ↔ h.Bisimilar a b)
      ∧ (∀ a b, h.equal a b = h.equal b a)
      ∧ (∀ a b c, h.equal a b = true → h.equal b c = true → h.equal a c = true)
      ∧ (∀ a, h.equal a a = true ↔ ∀ negative, a ≠ .number (.undefined negative))
      ∧ (∀ h' : Heap β, (∀ d ∈ h'.maps, d.Built) → h'.lists = h.lists →
          (∀ x known, (h'.map x).getKey? known = (h.map x).getKey? known) →
          ∀ a b, h'.equal a b = h.equal a b)
      ∧ ∀ (entries entries' : List (Value × Value)) (d d' : Dict),
          (entries.map fun entry => entry.1.key?).Nodup → entries.Perm entries' →
          Dict.ofEntries entries = .ok d → Dict.ofEntries entries' = .ok d' →
          ∀ x a b, (h.modifyMap x fun _ => d).equal a b = (h.modifyMap x fun _ => d').equal a b := by
  have indexed := indexed_map built
  refine ⟨fun a b depth => equalAt_eq_equal indexed, fun a b => equal_eq_true indexed, ?_, ?_, ?_, ?_, ?_⟩
  · intro a b
    rw [Bool.eq_iff_iff, equal_eq_true indexed, equal_eq_true indexed]
    exact ⟨.symm, .symm⟩
  · intro a b c
    simp only [equal_eq_true indexed]
    exact .trans
  · intro a
    rw [equal_eq_true indexed]
    refine ⟨fun similar negative bare => ?_, .refl⟩
    subst bare
    obtain ⟨y, counts, equal⟩ := (bisimilar_iff.1 similar).of_number? rfl
    simp [Number.equal, Number.related] at equal
  · intro h' built' lists maps
    exact equal_of_alike indexed (indexed_map built') lists maps
  · intro entries entries' d d' distinct perm made made'
    exact equal_modifyMap_perm indexed distinct perm made made'

/-- Two lists that contain each other beside one that contains itself, and two maps around them. -/
def knot : Heap where
  lists := #[#[.list 1], #[.list 0], #[.list 2]]
  maps := #[Dict.empty.insertKey .nil .nil (.list 0), Dict.empty.insertKey .nil .nil (.list 2)]
  objects := #[]

theorem knot_built : ∀ d ∈ knot.maps, d.Built := by
  simp only [knot, List.mem_toArray, List.forall_mem_cons]
  exact ⟨.insert .empty (Dict.insert_eq_ok.2 ⟨_, rfl, rfl⟩),
    .insert .empty (Dict.insert_eq_ok.2 ⟨_, rfl, rfl⟩), nofun⟩

theorem knot_similar : knot.Bisimilar (.map 0) (.map 1) := by
  refine ⟨fun v w => (v = .map 0 ∧ w = .map 1) ∨ ((v = .list 0 ∨ v = .list 1) ∧ w = .list 2), ?_,
    .inl ⟨rfl, rfl⟩⟩
  rintro v w (⟨rfl, rfl⟩ | ⟨rfl | rfl, rfl⟩)
  · refine .map fun known => ?_
    change Option.Rel _ (Dict.getKey? (Dict.insertKey _ _ _ _) _)
      (Dict.getKey? (Dict.insertKey _ _ _ _) _)
    rw [Dict.Indexed.empty.getKey?_insertKey, Dict.Indexed.empty.getKey?_insertKey]
    split
    · exact .some (.inr ⟨.inl rfl, rfl⟩)
    · rw [Dict.getKey?_empty]
      exact .none
  · exact .list (.cons (.inr ⟨.inr rfl, rfl⟩) .nil)
  · exact .list (.cons (.inr ⟨.inl rfl, rfl⟩) .nil)

theorem equal_iff_bisimilar_knot :
    (∀ d ∈ knot.maps, d.Built) ∧ knot.equal (.map 0) (.map 1) = true
      ∧ knot.equal (.map 1) (.map 0) = true :=
  have all := equal_iff_bisimilar knot knot_built
  have equal := (all.2.1 _ _).2 knot_similar
  ⟨knot_built, equal, (all.2.2.1 _ _).symm.trans equal⟩

end Heap

end Monogram
