import Mathlib.Data.List.Forall2
import Mathlib.Logic.Relation
import Monogram.Proofs.Machine.Setting
import Monogram.Proofs.Value.Insertions
import Monogram.Value.Rendering

/-! # Values unfolded into trees

A value is written as the tree that one gets by following everything that it contains, except that a
list or a map is cut where it stands inside itself.  The containers on the way from the value to a part
of it are different ones of the heap, so the tree is finite, and the depth to which the heap is written
is never used up.

* `Unfolding`, `Unfolding.text` — the trees, and how they are written.
* `Heap.Unfolds` — the tree of a value that stands inside given containers.
* `Heap.exists_unfolds`, `Heap.Unfolds.unique` — there is one tree.
* `Heap.Unfolds.renderAt_eq` — rendering writes it.
* `Heap.CycleFree`, `Heap.Unfolds.uncut_iff` — nothing is cut exactly where no cycle can be reached.
* `Heap.renders_unfolding` — all of it together.
-/

namespace Monogram

/-! ## Trees -/

/-- What there is to write of a value. -/
inductive Unfolding where
  | scalar (v : Value)
  | cutList
  | cutMap
  | list (items : List Unfolding)
  | map (entries : List (Unfolding × Unfolding))

namespace Unfolding

variable {β : Type} [Inhabited β]

mutual

/-- A tree as text. -/
def text (style : Rendering.Style) (h : Heap β) : Unfolding → String
  | .scalar v => scalarText style h v
  | .cutList => "[...]"
  | .cutMap => "\x7b...\x7d"
  | .list items => "[" ++ String.intercalate ", " (textAll style h items) ++ "]"
  | .map entries => "\x7b" ++ String.intercalate ", " (textEntries style h entries) ++ "\x7d"

/-- Trees as texts. -/
def textAll (style : Rendering.Style) (h : Heap β) : List Unfolding → List String
  | [] => []
  | t :: rest => t.text style h :: textAll style h rest

/-- Keys and values as texts. -/
def textEntries (style : Rendering.Style) (h : Heap β) : List (Unfolding × Unfolding) → List String
  | [] => []
  | (key, value) :: rest =>
    (key.text style h ++ ": " ++ value.text style h) :: textEntries style h rest

end

mutual

/-- Nothing in the tree has been cut. -/
def Uncut : Unfolding → Prop
  | .scalar _ => True
  | .cutList | .cutMap => False
  | .list items => UncutAll items
  | .map entries => UncutEntries entries

def UncutAll : List Unfolding → Prop
  | [] => True
  | t :: rest => t.Uncut ∧ UncutAll rest

def UncutEntries : List (Unfolding × Unfolding) → Prop
  | [] => True
  | (key, value) :: rest => (key.Uncut ∧ value.Uncut) ∧ UncutEntries rest

end

theorem textAll_eq_map (style : Rendering.Style) (h : Heap β) (items : List Unfolding) :
    textAll style h items = items.map (text style h) := by
  induction items with
  | nil => rfl
  | cons t rest ih => rw [textAll, ih, List.map_cons]

theorem textEntries_eq_map (style : Rendering.Style) (h : Heap β)
    (entries : List (Unfolding × Unfolding)) : textEntries style h entries
      = entries.map fun entry => entry.1.text style h ++ ": " ++ entry.2.text style h := by
  induction entries with
  | nil => rfl
  | cons entry rest ih =>
    obtain ⟨key, value⟩ := entry
    rw [textEntries, ih, List.map_cons]

theorem uncutAll_iff {items : List Unfolding} : UncutAll items ↔ ∀ t ∈ items, t.Uncut := by
  induction items with
  | nil => simp [UncutAll]
  | cons t rest ih => rw [UncutAll, ih, List.forall_mem_cons]

theorem uncutEntries_iff {entries : List (Unfolding × Unfolding)} :
    UncutEntries entries ↔ ∀ entry ∈ entries, entry.1.Uncut ∧ entry.2.Uncut := by
  induction entries with
  | nil => simp [UncutEntries]
  | cons entry rest ih =>
    obtain ⟨key, value⟩ := entry
    rw [UncutEntries, ih, List.forall_mem_cons]

end Unfolding

/-- The container that a value is. -/
def Value.container? : Value → Option Container
  | .list address => some (.list address)
  | .map address => some (.map address)
  | _ => none

namespace Heap

variable {β : Type} {h : Heap β} {outer : List Container} {v w : Value} {t t' : Unfolding}
  {c d : Container} {depth : Nat} {style : Rendering.Style}

/-- Inside the containers `outer` the value unfolds to the tree: a container that is one of them is
cut, and any other one is a tree of what it contains. -/
inductive Unfolds (h : Heap β) : List Container → Value → Unfolding → Prop where
  | scalar {outer : List Container} {v : Value} (single : v.container? = none) :
      Unfolds h outer v (.scalar v)
  | cutList {outer : List Container} {a : Address} (again : .list a ∈ outer) :
      Unfolds h outer (.list a) .cutList
  | cutMap {outer : List Container} {a : Address} (again : .map a ∈ outer) :
      Unfolds h outer (.map a) .cutMap
  | list {outer : List Container} {a : Address} {items : List Unfolding} (fresh : .list a ∉ outer)
      (size : (h.list a).toList.length = items.length)
      (contents : ∀ v t, (v, t) ∈ (h.list a).toList.zip items → Unfolds h (.list a :: outer) v t) :
      Unfolds h outer (.list a) (.list items)
  | map {outer : List Container} {a : Address} {entries : List (Unfolding × Unfolding)}
      (fresh : .map a ∉ outer) (size : (h.map a).entries.toList.length = entries.length)
      (keys : ∀ entry shown, (entry, shown) ∈ (h.map a).entries.toList.zip entries →
        Unfolds h (.map a :: outer) entry.1 shown.1)
      (values : ∀ entry shown, (entry, shown) ∈ (h.map a).entries.toList.zip entries →
        Unfolds h (.map a :: outer) entry.2 shown.2) :
      Unfolds h outer (.map a) (.map entries)

/-- The values that a container contains. -/
def contents (h : Heap β) : Container → List Value
  | .list a => (h.list a).toList
  | .map a => (h.map a).entries.toList.flatMap fun entry => [entry.1, entry.2]

theorem mem_contents_map_iff {a : Address} : v ∈ h.contents (.map a) ↔
    ∃ entry ∈ (h.map a).entries.toList, v = entry.1 ∨ v = entry.2 := by
  simp [contents]

/-- The one container contains the other. -/
def Holds (h : Heap β) (c d : Container) : Prop := ∃ v ∈ h.contents c, v.container? = some d

/-- No container that contains itself can be reached from the value. -/
def CycleFree (h : Heap β) (v : Value) : Prop :=
  ∀ c d, v.container? = some c → Relation.ReflTransGen h.Holds c d → ¬ Relation.TransGen h.Holds d d

/-! ## Containers of the heap -/

/-- The lists and maps that the heap has. -/
def containers (h : Heap β) : List Container :=
  (List.range h.lists.size).map .list ++ (List.range h.maps.size).map .map

theorem length_containers (h : Heap β) : h.containers.length = h.lists.size + h.maps.size := by
  simp [containers]

/-- Only a container of the heap contains anything. -/
theorem mem_containers (member : v ∈ h.contents c) : c ∈ h.containers := by
  cases c with
  | list a => simp [containers, lt_of_mem_list member]
  | map a =>
    obtain ⟨entry, inside, -⟩ := mem_contents_map_iff.1 member
    simp [containers, lt_of_mem_map inside]

/-- So many more containers can be entered. -/
structure Room (h : Heap β) (outer : List Container) (depth : Nat) : Prop where
  distinct : outer.Nodup
  inside : outer ⊆ h.containers
  enough : h.containers.length < depth + outer.length

theorem Room.pos (room : h.Room outer depth) : 0 < depth := by
  have := (List.subperm_of_subset room.distinct room.inside).length_le
  have := room.enough
  omega

theorem Room.enter (room : h.Room outer (depth + 1)) (fresh : c ∉ outer) (member : v ∈ h.contents c) :
    h.Room (c :: outer) depth where
  distinct := List.nodup_cons.2 ⟨fresh, room.distinct⟩
  inside := List.cons_subset.2 ⟨mem_containers member, room.inside⟩
  enough := by
    have := room.enough
    simp only [List.length_cons]
    omega

theorem room_nil (enough : h.renderDepth ≤ depth) : h.Room [] depth where
  distinct := List.nodup_nil
  inside := List.nil_subset _
  enough := by
    rw [length_containers]
    unfold renderDepth at enough
    simp only [List.length_nil]
    omega

theorem mem_contents_list {a : Address} {items : List Unfolding}
    (pair : (v, t) ∈ (h.list a).toList.zip items) : v ∈ h.contents (.list a) :=
  (List.of_mem_zip pair).1

theorem mem_contents_map {a : Address} {entry : Value × Value} {shown : Unfolding × Unfolding}
    {entries : List (Unfolding × Unfolding)}
    (pair : (entry, shown) ∈ (h.map a).entries.toList.zip entries) :
    entry.1 ∈ h.contents (.map a) ∧ entry.2 ∈ h.contents (.map a) :=
  have member := (List.of_mem_zip pair).1
  ⟨mem_contents_map_iff.2 ⟨entry, member, .inl rfl⟩, mem_contents_map_iff.2 ⟨entry, member, .inr rfl⟩⟩

/-! ## There is one tree -/

theorem exists_forall₂ {α γ : Type} {R : α → γ → Prop} : ∀ {xs : List α}, (∀ x ∈ xs, ∃ y, R x y) →
    ∃ ys, List.Forall₂ R xs ys
  | [], _ => ⟨[], .nil⟩
  | _ :: _, related => by
    obtain ⟨⟨y, first⟩, others⟩ := List.forall_mem_cons.1 related
    obtain ⟨ys, rest⟩ := exists_forall₂ others
    exact ⟨y :: ys, .cons first rest⟩

theorem exists_unfolds (room : h.Room outer depth) : ∃ t, h.Unfolds outer v t := by
  induction depth generalizing outer v with
  | zero => exact absurd room.pos (Nat.lt_irrefl 0)
  | succ depth ih =>
    have inner {c : Container} (fresh : c ∉ outer) (w : Value) (member : w ∈ h.contents c) :
        ∃ t, h.Unfolds (c :: outer) w t := ih (room.enter fresh member)
    cases v with
    | list a =>
      by_cases fresh : .list a ∈ outer
      · exact ⟨_, .cutList fresh⟩
      · obtain ⟨items, unfolded⟩ := exists_forall₂ (inner fresh)
        obtain ⟨size, contents⟩ := List.forall₂_iff_zip.1 unfolded
        exact ⟨_, .list fresh size fun _ _ => contents⟩
    | map a =>
      by_cases fresh : .map a ∈ outer
      · exact ⟨_, .cutMap fresh⟩
      · have both : ∀ entry ∈ (h.map a).entries.toList, ∃ shown : Unfolding × Unfolding,
            h.Unfolds (.map a :: outer) entry.1 shown.1 ∧ h.Unfolds (.map a :: outer) entry.2 shown.2 := by
          intro entry member
          obtain ⟨key, unfolds⟩ := inner fresh _ (mem_contents_map_iff.2 ⟨entry, member, .inl rfl⟩)
          obtain ⟨value, unfolds'⟩ := inner fresh _ (mem_contents_map_iff.2 ⟨entry, member, .inr rfl⟩)
          exact ⟨(key, value), unfolds, unfolds'⟩
        obtain ⟨entries, unfolded⟩ := exists_forall₂ both
        obtain ⟨size, contents⟩ := List.forall₂_iff_zip.1 unfolded
        exact ⟨_, .map fresh size (fun _ _ pair => (contents pair).1) fun _ _ pair => (contents pair).2⟩
    | _ => exact ⟨_, .scalar rfl⟩

/-- Two lists beside a third one are the same if what stands beside the same is the same. -/
theorem eq_of_zip {α γ : Type} : ∀ {xs : List α} {ys zs : List γ}, xs.length = ys.length →
    xs.length = zs.length → (∀ x y z, (x, y) ∈ xs.zip ys → (x, z) ∈ xs.zip zs → y = z) → ys = zs
  | [], [], [], _, _, _ => rfl
  | x :: xs, y :: ys, z :: zs, size, size', same => by
    have rest : ys = zs := eq_of_zip (Nat.succ.inj size) (Nat.succ.inj size') fun x' y' z' pair pair' =>
      same x' y' z' (List.mem_cons_of_mem _ pair) (List.mem_cons_of_mem _ pair')
    rw [same x y z List.mem_cons_self List.mem_cons_self, rest]

theorem Unfolds.unique (unfolds : h.Unfolds outer v t) (unfolds' : h.Unfolds outer v t') : t = t' := by
  induction unfolds generalizing t' with
  | scalar single =>
    cases unfolds' with
    | scalar _ => rfl
    | _ => cases single
  | cutList again =>
    cases unfolds' with
    | scalar single => cases single
    | cutList _ => rfl
    | list fresh _ _ => exact absurd again fresh
  | cutMap again =>
    cases unfolds' with
    | scalar single => cases single
    | cutMap _ => rfl
    | map fresh _ _ _ => exact absurd again fresh
  | list fresh size _ ih =>
    cases unfolds' with
    | scalar single => cases single
    | cutList again => exact absurd again fresh
    | list _ size' contents' =>
      exact congrArg Unfolding.list (eq_of_zip size size' fun v t t' pair pair' =>
        ih v t pair (contents' v t' pair'))
  | map fresh size _ _ ih ih' =>
    cases unfolds' with
    | scalar single => cases single
    | cutMap again => exact absurd again fresh
    | map _ size' keys values =>
      exact congrArg Unfolding.map (eq_of_zip size size' fun entry shown shown' pair pair' =>
        Prod.ext (ih entry shown pair (keys entry shown' pair'))
          (ih' entry shown pair (values entry shown' pair')))

/-! ## Rendering -/

theorem map_eq_of_zip {α γ δ : Type} {f : α → δ} {g : γ → δ} : ∀ {xs : List α} {ys : List γ},
    xs.length = ys.length → (∀ x y, (x, y) ∈ xs.zip ys → f x = g y) → xs.map f = ys.map g
  | [], [], _, _ => rfl
  | x :: _, y :: _, size, same => by
    rw [List.map_cons, List.map_cons, same x y List.mem_cons_self,
      map_eq_of_zip (Nat.succ.inj size) fun x' y' pair => same x' y' (List.mem_cons_of_mem _ pair)]

theorem renderAt_scalar [Inhabited β] (single : v.container? = none) :
    h.renderAt style depth outer v = scalarText style h v := by
  cases depth with
  | zero => rfl
  | succ depth => cases v <;> first | rfl | cases single

/-- What rendering writes is the tree. -/
theorem Unfolds.renderAt_eq [Inhabited β] (unfolds : h.Unfolds outer v t)
    (room : h.Room outer depth) : h.renderAt style depth outer v = t.text style h := by
  induction unfolds generalizing depth with
  | scalar single => exact renderAt_scalar single
  | cutList again =>
    obtain ⟨depth, rfl⟩ := Nat.exists_eq_succ_of_ne_zero room.pos.ne'
    rw [renderAt, if_pos (List.contains_iff_mem.2 again)]
    rfl
  | cutMap again =>
    obtain ⟨depth, rfl⟩ := Nat.exists_eq_succ_of_ne_zero room.pos.ne'
    rw [renderAt, if_pos (List.contains_iff_mem.2 again)]
    rfl
  | list fresh size _ ih =>
    obtain ⟨depth, rfl⟩ := Nat.exists_eq_succ_of_ne_zero room.pos.ne'
    rw [renderAt, if_neg (mt List.contains_iff_mem.1 fresh), Unfolding.text,
      Unfolding.textAll_eq_map]
    have same := map_eq_of_zip size fun v t pair =>
      ih v t pair (room.enter fresh (mem_contents_list pair))
    simp only [same]
  | map fresh size _ _ ih ih' =>
    obtain ⟨depth, rfl⟩ := Nat.exists_eq_succ_of_ne_zero room.pos.ne'
    rw [renderAt, if_neg (mt List.contains_iff_mem.1 fresh), Unfolding.text,
      Unfolding.textEntries_eq_map]
    have same := map_eq_of_zip (f := fun entry : Value × Value =>
        h.renderAt style depth (_ :: _) entry.1 ++ ": " ++ h.renderAt style depth (_ :: _) entry.2)
      size fun entry shown pair => by
        obtain ⟨key, value⟩ := mem_contents_map pair
        rw [ih entry shown pair (room.enter fresh key), ih' entry shown pair (room.enter fresh value)]
    simp only [same]

/-! ## Cycles -/

theorem exists_zip {α γ : Type} {x : α} : ∀ {xs : List α} {ys : List γ}, xs.length = ys.length →
    x ∈ xs → ∃ y, (x, y) ∈ xs.zip ys
  | _ :: _, y :: _, _, .head _ => ⟨y, .head _⟩
  | _ :: _, _ :: _, size, .tail _ member => by
    obtain ⟨y, pair⟩ := exists_zip (Nat.succ.inj size) member
    exact ⟨y, .tail _ pair⟩

theorem exists_zip_right {α γ : Type} {y : γ} {xs : List α} {ys : List γ} (size : xs.length = ys.length)
    (member : y ∈ ys) : ∃ x, (x, y) ∈ xs.zip ys := by
  obtain ⟨x, pair⟩ := exists_zip size.symm member
  rw [← List.zip_swap, List.mem_map] at pair
  obtain ⟨⟨_, _⟩, pair, swapped⟩ := pair
  cases swapped
  exact ⟨_, pair⟩

theorem CycleFree.enter (free : h.CycleFree v) (container : v.container? = some c)
    (member : w ∈ h.contents c) : h.CycleFree w := fun _ _ inner reaches =>
  free _ _ container (.head ⟨w, member, inner⟩ reaches)

/-- The containers around a value contain it, directly or not. -/
def Encloses (h : Heap β) (outer : List Container) (v : Value) : Prop :=
  ∀ c ∈ outer, ∀ d, v.container? = some d → Relation.TransGen h.Holds c d

theorem Encloses.enter (encloses : h.Encloses outer v) (container : v.container? = some c)
    (member : w ∈ h.contents c) : h.Encloses (c :: outer) w := by
  intro e inside d inner
  have holds : h.Holds c d := ⟨w, member, inner⟩
  cases inside with
  | head => exact .single holds
  | tail _ inside => exact (encloses e inside c container).tail holds

/-- Where no cycle can be reached nothing is cut. -/
theorem Unfolds.uncut (unfolds : h.Unfolds outer v t) (encloses : h.Encloses outer v)
    (free : h.CycleFree v) : t.Uncut := by
  induction unfolds with
  | scalar _ => trivial
  | cutList again => exact free _ _ rfl .refl (encloses _ again _ rfl)
  | cutMap again => exact free _ _ rfl .refl (encloses _ again _ rfl)
  | list _ size _ ih =>
    refine Unfolding.uncutAll_iff.2 fun t member => ?_
    obtain ⟨v, pair⟩ := exists_zip_right size member
    have inside := mem_contents_list pair
    exact ih v t pair (encloses.enter rfl inside) (free.enter rfl inside)
  | map _ size _ _ ih ih' =>
    refine Unfolding.uncutEntries_iff.2 fun shown member => ?_
    obtain ⟨entry, pair⟩ := exists_zip_right size member
    obtain ⟨key, value⟩ := mem_contents_map pair
    exact ⟨ih entry shown pair (encloses.enter rfl key) (free.enter rfl key),
      ih' entry shown pair (encloses.enter rfl value) (free.enter rfl value)⟩

/-- What is not cut is a tree of containers in which one can only go down for a while. -/
theorem Unfolds.acc (unfolds : h.Unfolds outer v t) (uncut : t.Uncut) (container : v.container? = some c) :
    Acc (flip h.Holds) c := by
  induction unfolds generalizing c with
  | scalar single => exact absurd (single.symm.trans container) nofun
  | cutList _ => exact uncut.elim
  | cutMap _ => exact uncut.elim
  | list _ size _ ih =>
    cases container
    refine .intro _ fun d ⟨w, member, inner⟩ => ?_
    obtain ⟨t, pair⟩ := exists_zip size member
    exact ih w t pair (Unfolding.uncutAll_iff.1 uncut t (List.of_mem_zip pair).2) inner
  | map _ size _ _ ih ih' =>
    cases container
    refine .intro _ fun d ⟨w, member, inner⟩ => ?_
    obtain ⟨entry, inside, here⟩ := mem_contents_map_iff.1 member
    obtain ⟨shown, pair⟩ := exists_zip size inside
    obtain ⟨key, value⟩ := Unfolding.uncutEntries_iff.1 uncut shown (List.of_mem_zip pair).2
    obtain rfl | rfl := here
    · exact ih entry shown pair key inner
    · exact ih' entry shown pair value inner

/-- A container below which everything ends reaches no cycle. -/
theorem not_cycle_of_acc (ends : Acc (flip h.Holds) c) (reaches : Relation.ReflTransGen h.Holds c d) :
    ¬ Relation.TransGen h.Holds d d := by
  induction ends with
  | intro c _ ih =>
    intro cycle
    obtain rfl | ⟨e, holds, reaches⟩ := reaches.cases_head
    · obtain ⟨e, holds, back⟩ := Relation.TransGen.head'_iff.1 cycle
      exact ih e holds back cycle
    · exact ih e holds reaches cycle

/-- Nothing is cut exactly where no cycle can be reached. -/
theorem Unfolds.uncut_iff (unfolds : h.Unfolds [] v t) : t.Uncut ↔ h.CycleFree v :=
  ⟨fun uncut _ _ container reaches => not_cycle_of_acc (unfolds.acc uncut container) reaches,
    unfolds.uncut nofun⟩

end Heap

/-! ## Printing -/

namespace Action

variable {α γ : Type}

/-- Whatever comes of the action, the heap is as before. -/
def SparesHeap (a : Action α) : Prop := ∀ m, (reached (a m)).heap = m.heap

namespace SparesHeap

theorem value (a : α) : SparesHeap (pure a : Action α) := fun _ => rfl

theorem fault (f : Fault) : SparesHeap (fault f : Action α) := fun _ => rfl

theorem change {f : Machine → Machine} (same : ∀ m, (f m).heap = m.heap) :
    SparesHeap (modify f : Action Unit) := same

theorem bind {p : Action α} {q : α → Action γ} (first : SparesHeap p)
    (others : ∀ a, SparesHeap (q a)) : SparesHeap (p >>= q) :=
  reached_bind (R := fun m m' => m'.heap = m.heap) (fun front back => back.trans front) first others

theorem look {q : Machine → Action α} (others : ∀ m, SparesHeap (q m)) : SparesHeap (get >>= q) :=
  fun m => others m m

theorem composes : Composes SparesHeap where
  value := value
  fault := fault
  bind := bind
  operands := fun _ others => look others
  change _ := change fun _ => rfl

theorem print (values : List Value) : SparesHeap (print values) :=
  look fun _ => bind (p := consult _) (fun _ => rfl) fun _ => composes.lift _

theorem step_print (argc : Nat) : SparesHeap (step (.print argc)) :=
  (composes.popArguments argc).bind fun _ => composes.pop.bind fun _ => (print _).bind fun _ =>
    composes.leaves (value _)

theorem system_print (values : List Value) : SparesHeap (system "o" values) :=
  (print values).bind fun _ => value _

end SparesHeap

end Action

open Monogram.Action in
/-- A value of any heap is written, as a program prints it and with strings in quotes, as the one tree
that it unfolds to, in which a list or a map is cut just where it stands inside itself.  The depth that
rendering is given is enough, nothing is cut where no list or map that contains itself can be reached,
and printing leaves the heap as it is. -/
theorem Heap.renders_unfolding :
    (∀ {β : Type} [Inhabited β] (h : Heap β) (v : Value), ∃ t,
      (∀ t', h.Unfolds [] v t' ↔ t' = t) ∧
      h.display v = t.text .display h ∧ h.debug v = t.text .debug h ∧
      (∀ more style, h.renderAt style (h.renderDepth + more) [] v = t.text style h) ∧
      (t.Uncut ↔ h.CycleFree v)) ∧
    ∀ (m : Machine) (values : List Value) (argc : Nat),
      (reached (print values m)).heap = m.heap ∧
      (reached (step (.print argc) m)).heap = m.heap ∧
      (reached (system "o" values m)).heap = m.heap := by
  refine ⟨fun h v => ?_, fun m values argc => ⟨SparesHeap.print values m, SparesHeap.step_print argc m,
    SparesHeap.system_print values m⟩⟩
  obtain ⟨t, unfolds⟩ := h.exists_unfolds (v := v) (room_nil (Nat.le_refl _))
  have written (more : Nat) (style : Rendering.Style) :
      h.renderAt style (h.renderDepth + more) [] v = t.text style h :=
    unfolds.renderAt_eq (room_nil (Nat.le_add_right _ _))
  exact ⟨t, fun t' => ⟨fun other => other.unique unfolds, fun same => same ▸ unfolds⟩,
    written 0 .display, written 0 .debug, written, unfolds.uncut_iff⟩

/-- A list that holds another one twice and then itself. -/
example : (Heap.mk #[#[.nil], #[.list 0, .list 0, .list 1]] #[] #[] : Heap Code).display (.list 1)
    = "[[null], [null], [...]]" := by rfl

end Monogram
