import Mathlib.Data.Finset.Card
import Monogram.Classes.Registry

/-! # The chain of superclasses

The chain of a class starts with the class, loaded or not, and goes from each class to the one that is
loaded under the name of its superclass.  It may end at a class without a superclass, break where the
superclass is not loaded, or come to some class again and go round for ever.  Whatever it does, the first
declaration of a member along the chain is no more steps away than there are loaded classes, so the
bounds of the lookups cut nothing short.

* `Registry.above?` — the class so many steps up the chain.
* `Registry.above?_near` — every class of the chain is near.
* `Registry.First`, `Registry.Undeclared` — the first class that declares something, and that none does.
* `Registry.Resolves` — what a call of a method comes to, along the whole chain.
* `Registry.members_resolve` — methods and fields are looked up along the whole chain.
-/

namespace Monogram

/-- What is not shown to all is hidden. -/
theorem Visibility.eq_hidden {visibility : Visibility} (secret : visibility ≠ .shown) :
    visibility = .hidden := by
  cases visibility with
  | shown => exact absurd rfl secret
  | hidden => rfl

namespace Registry

variable {β α : Type} {r : Registry β} {c d e : ClassImage β} {own : ClassImage β → Option α} {a : α}
  {steps bound : Nat} {member : String} {caller : Option String}

/-- The superclass of a class, if it has one that is loaded. -/
def parent? (r : Registry β) (c : ClassImage β) : Option (ClassImage β) :=
  c.superclass.bind r.byName?

/-- The class so many steps up the chain of a class. -/
def above? (r : Registry β) (c : ClassImage β) : Nat → Option (ClassImage β)
  | 0 => some c
  | steps + 1 => (r.above? c steps).bind r.parent?

/-- The chain ends at a class without a superclass. -/
def Ends (r : Registry β) (c : ClassImage β) : Prop :=
  ∃ steps d, r.above? c steps = some d ∧ d.superclass = none

/-- The chain breaks at a class whose superclass is not loaded. -/
def Breaks (r : Registry β) (c : ClassImage β) (missing : String) : Prop :=
  ∃ steps d, r.above? c steps = some d ∧ d.superclass = some missing ∧ r.byName? missing = none

/-- The chain comes to some class again. -/
def Cycles (r : Registry β) (c : ClassImage β) : Prop :=
  ∃ steps round d, r.above? c steps = some d ∧ r.above? c (steps + (round + 1)) = some d

/-! ## Steps up the chain -/

theorem above?_add (m n : Nat) : r.above? c (m + n) = (r.above? c m).bind (r.above? · n) := by
  induction n with
  | zero => cases r.above? c m <;> simp [above?]
  | succ n ih =>
    rw [Nat.add_succ, above?, ih]
    cases r.above? c m <;> simp [above?]

theorem exists_above {m n : Nat} (reached : r.above? c n = some d) (before : m ≤ n) :
    ∃ e, r.above? c m = some e := by
  obtain ⟨k, rfl⟩ := Nat.exists_eq_add_of_le before
  rw [above?_add] at reached
  obtain ⟨e, here, -⟩ := Option.bind_eq_some_iff.1 reached
  exact ⟨e, here⟩

/-- Where the chain goes on, it goes through loaded classes. -/
theorem superclass_loaded {n : Nat} (reached : r.above? c (n + 1) = some d) :
    ∃ e name, r.above? c n = some e ∧ e.superclass = some name ∧ r.byName? name = some d := by
  obtain ⟨e, here, up⟩ := Option.bind_eq_some_iff.1 reached
  obtain ⟨name, superclass, known⟩ := Option.bind_eq_some_iff.1 up
  exact ⟨e, name, here, superclass, known⟩

theorem above?_parent (up : r.parent? c = some d) (n : Nat) : r.above? c (n + 1) = r.above? d n := by
  rw [Nat.add_comm, above?_add, above?, above?, Option.bind_some, up, Option.bind_some]

theorem mem_names_of_byName? {name : String} (known : r.byName? name = some d) :
    name ∈ r.classes.names := by
  refine (Table.mem_names_iff r.classes name).2 fun unknown => ?_
  simp [byName?, unknown] at known

/-- Among more steps than there are classes, two lead to the same class. -/
theorem exists_again {n : Nat} (reached : r.above? c n = some d) (many : r.size < n) :
    ∃ i j, i < j ∧ j ≤ n ∧ r.above? c i = r.above? c j := by
  -- The names that the first `n` classes give for their superclasses.
  let name (i : Nat) : String := ((r.above? c i).bind ClassImage.superclass).getD ""
  have leads : ∀ i < n, name i ∈ r.classes.names ∧ r.above? c (i + 1) = r.byName? (name i) := by
    intro i before
    obtain ⟨e, here⟩ := exists_above reached (Nat.succ_le_of_lt before)
    obtain ⟨e', other, there, superclass, known⟩ := superclass_loaded here
    have same : name i = other := by simp [name, there, superclass]
    rw [same, here, known]
    exact ⟨mem_names_of_byName? known, rfl⟩
  have few : r.classes.names.toFinset.card < (Finset.range n).card := by
    have size : r.classes.names.length = r.size := List.length_map _
    have distinct := List.toFinset_card_le r.classes.names
    rw [Finset.card_range]
    omega
  obtain ⟨i, i_mem, j, j_mem, apart, same⟩ := Finset.exists_ne_map_eq_of_card_lt_of_maps_to few
    (f := name) fun i before => List.mem_toFinset.2 (leads i (Finset.mem_range.1 before)).1
  have i_lt := Finset.mem_range.1 i_mem
  have j_lt := Finset.mem_range.1 j_mem
  have again : r.above? c (i + 1) = r.above? c (j + 1) := by
    rw [(leads i i_lt).2, (leads j j_lt).2, same]
  rcases Nat.lt_or_gt_of_ne apart with less | more
  · exact ⟨i + 1, j + 1, by omega, by omega, again⟩
  · exact ⟨j + 1, i + 1, by omega, by omega, again.symm⟩

/-- Every class of the chain is reached in no more steps than there are loaded classes. -/
theorem above?_near {n : Nat} (reached : r.above? c n = some d) :
    ∃ m, m ≤ n ∧ m ≤ r.size ∧ r.above? c m = some d := by
  induction n using Nat.strong_induction_on with
  | _ n ih =>
    by_cases near : n ≤ r.size
    · exact ⟨n, Nat.le_refl n, near, reached⟩
    · obtain ⟨i, j, less, inside, same⟩ := exists_again reached (Nat.lt_of_not_le near)
      -- The way round from the one place to the other is left out.
      have shorter : r.above? c (i + (n - j)) = some d := by
        rw [above?_add, same, ← above?_add, Nat.add_sub_of_le inside]
        exact reached
      obtain ⟨m, before, near, here⟩ := ih _ (by omega) shorter
      exact ⟨m, by omega, near, here⟩

/-- A chain that comes to a class again never stops. -/
theorem Cycles.unending (cycles : r.Cycles c) (n : Nat) : ∃ d, r.above? c n = some d := by
  obtain ⟨steps, round, d, here, again⟩ := cycles
  have rounds (k : Nat) : r.above? c (steps + k * (round + 1)) = some d := by
    induction k with
    | zero => simpa using here
    | succ k ih =>
      have next : steps + (k + 1) * (round + 1) = steps + k * (round + 1) + (round + 1) := by
        rw [Nat.succ_mul, Nat.add_assoc]
      rw [next, above?_add, ih, ← here, ← above?_add]
      exact again.trans here.symm
  have far : n ≤ steps + n * (round + 1) := by
    rw [Nat.mul_succ]
    omega
  exact exists_above (rounds n) far

/-- A chain that stops has a last class. -/
theorem exists_last {n : Nat} (gone : r.above? c n = none) :
    ∃ m d, r.above? c m = some d ∧ r.parent? d = none := by
  induction n with
  | zero => cases gone
  | succ n ih =>
    cases here : r.above? c n with
    | none => exact ih here
    | some d =>
      rw [above?, here] at gone
      exact ⟨n, d, here, gone⟩

/-- A chain ends, breaks or goes round. -/
theorem chain_cases (r : Registry β) (c : ClassImage β) :
    r.Ends c ∨ r.Cycles c ∨ ∃ missing, r.Breaks c missing := by
  cases far : r.above? c (r.size + 1) with
  | some d =>
    obtain ⟨m, -, near, here⟩ := above?_near far
    refine .inr (.inl ⟨m, r.size - m, d, here, ?_⟩)
    have all : m + (r.size - m + 1) = r.size + 1 := by omega
    rw [all]
    exact far
  | none =>
    obtain ⟨m, d, here, last⟩ := exists_last far
    cases superclass : d.superclass with
    | none => exact .inl ⟨m, d, here, superclass⟩
    | some missing =>
      have unknown : r.byName? missing = none := by simpa [parent?, superclass] using last
      exact .inr (.inr ⟨missing, m, d, here, superclass, unknown⟩)

/-! ## First declarations -/

/-- The nearer classes of the chain declare nothing. -/
def Silent (r : Registry β) (own : ClassImage β → Option α) (c : ClassImage β) (steps : Nat) : Prop :=
  ∀ nearer < steps, ∀ e, r.above? c nearer = some e → own e = none

/-- The class `d` is the first of the chain of `c` that declares something, and declares this. -/
def First (r : Registry β) (own : ClassImage β → Option α) (c d : ClassImage β) (a : α) : Prop :=
  ∃ steps, r.above? c steps = some d ∧ own d = some a ∧ r.Silent own c steps

/-- No class of the chain declares anything. -/
def Undeclared (r : Registry β) (own : ClassImage β → Option α) (c : ClassImage β) : Prop :=
  ∀ steps d, r.above? c steps = some d → own d = none

theorem Undeclared.silent (undeclared : r.Undeclared own c) (steps : Nat) : r.Silent own c steps :=
  fun nearer _ => undeclared nearer

/-- The first class of the chain that declares something is near. -/
theorem First.near (first : r.First own c d a) :
    ∃ steps ≤ r.size, r.above? c steps = some d ∧ own d = some a ∧ r.Silent own c steps := by
  obtain ⟨steps, reached, declares, silent⟩ := first
  obtain ⟨m, before, near, here⟩ := above?_near reached
  exact ⟨m, near, here, declares, fun nearer less => silent nearer (Nat.lt_of_lt_of_le less before)⟩

/-- Below a class that declares something first there may be one that declares nothing. -/
theorem First.above (first : r.First own e d a) (silent : own c = none) (up : r.parent? c = some e) :
    r.First own c d a := by
  obtain ⟨steps, reached, declares, others⟩ := first
  refine ⟨steps + 1, (above?_parent up steps).trans reached, declares, ?_⟩
  intro nearer less e' here
  cases nearer with
  | zero =>
    cases here
    exact silent
  | succ nearer =>
    exact others nearer (Nat.lt_of_succ_lt_succ less) e' ((above?_parent up nearer).symm.trans here)

/-- The first class that declares something is the first that declares a part of it. -/
theorem First.of_map {γ : Type} {part : α → γ} {b : γ}
    (first : r.First (fun c => (own c).map part) c d b) : ∃ a, r.First own c d a ∧ part a = b := by
  obtain ⟨steps, reached, declares, silent⟩ := first
  obtain ⟨a, whole, same⟩ := Option.map_eq_some_iff.1 declares
  exact ⟨a, ⟨steps, reached, whole, fun nearer less e here =>
    Option.map_eq_none_iff.1 (silent nearer less e here)⟩, same⟩

theorem first_or_undeclared (r : Registry β) (own : ClassImage β → Option α) (c : ClassImage β) :
    (∃ d a, r.First own c d a) ∨ r.Undeclared own c := by
  have search (n : Nat) : (∃ d a, r.First own c d a) ∨ r.Silent own c n := by
    induction n with
    | zero => exact .inr fun _ => nofun
    | succ n ih =>
      refine ih.elim .inl fun silent => ?_
      by_cases found : ∃ d a, r.above? c n = some d ∧ own d = some a
      · obtain ⟨d, a, here, declares⟩ := found
        exact .inl ⟨d, a, n, here, declares, silent⟩
      · refine .inr fun nearer less e here => ?_
        rcases Nat.lt_succ_iff_lt_or_eq.1 less with less | rfl
        · exact silent nearer less e here
        · exact Option.eq_none_iff_forall_ne_some.2 fun a declares => found ⟨e, a, here, declares⟩
  by_cases found : ∃ d a, r.First own c d a
  · exact .inl found
  · exact .inr fun steps d here =>
      ((search (steps + 1)).resolve_left found) steps (Nat.lt_succ_self _) d here

/-! ## Searches -/

/-- The search goes from a class that declares nothing to the loaded superclass. -/
def Climbs {γ : Type} (r : Registry β) (own : ClassImage β → Option α)
    (search : Nat → ClassImage β → γ) : Prop :=
  ∀ bound c d, own c = none → r.parent? c = some d → search (bound + 1) c = search bound d

namespace Climbs

variable {γ : Type} {search : Nat → ClassImage β → γ}

/-- A search passes by the classes that declare nothing. -/
theorem above (climbs : r.Climbs own search) (bound : Nat) (reached : r.above? c steps = some d)
    (silent : r.Silent own c steps) : search (steps + bound) c = search bound d := by
  induction steps generalizing d bound with
  | zero =>
    cases reached
    rw [Nat.zero_add]
  | succ steps ih =>
    obtain ⟨e, here, up⟩ := Option.bind_eq_some_iff.1 reached
    have nearer : r.Silent own c steps := fun n less => silent n (Nat.lt_succ_of_lt less)
    rw [Nat.add_right_comm, Nat.add_assoc, ih (bound + 1) here nearer]
    exact climbs bound e d (silent steps (Nat.lt_succ_self _) e here) up

/-- At a class that is near enough a search may look once more. -/
theorem look (climbs : r.Climbs own search) (reached : r.above? c steps = some d)
    (near : steps < bound) (silent : r.Silent own c steps) :
    ∃ more, search bound c = search (more + 1) d := by
  obtain ⟨more, rfl⟩ : ∃ more, bound = steps + (more + 1) := ⟨bound - steps - 1, by omega⟩
  exact ⟨more, climbs.above (more + 1) reached silent⟩

end Climbs

/-! ## Methods -/

/-- What calling a method on an object of class `c` comes to, by the whole chain of `c`. -/
inductive Resolves (r : Registry β) (c : ClassImage β) (method : String) (caller : Option String) :
    Except Fault β → Prop where
  | reached {d : ClassImage β} {image : MethodImage β}
      (first : r.First (·.methods.find? method) c d image)
      (allowed : image.visibility = .shown ∨ caller = some d.name) :
      Resolves r c method caller (.ok image.code)
  | refused {d : ClassImage β} {image : MethodImage β}
      (first : r.First (·.methods.find? method) c d image)
      (secret : image.visibility = .hidden) (other : caller ≠ some d.name) :
      Resolves r c method caller (.error (.privateMethod method))
  | broken {missing : String} (undeclared : r.Undeclared (·.methods.find? method) c)
      (breaks : r.Breaks c missing) : Resolves r c method caller (.error (.unknownClass missing))
  | absent (undeclared : r.Undeclared (·.methods.find? method) c) (unfound : r.Ends c ∨ r.Cycles c) :
      Resolves r c method caller (.error (.methodNotFound method))

theorem climbs_resolveMethodIn (r : Registry β) (method : String) (caller : Option String) :
    r.Climbs (·.methods.find? method) (r.resolveMethodIn method caller) := by
  intro bound c d silent up
  obtain ⟨name, superclass, known⟩ := Option.bind_eq_some_iff.1 up
  simp only [resolveMethodIn, silent, superclass, known]

/-- A search that may look at more classes than are loaded comes to what the whole chain says. -/
theorem Resolves.resolveMethodIn {result : Except Fault β} (resolves : r.Resolves c member caller result)
    (enough : r.size < bound) : r.resolveMethodIn member caller bound c = result := by
  have climbs := r.climbs_resolveMethodIn member caller
  cases resolves with
  | @reached d image first allowed =>
    obtain ⟨m, near, here, defined, silent⟩ := first.near
    obtain ⟨more, passed⟩ := climbs.look here (Nat.lt_of_le_of_lt near enough) silent
    have shown : ¬ (image.visibility = .hidden ∧ caller ≠ some d.name) := by
      rintro ⟨secret, other⟩
      exact allowed.elim (fun shown => by simp [shown] at secret) other
    rw [passed, Registry.resolveMethodIn, defined]
    exact if_neg shown
  | @refused d image first secret other =>
    obtain ⟨m, near, here, defined, silent⟩ := first.near
    obtain ⟨more, passed⟩ := climbs.look here (Nat.lt_of_le_of_lt near enough) silent
    rw [passed, Registry.resolveMethodIn, defined]
    exact if_pos ⟨secret, other⟩
  | @broken missing undeclared breaks =>
    obtain ⟨m, d, reached, superclass, unknown⟩ := breaks
    obtain ⟨m, -, near, here⟩ := above?_near reached
    obtain ⟨more, passed⟩ := climbs.look here (Nat.lt_of_le_of_lt near enough) (undeclared.silent m)
    simp only [passed, Registry.resolveMethodIn, undeclared m d here, superclass, unknown]
  | absent undeclared unfound =>
    rcases unfound with ⟨m, d, reached, superclass⟩ | cycles
    · obtain ⟨m, -, near, here⟩ := above?_near reached
      obtain ⟨more, passed⟩ := climbs.look here (Nat.lt_of_le_of_lt near enough) (undeclared.silent m)
      simp only [passed, Registry.resolveMethodIn, undeclared m d here, superclass]
    · obtain ⟨d, reached⟩ := cycles.unending bound
      exact climbs.above 0 reached (undeclared.silent bound)

/-- Every call comes to something. -/
theorem exists_resolves (r : Registry β) (c : ClassImage β) (method : String) (caller : Option String) :
    ∃ result, r.Resolves c method caller result := by
  rcases r.first_or_undeclared (·.methods.find? method) c with ⟨d, image, first⟩ | undeclared
  · by_cases allowed : image.visibility = .shown ∨ caller = some d.name
    · exact ⟨_, .reached first allowed⟩
    · obtain ⟨secret, other⟩ := not_or.1 allowed
      exact ⟨_, .refused first (Visibility.eq_hidden secret) other⟩
  · rcases r.chain_cases c with ends | cycles | ⟨missing, breaks⟩
    · exact ⟨_, .absent undeclared (.inl ends)⟩
    · exact ⟨_, .absent undeclared (.inr cycles)⟩
    · exact ⟨_, .broken undeclared breaks⟩

theorem resolveMethodIn_eq_iff {result : Except Fault β} (enough : r.size < bound) :
    r.resolveMethodIn member caller bound c = result ↔ r.Resolves c member caller result := by
  obtain ⟨answer, resolves⟩ := r.exists_resolves c member caller
  rw [resolves.resolveMethodIn enough]
  constructor
  · rintro rfl
    exact resolves
  · intro resolves'
    exact (resolves.resolveMethodIn enough).symm.trans (resolves'.resolveMethodIn enough)

/-! ## Fields -/

theorem climbs_checkFieldIn (r : Registry β) (field : String) (caller : Option String) :
    r.Climbs (·.fields.find? field) (r.checkFieldIn field caller) := by
  intro bound c d silent up
  have known : c.superclass.bind r.byName? = some d := up
  simp only [checkFieldIn, silent, known]

/-- The first class that declares a field decides on its own. -/
theorem First.checkFieldIn {image : FieldImage} (first : r.First (·.fields.find? member) c d image)
    (enough : r.size < bound) : r.checkFieldIn member caller bound c
      = if image.visibility = .hidden ∧ caller ≠ some d.name then .error (.privateField member)
        else .ok () := by
  obtain ⟨m, near, here, declared, silent⟩ := first.near
  obtain ⟨more, passed⟩ :=
    (r.climbs_checkFieldIn member caller).look here (Nat.lt_of_le_of_lt near enough) silent
  rw [passed, Registry.checkFieldIn, declared]

/-- A field that no class declares may be used. -/
theorem Undeclared.checkFieldIn (undeclared : r.Undeclared (·.fields.find? member) c) :
    r.checkFieldIn member caller bound c = .ok () := by
  induction bound generalizing c with
  | zero => rfl
  | succ bound ih =>
    have silent : c.fields.find? member = none := undeclared 0 c rfl
    cases up : r.parent? c with
    | none =>
      have unknown : c.superclass.bind r.byName? = none := up
      simp only [Registry.checkFieldIn, silent, unknown]
    | some d =>
      rw [r.climbs_checkFieldIn member caller bound c d silent up]
      exact ih fun steps e here => undeclared (steps + 1) e ((above?_parent up steps).trans here)

theorem checkFieldIn_eq (enough : r.size < bound) :
    r.checkFieldIn member caller bound c = r.checkField c member caller := by
  rcases r.first_or_undeclared (·.fields.find? member) c with ⟨d, image, first⟩ | undeclared
  · exact (first.checkFieldIn enough).trans (first.checkFieldIn (Nat.lt_succ_self _)).symm
  · exact undeclared.checkFieldIn.trans undeclared.checkFieldIn.symm

/-! ## Members -/

/-- A call of a method and a use of a field are decided along the whole chain, as far as it goes and
whatever it comes to; a search with a larger bound comes to the same. -/
theorem members_resolve (r : Registry β) (c : ClassImage β) (member : String) (caller : Option String) :
    (∀ result, r.resolveMethod c member caller = result ↔ r.Resolves c member caller result)
    ∧ (r.checkField c member caller = .ok () ↔
        (∃ d image, r.First (·.fields.find? member) c d image
          ∧ (image.visibility = .shown ∨ caller = some d.name))
        ∨ r.Undeclared (·.fields.find? member) c)
    ∧ (r.checkField c member caller = .ok ()
        ∨ r.checkField c member caller = .error (.privateField member))
    ∧ ∀ more, r.resolveMethodIn member caller (r.size + 1 + more) c = r.resolveMethod c member caller
        ∧ r.checkFieldIn member caller (r.size + 1 + more) c = r.checkField c member caller := by
  have enough : r.size < r.size + 1 := Nat.lt_succ_self _
  refine ⟨fun result => resolveMethodIn_eq_iff enough, ?_, ?_, fun more => ⟨?_, ?_⟩⟩
  · constructor
    · intro passes
      rcases r.first_or_undeclared (·.fields.find? member) c with ⟨d, image, first⟩ | undeclared
      · refine .inl ⟨d, image, first, ?_⟩
        rw [checkField, first.checkFieldIn enough] at passes
        by_contra refused
        obtain ⟨secret, other⟩ := not_or.1 refused
        rw [if_pos ⟨Visibility.eq_hidden secret, other⟩] at passes
        cases passes
      · exact .inr undeclared
    · rintro (⟨d, image, first, allowed⟩ | undeclared)
      · rw [checkField, first.checkFieldIn enough, if_neg]
        rintro ⟨secret, other⟩
        exact allowed.elim (fun shown => by simp [shown] at secret) other
      · exact undeclared.checkFieldIn
  · rcases r.first_or_undeclared (·.fields.find? member) c with ⟨d, image, first⟩ | undeclared
    · rw [checkField, first.checkFieldIn enough]
      split
      · exact .inr rfl
      · exact .inl rfl
    · exact .inl undeclared.checkFieldIn
  · obtain ⟨result, resolves⟩ := r.exists_resolves c member caller
    have more_enough : r.size < r.size + 1 + more := by omega
    exact (resolves.resolveMethodIn more_enough).trans (resolves.resolveMethodIn enough).symm
  · exact checkFieldIn_eq (by omega)

end Registry

end Monogram
