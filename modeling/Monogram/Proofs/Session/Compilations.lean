import Mathlib.Algebra.Group.Nat.Defs
import Monogram.Proofs.Lowering.Naming
import Monogram.Session

/-! # Programs lowered one after the other

The code of a program holds slots and class numbers, so it can be run later only if no program
lowered in between moves a name.  No program does, whether it has code or not.

* `Names.takeAll` — the names behind texts, some of which have no code.
* `Indexed` — what the names are: those of the texts that have code, in order.
* `Keeps` — every slot and every class number stays with its name.
* `Names.takeAll_sound` — texts one after the other.
-/

namespace Monogram

namespace Names

/-- Lowers a program and takes over its names.  A program without code leaves the names alone. -/
def take (names : Names) (statements : List Stmt) : Except LoweringError Program × Names :=
  match names.lowerProgram statements with
  | .ok (p, known) => (.ok p, known)
  | .error e => (.error e, names)

/-- The names behind programs lowered one after the other. -/
def takeAll (names : Names) (entries : List (List Stmt)) : Names :=
  entries.foldl (fun names statements => (names.take statements).2) names

/-- Those of the programs that have code. -/
def accepted : Names → List (List Stmt) → List (List Stmt)
  | _, [] => []
  | names, statements :: rest =>
    match names.lowerProgram statements with
    | .ok (_, known) => statements :: known.accepted rest
    | .error _ => names.accepted rest

theorem takeAll_append (names : Names) (entries more : List (List Stmt)) :
    names.takeAll (entries ++ more) = (names.takeAll entries).takeAll more :=
  List.foldl_append

theorem take_of_ok {names known : Names} {statements : List Stmt} {p : Program}
    (lowered : names.lowerProgram statements = .ok (p, known)) :
    names.take statements = (.ok p, known) := by
  rw [take, lowered]

theorem take_of_error {names : Names} {statements : List Stmt} {e : LoweringError}
    (fails : names.lowerProgram statements = .error e) : names.take statements = (.error e, names) := by
  rw [take, fails]

/-- The names behind programs are those of the programs that have code, added in order. -/
theorem takeAll_eq (names : Names) (entries : List (List Stmt)) :
    names.takeAll entries
      = ⟨names.classes.insertAll ((names.accepted entries).flatMap classNames),
        names.globals.insertAll ((names.accepted entries).flatMap globalsTop)⟩ := by
  induction entries generalizing names with
  | nil => rfl
  | cons statements rest ih =>
    show (names.take statements).2.takeAll rest = _
    cases lowered : names.lowerProgram statements with
    | error e =>
      rw [take_of_error lowered, ih, accepted, lowered]
    | ok result =>
      obtain ⟨p, known⟩ := result
      rw [take_of_ok lowered, ih, accepted, lowered]
      simp only [List.flatMap_cons, Pool.insertAll_append]
      rw [lowerProgram_names lowered]

end Names

/-! ## Slots and class numbers -/

/-- The names are those of the given programs, each numbered where it came first. -/
structure Indexed (names : Names) (programs : List (List Stmt)) : Prop where
  globals : names.globals.names = (programs.flatMap globalsTop).eraseDups
  globals_distinct : names.globals.names.Nodup
  slot_iff : ∀ name slot, names.slot? name = some slot ↔ names.globals.names[slot]? = some name
  classes : names.classes.names = (programs.flatMap classNames).eraseDups
  classId_iff : ∀ name id, names.classId? name = some id ↔
    ∃ place, names.classes.names[place]? = some name ∧ id = firstClassId + place
  classId_injective : ∀ name name' id, names.classId? name = some id → names.classId? name' = some id →
    name = name'
  /-- With this many classes the next number is still a word. -/
  classId_bounds : ∀ name id, names.classId? name = some id →
    firstClassId ≤ id ∧ (names.classes.size < 2 ^ 32 - firstClassId → id + 1 < 2 ^ 32)

/-- What has a slot or a number keeps it, and nothing else gets it. -/
structure Keeps (names later : Names) : Prop where
  slots : ∀ name slot, names.slot? name = some slot →
    ∀ other, later.slot? other = some slot ↔ other = name
  classIds : ∀ name id, names.classId? name = some id →
    ∀ other, later.classId? other = some id ↔ other = name

/-- The names behind programs that start from nothing. -/
theorem Names.takeAll_indexed (entries : List (List Stmt)) :
    Indexed (empty.takeAll entries) (empty.accepted entries) where
  globals := by
    rw [takeAll_eq]
    exact Pool.names_insertAll_empty _
  globals_distinct := (empty.takeAll entries).globals.distinct
  slot_iff := (empty.takeAll entries).globals.index?_eq_some_iff
  classes := by
    rw [takeAll_eq]
    exact Pool.names_insertAll_empty _
  classId_iff := (empty.takeAll entries).classId?_iff
  classId_injective _ _ _ here there := classId?_injective here there
  classId_bounds name id here := by
    obtain ⟨place, stands, rfl⟩ := (classId?_iff ..).1 here
    obtain ⟨inside, -⟩ := List.getElem?_eq_some_iff.1 stands
    refine ⟨Nat.le_add_right _ _, fun few => ?_⟩
    have word : ∀ first : Nat, (empty.takeAll entries).classes.names.length < 2 ^ 32 - first →
        first + place + 1 < 2 ^ 32 := fun first few => by omega
    exact word firstClassId few

theorem getElem?_of_prefix {l l' : List String} (front : l <+: l') {i : Nat} {a : String}
    (here : l[i]? = some a) : l'[i]? = some a := by
  obtain ⟨rest, rfl⟩ := front
  obtain ⟨inside, -⟩ := List.getElem?_eq_some_iff.1 here
  rw [List.getElem?_append_left inside, here]

/-- More programs only add names at the end. -/
theorem Names.takeAll_keeps (names : Names) (more : List (List Stmt)) :
    Keeps names (names.takeAll more) := by
  have classes : names.classes.names <+: (names.takeAll more).classes.names := by
    rw [takeAll_eq]
    exact Pool.prefix_insertAll _ _
  have globals : names.globals.names <+: (names.takeAll more).globals.names := by
    rw [takeAll_eq]
    exact Pool.prefix_insertAll _ _
  constructor
  · intro name slot here other
    have still := getElem?_of_prefix globals ((Pool.index?_eq_some_iff ..).1 here)
    show (names.takeAll more).globals.index? other = some slot ↔ _
    rw [Pool.index?_eq_some_iff, still, Option.some_inj, eq_comm]
  · intro name id here other
    obtain ⟨place, stands, rfl⟩ := (classId?_iff ..).1 here
    have still := getElem?_of_prefix classes stands
    rw [classId?_iff]
    constructor
    · rintro ⟨place', there, same⟩
      obtain rfl : place = place' := Nat.add_left_cancel same
      exact Option.some.inj (there.symm.trans still)
    · rintro rfl
      exact ⟨place, still, rfl⟩

/-! ## Classes of a program -/

/-- The classes of a program that the statements become: named once each, in the order of their first
declarations, and each made of its last one. -/
structure ClassesOf (statements : List Stmt) (names later : Names) (p : Program) : Prop where
  ordered : p.classes.values.map ClassImage.name = (classNames statements).eraseDups
  distinct : (p.classes.values.map ClassImage.name).Nodup
  made : ∀ image ∈ p.classes.values,
    Declares statements ∅ 0 (names.addClasses statements) image.name image
      ∧ later.classId? image.name = some image.id

theorem Table.find?_of_mem {α : Type} {t : Table α} (distinct : t.names.Nodup) {name : String} {value : α}
    (member : (name, value) ∈ t.entries) : t.find? name = some value := by
  obtain ⟨entries⟩ := t
  simp only [find?, names] at distinct member ⊢
  induction entries with
  | nil => cases member
  | cons entry rest ih =>
    obtain ⟨key, other⟩ := entry
    obtain ⟨absent, others⟩ := List.nodup_cons.1 distinct
    rcases List.mem_cons.1 member with same | member
    · cases same
      exact if_pos rfl
    · have among : name ∈ rest.map Prod.fst := List.mem_map_of_mem (f := Prod.fst) member
      have apart : key ≠ name := fun same => absent (same ▸ among)
      rw [findIn, if_neg apart]
      exact ih others member

/-- A class that the statements declare is known behind them under the number of its image. -/
theorem Names.classId?_addGlobals (names : Names) (l : List String) (name : String) :
    (names.addGlobals l).classId? name = names.classId? name := rfl

theorem Pool.mem_insertAll {p : Pool} {l : List String} {name : String} :
    name ∈ (p.insertAll l).names ↔ name ∈ p.names ∨ name ∈ l := by
  induction l generalizing p with
  | nil => simp [insertAll]
  | cons first rest ih =>
    show name ∈ ((p.insert first).insertAll rest).names ↔ _
    rw [ih, names_insert, List.mem_cons, ← or_assoc]
    by_cases there : first ∈ p.names
    · rw [if_pos there]
      refine or_congr_left ⟨.inl, ?_⟩
      rintro (old | rfl)
      · exact old
      · exact there
    · simp [there]

theorem Names.classId?_declared (names : Names) {statements : List Stmt} {name : String}
    (declared : name ∈ classNames statements) :
    ∃ id, (names.addClasses statements).classId? name = some id := by
  rw [addClasses_eq]
  have member := (Pool.mem_insertAll (p := names.classes)).2 (.inr declared)
  obtain ⟨place, here⟩ := List.getElem?_of_mem member
  exact ⟨_, (classId?_iff ..).2 ⟨place, here, rfl⟩⟩

theorem Names.lowerProgram_classes {names later : Names} {statements : List Stmt} {p : Program}
    (lowered : names.lowerProgram statements = .ok (p, later)) : ClassesOf statements names later p := by
  obtain ⟨⟨top, known⟩, first, lowered⟩ := Except.bind_eq_ok lowered
  cases lowered
  have none : (∅ : Table ClassImage).names = List.eraseDups [] := rfl
  have listed : top.classes.names = (classNames statements).eraseDups :=
    lowerTop_class_names statements first none
  have once : top.classes.names.Nodup := listed ▸ nodup_eraseDups _
  have declares : ∀ entry ∈ top.classes.entries,
      Declares statements ∅ 0 (names.addClasses statements) entry.1 entry.2 := by
    intro entry member
    have found := Table.find?_of_mem once member
    exact (lowerTop_declares statements first found).elim id fun ⟨_, old⟩ => nomatch old
  have named : top.classes.values.map ClassImage.name = top.classes.names := by
    simp only [Table.values, Table.names, List.map_map]
    exact List.map_congr_left fun entry member => (declares entry member).named
  refine ⟨named.trans listed, named ▸ once, fun image member => ?_⟩
  obtain ⟨⟨key, image⟩, here, rfl⟩ := List.mem_map.1 member
  have made : Declares statements ∅ 0 (names.addClasses statements) key image := declares _ here
  obtain rfl : image.name = key := made.named
  have mentioned : image.name ∈ classNames statements := by
    rw [← List.mem_eraseDups, ← listed]
    exact List.mem_map_of_mem (f := Prod.fst) here
  obtain ⟨id, numbered⟩ := names.classId?_declared mentioned
  refine ⟨made, ?_⟩
  rw [lowerTop_names statements first, classId?_addGlobals, made.numbered, numbered]
  rfl

/-! ## Sessions -/

/-- A session takes a text as its names take the statements of the text. -/
theorem Session.compile_eq (s : Session) (text : String) :
    s.compile text = match s.names.take (Source.read text).statements with
      | (.ok program, names) => (.ok ⟨program, (Source.read text).diagnostics⟩, { s with names })
      | (.error e, _) => (.error (.compilation e), s) := by
  simp only [compile, Names.compile, Names.take]
  cases s.names.lowerProgram (Source.read text).statements with
  | error e => rfl
  | ok result => rfl

/-- Programs lowered one after the other, some of which have no code.  `entries` are those so far,
`more` those that follow, and `statements` the next one. -/
theorem Names.takeAll_sound (entries more : List (List Stmt)) (statements : List Stmt) :
    Indexed (empty.takeAll entries) (empty.accepted entries)
    ∧ Keeps (empty.takeAll entries) (empty.takeAll (entries ++ more))
    ∧ (∀ e later, (empty.takeAll entries).take statements = (.error e, later) →
      later = empty.takeAll entries)
    ∧ (∀ p later, (empty.takeAll entries).take statements = (.ok p, later) →
      ClassesOf statements (empty.takeAll entries) later p)
    ∧ ∀ (s : Session) (text : String), s.names = empty.takeAll entries →
      (s.compile text).2
        = { s with names := empty.takeAll (entries ++ [(Source.read text).statements]) }
      ∧ ∀ e, (s.compile text).1 = .error e → (s.compile text).2 = s := by
  refine ⟨takeAll_indexed entries, ?_, fun e later fails => ?_, fun p later made => ?_,
    fun s text known => ?_⟩
  · rw [takeAll_append]
    exact takeAll_keeps _ more
  · cases lowered : (empty.takeAll entries).lowerProgram statements with
    | error _ =>
      rw [take_of_error lowered] at fails
      exact (congrArg Prod.snd fails).symm
    | ok result =>
      rw [take_of_ok lowered] at fails
      cases congrArg Prod.fst fails
  · cases lowered : (empty.takeAll entries).lowerProgram statements with
    | error _ =>
      rw [take_of_error lowered] at made
      cases congrArg Prod.fst made
    | ok result =>
      rw [take_of_ok lowered] at made
      cases made
      exact lowerProgram_classes lowered
  · rw [Session.compile_eq, takeAll_append, known]
    have next : ∀ statements, (empty.takeAll entries).takeAll [statements]
        = ((empty.takeAll entries).take statements).2 := fun _ => rfl
    rw [next]
    cases lowered : (empty.takeAll entries).lowerProgram (Source.read text).statements with
    | error e =>
      rw [take_of_error lowered]
      exact ⟨by rw [← known], fun _ _ => rfl⟩
    | ok result =>
      obtain ⟨p, later⟩ := result
      rw [take_of_ok lowered]
      exact ⟨rfl, fun _ => nofun⟩

/-- A global and a class. -/
def opening : List Stmt :=
  [.declare ⟨5, "x", some (.list []), none, false⟩, .classDecl ⟨"A", none, [], [], [], false⟩]

/-- A class and a global in front of a method that stands outside of a class. -/
def strayMethod : List Stmt :=
  [.classDecl ⟨"B", none, [], [], [], false⟩, .declare ⟨5, "y", none, none, false⟩,
    .method ⟨"m", [], [], 0, none, false⟩]

/-- A class that is declared twice, around one that was known before. -/
def twice : List Stmt :=
  [.classDecl ⟨"C", none,
      [⟨"f", [], [.declare ⟨5, "u", none, none, false⟩], 0, none, false⟩], [], [], false⟩,
    .classDecl ⟨"A", none, [], [], [], false⟩,
    .classDecl ⟨"C", none, [⟨"g", [], [], 0, none, false⟩], [], [], false⟩]

theorem takeAll_sound_twice :
    Indexed (Names.empty.takeAll [opening, strayMethod]) [opening]
    ∧ Keeps (Names.empty.takeAll [opening, strayMethod])
      (Names.empty.takeAll [opening, strayMethod, twice, strayMethod])
    ∧ (∀ e later, (Names.empty.takeAll [opening]).take strayMethod = (.error e, later) →
      later = Names.empty.takeAll [opening])
    ∧ (∃ e later, (Names.empty.takeAll [opening]).take strayMethod = (.error e, later))
    ∧ ∃ p later, (Names.empty.takeAll [opening, strayMethod]).take twice = (.ok p, later)
      ∧ ClassesOf twice (Names.empty.takeAll [opening, strayMethod]) later p
      ∧ later.classes.names = ["A", "C"] ∧ later.globals.names = ["x", "u"] := by
  obtain ⟨indexed, keeps, -, made, -⟩ :=
    Names.takeAll_sound [opening, strayMethod] [twice, strayMethod] twice
  obtain ⟨-, -, fails, -, -⟩ := Names.takeAll_sound [opening] [] strayMethod
  have taken : (Names.empty.takeAll [opening, strayMethod]).take twice = (.ok _, _) := rfl
  exact ⟨indexed, keeps, fails, ⟨_, _, rfl⟩, _, _, taken, made _ _ taken, by decide, by decide⟩

end Monogram
