import Mathlib.Data.List.Induction
import Mathlib.Data.List.Nodup
import Monogram.Proofs.Lowering.Trees

/-! # What a program makes known

A program adds the classes that its text declares to the one pool of names and its globals to the
other, each behind the names that are there.  A name that is there stays where it is.

* `Pool.insertAll` — names added one after the other.
* `Stmt.globals`, `globalsTop` — the globals that a text declares, in the order of the lowering.
* `Names.lowerProgram_names` — the names behind a program.
* `Declares`, `lowerTop_declares` — the classes of a program are those declared last under their names.
-/

namespace Monogram

/-! ## Pools -/

theorem eraseDups_concat (l : List String) (a : String) :
    (l ++ [a]).eraseDups = if a ∈ l then l.eraseDups else l.eraseDups ++ [a] := by
  rw [List.eraseDups_append]
  by_cases member : a ∈ l <;> simp [List.removeAll, List.eraseDups_cons, member]

namespace Pool

/-- Adds names one after the other. -/
def insertAll (p : Pool) (l : List String) : Pool := l.foldl insert p

theorem insertAll_append (p : Pool) (l l' : List String) :
    p.insertAll (l ++ l') = (p.insertAll l).insertAll l' :=
  List.foldl_append

theorem names_insert (p : Pool) (name : String) :
    (p.insert name).names = if name ∈ p.names then p.names else p.names ++ [name] := by
  by_cases member : name ∈ p.names
  · rw [names_insert_of_mem member, if_pos member]
  · rw [names_insert_of_not_mem member, if_neg member]

/-- A pool keeps each name where it came first. -/
theorem names_insertAll_empty (l : List String) : (empty.insertAll l).names = l.eraseDups := by
  -- A name is added behind all others, so the induction goes from the end.
  induction l using List.reverseRecOn with
  | nil => rfl
  | append_singleton l name ih =>
    rw [insertAll_append, eraseDups_concat]
    show ((empty.insertAll l).insert name).names = _
    simp only [names_insert, ih, List.mem_eraseDups]

theorem prefix_insertAll (p : Pool) (l : List String) : p.names <+: (p.insertAll l).names := by
  induction l generalizing p with
  | nil => exact List.prefix_refl _
  | cons name rest ih =>
    refine List.IsPrefix.trans ?_ (ih (p.insert name))
    rw [names_insert]
    split
    · exact List.prefix_refl _
    · exact List.prefix_append _ _

/-- A name has a number exactly where it stands. -/
theorem index?_eq_some_iff (p : Pool) (name : String) (i : Nat) :
    p.index? name = some i ↔ p.names[i]? = some name := by
  rw [index?, List.idxOf?_eq_some_iff, List.getElem?_eq_some_iff]
  refine ⟨fun ⟨inside, here, _⟩ => ⟨inside, here⟩, fun ⟨inside, here⟩ => ⟨inside, here, ?_⟩⟩
  intro j before same
  have once : j = i := (List.Nodup.getElem_inj_iff p.distinct).1 (same.trans here.symm)
  omega

end Pool

theorem nodup_eraseDups (l : List String) : l.eraseDups.Nodup := by
  rw [← Pool.names_insertAll_empty]
  exact (Pool.empty.insertAll l).distinct

/-! ## Globals -/

mutual

/-- The globals that a statement declares. -/
def Stmt.globals : Stmt → List String
  | .declare decl => [decl.name]
  | .block body => globalsBlock body
  | .ifThen _ yes => yes.globals
  | .ifElse _ yes no => yes.globals ++ no.globals
  | .loop _ body => body.globals
  | .tryHandle body _ binding handler => globalsBlock body ++ ([binding] ++ globalsBlock handler)
  | .expression _ | .giveBack _ | .method _ | .classDecl _ => []

/-- The globals that statements declare. -/
def globalsBlock : List Stmt → List String
  | [] => []
  | s :: rest => s.globals ++ globalsBlock rest

end

/-- The globals that the methods of a class declare. -/
def ClassDecl.globals (d : ClassDecl) : List String := d.methods.flatMap fun m => globalsBlock m.body

/-- The globals that top-level statements declare.  An interface declares none. -/
def globalsTop : List Stmt → List String
  | [] => []
  | .classDecl d :: rest => (if d.isInterface then [] else d.globals) ++ globalsTop rest
  | s :: rest => s.globals ++ globalsTop rest

theorem globalsTop_append (front back : List Stmt) :
    globalsTop (front ++ back) = globalsTop front ++ globalsTop back := by
  induction front with
  | nil => rfl
  | cons s rest ih => cases s <;> simp [globalsTop, ih]

/-- The names of the classes that top-level statements declare, interfaces aside. -/
def classNames (statements : List Stmt) : List String :=
  (statements.filterMap Stmt.class?).map ClassDecl.name

namespace Names

theorem classId?_iff (names : Names) (name : String) (id : ClassId) :
    names.classId? name = some id ↔
      ∃ place, names.classes.names[place]? = some name ∧ id = firstClassId + place := by
  simp only [classId?, Option.map_eq_some_iff, Pool.index?_eq_some_iff]
  exact ⟨fun ⟨place, here, same⟩ => ⟨place, here, same.symm⟩,
    fun ⟨place, here, same⟩ => ⟨place, here, same.symm⟩⟩

theorem classId?_injective {names : Names} {name other : String} {id : ClassId}
    (here : names.classId? name = some id) (there : names.classId? other = some id) :
    name = other := by
  obtain ⟨place, stands, rfl⟩ := (classId?_iff ..).1 here
  obtain ⟨place', stands', same⟩ := (classId?_iff ..).1 there
  obtain rfl : place = place' := Nat.add_left_cancel same
  exact Option.some.inj (stands.symm.trans stands')

/-- Makes names declared globals. -/
def addGlobals (names : Names) (l : List String) : Names :=
  { names with globals := names.globals.insertAll l }

theorem addGlobals_append (names : Names) (l l' : List String) :
    names.addGlobals (l ++ l') = (names.addGlobals l).addGlobals l' := by
  simp only [addGlobals, Pool.insertAll_append]

theorem addClasses_eq (names : Names) (statements : List Stmt) :
    names.addClasses statements
      = { names with classes := names.classes.insertAll (classNames statements) } := by
  unfold addClasses classNames
  induction statements.filterMap Stmt.class? generalizing names with
  | nil => rfl
  | cons d rest ih => exact ih (names.addClass d.name)

end Names

mutual

theorem Stmt.declared_eq : ∀ (s : Stmt) (names : Names), s.declared names = names.addGlobals s.globals
  | .declare _, _ => rfl
  | .block body, names => declaredBlock_eq body names
  | .ifThen _ yes, names => yes.declared_eq names
  | .ifElse _ yes no, names => by
    simp only [Stmt.declared, Stmt.globals, Names.addGlobals_append, yes.declared_eq names,
      no.declared_eq]
  | .loop _ body, names => body.declared_eq names
  | .tryHandle body _ binding handler, names => by
    simp only [Stmt.declared, Stmt.globals, Names.addGlobals_append, declaredBlock_eq body,
      declaredBlock_eq handler]
    rfl
  | .expression _, _ | .giveBack _, _ | .method _, _ | .classDecl _, _ => rfl

theorem declaredBlock_eq : ∀ (body : List Stmt) (names : Names),
    declaredBlock body names = names.addGlobals (globalsBlock body)
  | [], _ => rfl
  | s :: rest, names => by
    simp only [declaredBlock, globalsBlock, Names.addGlobals_append, s.declared_eq names,
      declaredBlock_eq rest]

end

theorem ClassDecl.declared_eq (d : ClassDecl) (names : Names) :
    d.declared names = names.addGlobals d.globals := by
  unfold ClassDecl.declared ClassDecl.globals
  induction d.methods generalizing names with
  | nil => rfl
  | cons m rest ih =>
    rw [List.foldl_cons, ih, List.flatMap_cons, Names.addGlobals_append, declaredBlock_eq]

/-- The names known behind top-level statements. -/
theorem lowerTop_names : ∀ (statements : List Stmt) {classes : Table ClassImage} {address : Nat}
    {names names' : Names} {top : TopCode},
    lowerTop statements classes address names = .ok (top, names') →
    names' = names.addGlobals (globalsTop statements)
  | [], _, _, _, _, _, h => by
    cases h
    rfl
  | s :: rest, classes, address, names, names', top, h => by
    cases s with
    | classDecl d =>
      simp only [lowerTop] at h
      simp only [globalsTop]
      cases kind : d.isInterface with
      | true =>
        rw [kind, if_pos rfl] at h
        exact lowerTop_names rest h
      | false =>
        rw [kind, if_neg Bool.false_ne_true] at h
        obtain ⟨⟨image, names₁⟩, lowered, h⟩ := Except.bind_eq_ok h
        obtain ⟨-, -, rfl⟩ := ClassDecl.lower_eq lowered
        rw [if_neg Bool.false_ne_true, Names.addGlobals_append, ← d.declared_eq]
        exact lowerTop_names rest h
    | _ =>
      obtain ⟨⟨first, names₁⟩, lowered, h⟩ := Except.bind_eq_ok h
      obtain ⟨⟨others, names₂⟩, remaining, h⟩ := Except.bind_eq_ok h
      cases h
      have known := (Stmt.lower_names _ lowered).trans (Stmt.declared_eq _ names)
      rw [lowerTop_names rest remaining, known, ← Names.addGlobals_append]
      rfl

/-- The names known behind a program: first its classes are added, then its globals. -/
theorem Names.lowerProgram_names {names names' : Names} {statements : List Stmt} {p : Program}
    (lowered : names.lowerProgram statements = .ok (p, names')) :
    names' = ⟨names.classes.insertAll (classNames statements),
      names.globals.insertAll (globalsTop statements)⟩ := by
  obtain ⟨⟨top, known⟩, first, lowered⟩ := Except.bind_eq_ok lowered
  cases lowered
  rw [lowerTop_names statements first, addClasses_eq]
  rfl

/-! ## Classes -/

/-- The class is made of the last declaration of its name among the statements, under the names that
were known there. -/
structure Declares (statements : List Stmt) (classes : Table ClassImage) (address : Nat) (names : Names)
    (name : String) (image : ClassImage) : Prop where
  last : ∃ before d after, statements = before ++ .classDecl d :: after ∧ d.isInterface = false
    ∧ d.name = name ∧ name ∉ classNames after
    ∧ ∃ top known known', lowerTop before classes address names = .ok (top, known)
      ∧ d.lower image.id known = .ok (image, known')
  named : image.name = name
  numbered : image.id = (names.classId? name).getD firstClassId

theorem ClassDecl.lower_name_id {d : ClassDecl} {id : ClassId} {names names' : Names}
    {image : ClassImage} (h : d.lower id names = .ok (image, names')) :
    image.name = d.name ∧ image.id = id := by
  obtain ⟨rfl, -, -⟩ := ClassDecl.lower_eq h
  exact ⟨rfl, rfl⟩

namespace Declares

variable {rest : List Stmt} {classes : Table ClassImage} {address : Nat} {names names₁ : Names}
  {name : String} {image : ClassImage}

/-- The same behind one more statement. -/
theorem cons {s : Stmt} {classes₁ : Table ClassImage} {address₁ : Nat}
    (declares : Declares rest classes₁ address₁ names₁ name image)
    (numbers : names₁.classId? name = names.classId? name)
    (front : ∀ before top known, lowerTop before classes₁ address₁ names₁ = .ok (top, known) →
      ∃ top, lowerTop (s :: before) classes address names = .ok (top, known)) :
    Declares (s :: rest) classes address names name image := by
  obtain ⟨⟨before, d, after, rfl, proper, same, absent, top, known, known', lowers, made⟩, named,
    numbered⟩ := declares
  obtain ⟨top, lowers⟩ := front before top known lowers
  exact ⟨⟨s :: before, d, after, rfl, proper, same, absent, top, known, known', lowers, made⟩, named,
    by rw [numbered, numbers]⟩

end Declares

/-- A class of lowered statements is declared by them, or was there before. -/
theorem lowerTop_declares : ∀ (statements : List Stmt) {classes : Table ClassImage} {address : Nat}
    {names names' : Names} {top : TopCode} {name : String} {image : ClassImage},
    lowerTop statements classes address names = .ok (top, names') →
    top.classes.find? name = some image →
    Declares statements classes address names name image
      ∨ name ∉ classNames statements ∧ classes.find? name = some image
  | [], _, _, _, _, _, _, _, h, found => by
    cases h
    exact .inr ⟨List.not_mem_nil, found⟩
  | s :: rest, classes, address, names, names', top, name, image, h, found => by
    cases s with
    | classDecl d =>
      simp only [lowerTop] at h
      cases kind : d.isInterface with
      | true =>
        rw [kind, if_pos rfl] at h
        refine (lowerTop_declares rest h found).imp (fun declares => ?_) fun undeclared => ?_
        · refine declares.cons rfl fun before top known lowers => ⟨top, ?_⟩
          rw [lowerTop, if_pos kind]
          exact lowers
        · simp only [classNames, List.filterMap_cons, Stmt.class?, kind, if_true]
          exact undeclared
      | false =>
        rw [kind, if_neg Bool.false_ne_true] at h
        obtain ⟨⟨made, names₁⟩, first, h⟩ := Except.bind_eq_ok h
        have names_eq : classNames (.classDecl d :: rest) = d.name :: classNames rest := by
          simp [classNames, Stmt.class?, kind]
        obtain ⟨same, number⟩ := ClassDecl.lower_name_id first
        have known : names₁ = d.declared names := (ClassDecl.lower_eq first).2.2
        -- A later declaration of the name takes the place of this one.
        rcases lowerTop_declares rest h found with declares | ⟨absent, old⟩
        · refine .inl (declares.cons ?_ fun before top known lowers => ⟨top, ?_⟩)
          · rw [known, ClassDecl.declared_eq]
            rfl
          · simp only [lowerTop, kind, Bool.false_eq_true, if_false, first]
            exact lowers
        · rw [Table.find?_insert] at old
          by_cases here : d.name = name
          · -- No later declaration has the name, so this one is the last.
            rw [if_pos here] at old
            obtain rfl : made = image := Option.some.inj old
            subst here
            refine .inl ⟨⟨[], d, rest, rfl, kind, rfl, absent, ⟨classes, []⟩, names, names₁, rfl, ?_⟩,
              same, number⟩
            rw [number]
            exact first
          · rw [if_neg here] at old
            refine .inr ⟨?_, old⟩
            rw [names_eq, List.mem_cons]
            exact fun member => member.elim (fun same => here same.symm) absent
    | _ =>
      obtain ⟨⟨code, names₁⟩, first, h⟩ := Except.bind_eq_ok h
      obtain ⟨⟨others, names₂⟩, remaining, h⟩ := Except.bind_eq_ok h
      cases h
      have known := Stmt.lower_names _ first
      refine (lowerTop_declares rest remaining found).imp (fun declares => ?_) id
      refine declares.cons ?_ fun before top known lowers => ⟨{ top with code := code ++ top.code }, ?_⟩
      · rw [known, Stmt.declared_eq]
        rfl
      · simp only [lowerTop, first]
        change Except.bind (lowerTop before classes _ _) _ = _
        rw [lowers]
        rfl

/-- The names of the classes of lowered statements, in order of their first declaration. -/
theorem lowerTop_class_names : ∀ (statements : List Stmt) {classes : Table ClassImage} {address : Nat}
    {names names' : Names} {top : TopCode} {done : List String},
    lowerTop statements classes address names = .ok (top, names') → classes.names = done.eraseDups →
    top.classes.names = (done ++ classNames statements).eraseDups
  | [], _, _, _, _, _, _, h, old => by
    cases h
    rw [classNames, List.filterMap_nil, List.map_nil, List.append_nil]
    exact old
  | s :: rest, classes, address, names, names', top, done, h, old => by
    cases s with
    | classDecl d =>
      simp only [lowerTop] at h
      cases kind : d.isInterface with
      | true =>
        rw [kind, if_pos rfl] at h
        have skipped : classNames (.classDecl d :: rest) = classNames rest := by
          simp [classNames, Stmt.class?, kind]
        rw [skipped]
        exact lowerTop_class_names rest h old
      | false =>
        rw [kind, if_neg Bool.false_ne_true] at h
        obtain ⟨⟨made, names₁⟩, first, h⟩ := Except.bind_eq_ok h
        have added : (classes.insert d.name made).names = (done ++ [d.name]).eraseDups := by
          rw [Table.names_insert, old, eraseDups_concat]
          simp only [List.mem_eraseDups]
        have all := lowerTop_class_names rest h added
        rw [List.append_assoc] at all
        rw [all]
        simp [classNames, Stmt.class?, kind]
    | _ =>
      obtain ⟨⟨code, names₁⟩, first, h⟩ := Except.bind_eq_ok h
      obtain ⟨⟨others, names₂⟩, remaining, h⟩ := Except.bind_eq_ok h
      cases h
      have all := lowerTop_class_names rest remaining old
      exact all

end Monogram
