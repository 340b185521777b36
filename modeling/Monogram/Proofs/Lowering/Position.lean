import Monogram.Proofs.Lowering.Append
import Monogram.Proofs.Lowering.Refusals

/-! # Classes among statements

The code of a class depends on the globals that are declared in front of it only where it asks for one
by its name.  So a class that declares no global itself has the same code on both sides of a statement
that declares none of the names it asks for, and does not show where it stands.

* `Expr.asks`, `ClassDecl.asks` — the names that are looked for among the globals.
* `Names.Alike` — known names that answer the same.
* `Expr.lower_alike`, `Stmt.lower_alike`, `ClassDecl.lower_alike` — what is lowered under them.
* `Names.lowerProgram_swap_iff` — a class and the statement behind it change places.
-/

namespace Monogram

/-! ## Names that code asks for -/

mutual

/-- The names that an expression reads, assigns to or calls a member on.  A field of a class is found
by the class alone, and a method that is called without a receiver by no global. -/
def Expr.asks (names : Names) : Expr → List String
  | .number _ | .string _ => []
  | .grouping inner => inner.asks names
  | .variable name => [name]
  | .assign name value => name :: value.asks names
  | .binary _ left right | .logical _ left right => left.asks names ++ right.asks names
  | .unary _ operand => operand.asks names
  | .call (.member object _) args => object.asks names ++ asksAll names args
  | .call (.variable _) args => asksAll names args
  | .call _ _ => []
  | .member object _ => if (names.staticReceiver? object).isSome then [] else object.asks names
  | .setMember object _ value =>
    (if (names.staticReceiver? object).isSome then [] else object.asks names) ++ value.asks names
  | .construct _ args => asksAll names args
  | .list items => asksAll names items
  | .map entries => asksEntries names entries
  | .index object index => object.asks names ++ index.asks names
  | .setIndex object index value => object.asks names ++ (index.asks names ++ value.asks names)

/-- The names that expressions ask for. -/
def asksAll (names : Names) : List Expr → List String
  | [] => []
  | e :: rest => e.asks names ++ asksAll names rest

/-- The names that keys and values ask for. -/
def asksEntries (names : Names) : List (Expr × Expr) → List String
  | [] => []
  | (key, value) :: rest => key.asks names ++ (value.asks names ++ asksEntries names rest)

end

/-- The names that an optional expression asks for. -/
def asksOptional (names : Names) : Option Expr → List String
  | some e => e.asks names
  | none => []

mutual

/-- The names that a statement asks for. -/
def Stmt.asks (names : Names) : Stmt → List String
  | .expression e => e.asks names
  | .declare decl => asksOptional names decl.initializer
  | .block body => asksBlock names body
  | .ifThen condition yes => condition.asks names ++ yes.asks names
  | .ifElse condition yes no => condition.asks names ++ (yes.asks names ++ no.asks names)
  | .loop condition body => condition.asks names ++ body.asks names
  | .tryHandle body _ _ handler => asksBlock names body ++ asksBlock names handler
  | .giveBack value => asksOptional names value
  | .method _ | .classDecl _ => []

/-- The names that statements ask for. -/
def asksBlock (names : Names) : List Stmt → List String
  | [] => []
  | s :: rest => s.asks names ++ asksBlock names rest

end

/-- The names that the methods of a class and the initial values of its static fields ask for. -/
def ClassDecl.asks (names : Names) (d : ClassDecl) : List String :=
  (d.methods.flatMap fun m => asksBlock names m.body) ++ d.staticInitializers.flatMap (Expr.asks names)

/-! ## Names that answer the same -/

/-- Both know the classes of `names`, and the same globals among those asked for. -/
structure Names.Alike (names : Names) (asked : List String) (known known' : Names) : Prop where
  first : known.classes = names.classes
  second : known'.classes = names.classes
  slots : ∀ name ∈ asked, known.slot? name = known'.slot? name

namespace Names.Alike

variable {names known known' : Names} {asked more : List String}

theorem symm (alike : Alike names asked known known') : Alike names asked known' known :=
  ⟨alike.second, alike.first, fun name member => (alike.slots name member).symm⟩

theorem subset (alike : Alike names asked known known') (fewer : more ⊆ asked) :
    Alike names more known known' :=
  ⟨alike.first, alike.second, fun name member => alike.slots name (fewer member)⟩

theorem front (alike : Alike names (asked ++ more) known known') : Alike names asked known known' :=
  alike.subset (List.subset_append_left _ _)

theorem back (alike : Alike names (asked ++ more) known known') : Alike names more known known' :=
  alike.subset (List.subset_append_right _ _)

theorem classId? (alike : Alike names asked known known') (name : String) :
    known.classId? name = known'.classId? name := by
  rw [Names.classId?, Names.classId?, alike.first, alike.second]

theorem staticReceiver? (alike : Alike names asked known known') (object : Expr) :
    known.staticReceiver? object = names.staticReceiver? object := by
  cases object with
  | «variable» name => rw [Names.staticReceiver?, Names.classId?, alike.first]; rfl
  | _ => rfl

theorem load {name : String} (alike : Alike names asked known known') (member : name ∈ asked) :
    known.load name = known'.load name := by
  rw [Names.load, Names.load, alike.slots name member, alike.classId?]

theorem store {name : String} (alike : Alike names asked known known') (member : name ∈ asked) :
    known.store name = known'.store name := by
  rw [Names.store, Names.store, alike.slots name member]

end Names.Alike

/-! ## Expressions -/

section Lowered

variable {names known known' : Names}

mutual

/-- Under names that answer the same an expression has the same code, or none. -/
theorem Expr.lower_alike : ∀ e : Expr, Names.Alike names (e.asks names) known known' →
    e.lower known = e.lower known'
  | .number _, _ | .string _, _ => rfl
  | .grouping inner, alike => inner.lower_alike alike
  | .variable name, alike => by
    rw [Expr.lower, Expr.lower, alike.load (List.mem_singleton.2 rfl)]
  | .assign name value, alike => by
    rw [Expr.lower, Expr.lower, alike.store List.mem_cons_self,
      value.lower_alike (alike.subset (List.subset_cons_self _ _))]
  | .binary _ left right, alike | .logical _ left right, alike | .index left right, alike => by
    rw [Expr.lower, Expr.lower, left.lower_alike alike.front, right.lower_alike alike.back]
  | .unary op operand, alike => by
    cases op with
    | «at» => rfl
    | negate | not => rw [Expr.lower, Expr.lower, operand.lower_alike alike]
  | .call callee args, alike => by
    cases callee with
    | member object name =>
      rw [Expr.lower, Expr.lower, object.lower_alike alike.front, lowerAll_alike args alike.back]
    | «variable» name => rw [Expr.lower, Expr.lower, lowerAll_alike args alike]
    | _ => rfl
  | .member object name, alike => by
    rw [Expr.lower, Expr.lower, alike.staticReceiver?, alike.symm.staticReceiver?]
    rw [Expr.asks] at alike
    cases static : names.staticReceiver? object with
    | some id => rfl
    | none =>
      rw [static] at alike
      rw [object.lower_alike alike]
  | .setMember object name value, alike => by
    rw [Expr.lower, Expr.lower, alike.staticReceiver?, alike.symm.staticReceiver?,
      value.lower_alike alike.back]
    have receiver := alike.front
    cases static : names.staticReceiver? object with
    | some id => rfl
    | none =>
      rw [static] at receiver
      rw [object.lower_alike receiver]
  | .construct className args, alike => by
    rw [Expr.lower, Expr.lower, lowerAll_alike args alike]
  | .list items, alike => by
    rw [Expr.lower, Expr.lower, lowerAll_alike items alike]
  | .map entries, alike => by
    rw [Expr.lower, Expr.lower, lowerEntries_alike entries alike]
  | .setIndex object index value, alike => by
    rw [Expr.lower, Expr.lower, object.lower_alike alike.front, index.lower_alike alike.back.front,
      value.lower_alike alike.back.back]

theorem lowerAll_alike : ∀ items : List Expr, Names.Alike names (asksAll names items) known known' →
    lowerAll known items = lowerAll known' items
  | [], _ => rfl
  | e :: rest, alike => by
    rw [lowerAll, lowerAll, e.lower_alike alike.front, lowerAll_alike rest alike.back]

theorem lowerEntries_alike : ∀ entries : List (Expr × Expr),
    Names.Alike names (asksEntries names entries) known known' →
    lowerEntries known entries = lowerEntries known' entries
  | [], _ => rfl
  | (key, value) :: rest, alike => by
    rw [lowerEntries, lowerEntries, key.lower_alike alike.front, value.lower_alike alike.back.front,
      lowerEntries_alike rest alike.back.back]

end

theorem lowerOptional_alike (value : Option Expr)
    (alike : Names.Alike names (asksOptional names value) known known') :
    lowerOptional known value = lowerOptional known' value := by
  cases value with
  | none => rfl
  | some e => exact e.lower_alike alike

/-! ## Statements -/

/-- A statement that declares no global leaves the names alone. -/
theorem Stmt.lower_names_of_closed {s : Stmt} {address : Nat} {later : Names} {code : List Instruction}
    (closed : s.globals = []) (lowered : s.lower address known = .ok (code, later)) : later = known := by
  rw [s.lower_names lowered, s.declared_eq, closed]
  rfl

mutual

/-- A statement that declares no global and has code has the same code under names that answer the
same. -/
theorem Stmt.lower_alike : ∀ (s : Stmt) {address : Nat} {code : List Instruction} {later : Names},
    s.globals = [] → Names.Alike names (s.asks names) known known' →
    s.lower address known = .ok (code, later) → s.lower address known' = .ok (code, known')
  | .expression e, _, _, _, _, alike, h => by
    obtain ⟨value, first, h⟩ := Except.bind_eq_ok h
    cases h
    rw [e.lower_alike alike] at first
    exact Except.bind_of_ok first rfl
  | .declare decl, _, _, _, closed, _, _ => absurd closed (List.cons_ne_nil _ _)
  | .block body, _, _, _, closed, alike, h => lowerBlock_alike body closed alike h
  | .ifThen condition yes, _, _, _, closed, alike, h | .loop condition yes, _, _, _, closed, alike, h => by
    obtain ⟨test, first, h⟩ := Except.bind_eq_ok h
    obtain ⟨⟨yesCode, names₁⟩, second, h⟩ := Except.bind_eq_ok h
    cases h
    rw [condition.lower_alike alike.front] at first
    exact Except.bind_of_ok first (Except.bind_of_ok (yes.lower_alike closed alike.back second) rfl)
  | .ifElse condition yes no, _, _, _, closed, alike, h => by
    obtain ⟨closedYes, closedNo⟩ := List.append_eq_nil_iff.1 closed
    obtain ⟨test, first, h⟩ := Except.bind_eq_ok h
    obtain ⟨⟨yesCode, names₁⟩, second, h⟩ := Except.bind_eq_ok h
    obtain ⟨⟨noCode, names₂⟩, third, h⟩ := Except.bind_eq_ok h
    cases h
    rw [condition.lower_alike alike.front] at first
    rw [Stmt.lower_names_of_closed closedYes second] at third
    have second := yes.lower_alike closedYes alike.back.front second
    have third := no.lower_alike closedNo alike.back.back third
    exact Except.bind_of_ok first (Except.bind_of_ok second (Except.bind_of_ok third rfl))
  | .tryHandle body _ binding handler, _, _, _, closed, _, _ => by simp [Stmt.globals] at closed
  | .giveBack value, _, _, _, _, alike, h => by
    obtain ⟨code, first, h⟩ := Except.bind_eq_ok h
    cases h
    rw [lowerOptional_alike value alike] at first
    exact Except.bind_of_ok first rfl
  | .method _, _, _, _, _, _, h => by cases h
  | .classDecl _, _, _, _, _, _, h => by cases h

theorem lowerBlock_alike : ∀ (body : List Stmt) {address : Nat} {code : List Instruction} {later : Names},
    globalsBlock body = [] → Names.Alike names (asksBlock names body) known known' →
    lowerBlock body address known = .ok (code, later) →
    lowerBlock body address known' = .ok (code, known')
  | [], _, _, _, _, _, h => by
    cases h
    rfl
  | s :: rest, _, _, _, closed, alike, h => by
    obtain ⟨closedFirst, closedRest⟩ := List.append_eq_nil_iff.1 closed
    obtain ⟨⟨code, names₁⟩, first, h⟩ := Except.bind_eq_ok h
    obtain ⟨⟨others, names₂⟩, second, h⟩ := Except.bind_eq_ok h
    cases h
    rw [Stmt.lower_names_of_closed closedFirst first] at second
    have first := s.lower_alike closedFirst alike.front first
    have second := lowerBlock_alike rest closedRest alike.back second
    exact Except.bind_of_ok first (Except.bind_of_ok second rfl)

end

/-! ## Classes -/

theorem lowerMethods_alike : ∀ (methods : List MethodDecl) {tables tables' : MethodTables} {later : Names},
    (methods.flatMap fun m => globalsBlock m.body) = [] →
    Names.Alike names (methods.flatMap fun m => asksBlock names m.body) known known' →
    lowerMethods methods tables known = .ok (tables', later) →
    later = known ∧ lowerMethods methods tables known' = .ok (tables', known')
  | [], _, _, _, _, _, h => by
    cases h
    exact ⟨rfl, rfl⟩
  | d :: rest, _, _, _, closed, alike, h => by
    obtain ⟨closedFirst, closedRest⟩ := List.append_eq_nil_iff.1 closed
    obtain ⟨⟨image, names₁⟩, lowered, h⟩ := Except.bind_eq_ok h
    obtain ⟨⟨body, names₂⟩, first, lowered⟩ := Except.bind_eq_ok lowered
    cases lowered
    have same : names₁ = known := by
      rw [lowerBlock_names d.body first, declaredBlock_eq, show globalsBlock d.body = [] from closedFirst]
      rfl
    rw [same] at h
    have first := lowerBlock_alike d.body closedFirst alike.front first
    obtain ⟨unchanged, others⟩ := lowerMethods_alike rest closedRest alike.back h
    exact ⟨unchanged, Except.bind_of_ok (Except.bind_of_ok first rfl) others⟩

theorem lowerStaticInit_alike (id : ClassId) : ∀ fields : List VarDecl,
    Names.Alike names (((fields.filter VarDecl.isStatic).filterMap VarDecl.initializer).flatMap
      (Expr.asks names)) known known' →
    lowerStaticInit known id fields = lowerStaticInit known' id fields
  | [], _ => rfl
  | ⟨_, _, some e, _, true⟩ :: rest, alike => by
    simp only [lowerStaticInit, e.lower_alike alike.front, lowerStaticInit_alike id rest alike.back]
  | ⟨_, _, none, _, true⟩ :: rest, alike => lowerStaticInit_alike id rest alike
  | ⟨_, _, _, _, false⟩ :: rest, alike => lowerStaticInit_alike id rest alike

/-- A class that declares no global and has code has the same code under names that answer the same. -/
theorem ClassDecl.lower_alike {d : ClassDecl} {id : ClassId} {image : ClassImage} {later : Names}
    (closed : d.globals = []) (alike : Names.Alike names (d.asks names) known known')
    (lowered : d.lower id known = .ok (image, later)) :
    later = known ∧ d.lower id known' = .ok (image, known') := by
  obtain ⟨⟨tables, names₁⟩, methods, h⟩ := Except.bind_eq_ok lowered
  obtain ⟨staticInit, statics, h⟩ := Except.bind_eq_ok h
  cases h
  obtain ⟨same, methods⟩ := lowerMethods_alike d.methods closed alike.front methods
  rw [same, lowerStaticInit_alike id d.fields alike.back] at statics
  exact ⟨same, Except.bind_of_ok methods (Except.bind_of_ok statics rfl)⟩

end Lowered

/-! ## Programs -/

theorem Pool.index?_insertAll_of_not_mem {p : Pool} {name : String} {l : List String} (absent : name ∉ l) :
    (p.insertAll l).index? name = p.index? name := by
  induction l generalizing p with
  | nil => rfl
  | cons first rest ih =>
    obtain ⟨other, absent⟩ := not_or.1 (mt List.mem_cons.2 absent)
    refine (ih (p := p.insert first) absent).trans ?_
    rw [index?, index?, names_insert]
    split
    · rfl
    · simp [List.idxOf?, List.findIdx?_append, Ne.symm other]

/-- Globals that are added answer for their own names only. -/
theorem Names.alike_addGlobals {names known : Names} {asked declared : List String}
    (numbered : known.classes = names.classes) (apart : ∀ name ∈ declared, name ∉ asked) :
    Alike names asked known (known.addGlobals declared) :=
  ⟨numbered, numbered, fun name member =>
    (Pool.index?_insertAll_of_not_mem fun there => apart name there member).symm⟩

theorem Except.bind_eq_ok_congr {ε α γ : Type} {x x' : Except ε α} {f f' : α → Except ε γ} {c : γ}
    (first : ∀ a, x = .ok a ↔ x' = .ok a) (others : ∀ a, x = .ok a → (f a = .ok c ↔ f' a = .ok c)) :
    (x >>= f) = .ok c ↔ (x' >>= f') = .ok c := by
  constructor
  · intro h
    obtain ⟨a, here, h⟩ := Except.bind_eq_ok h
    exact Except.bind_of_ok ((first a).1 here) ((others a here).1 h)
  · intro h
    obtain ⟨a, here, h⟩ := Except.bind_eq_ok h
    exact Except.bind_of_ok ((first a).2 here) ((others a ((first a).2 here)).2 h)

theorem lowerTop_interface {d : ClassDecl} (kind : d.isInterface = true) (rest : List Stmt)
    (classes : Table ClassImage) (address : Nat) (known : Names) :
    lowerTop (.classDecl d :: rest) classes address known = lowerTop rest classes address known := by
  rw [lowerTop, if_pos kind]

theorem lowerTop_class {d : ClassDecl} (proper : d.isInterface = false) (rest : List Stmt)
    (classes : Table ClassImage) (address : Nat) (known : Names) :
    lowerTop (.classDecl d :: rest) classes address known = (do
      let (image, later) ← d.lower ((known.classId? d.name).getD firstClassId) known
      lowerTop rest (classes.insert d.name image) address later) := by
  rw [lowerTop, proper, if_neg Bool.false_ne_true]

/-- A statement that declares no class is an interface or none of the class declarations. -/
theorem Stmt.plain_or_interface {s : Stmt} (silent : s.class? = none) :
    (∀ d, s ≠ .classDecl d) ∨ ∃ d, s = .classDecl d ∧ d.isInterface = true := by
  cases s with
  | classDecl d => exact .inr ⟨d, rfl, by simpa [class?] using silent⟩
  | _ =>
    refine .inl fun d same => ?_
    cases same

section Swapped

variable {names known : Names} {d : ClassDecl} {s : Stmt}

/-- A class and a statement that declares none of the names that the class asks for may stand in either
order in front of others. -/
theorem lowerTop_swap (proper : d.isInterface = false) (closed : d.globals = [])
    (silent : s.class? = none) (apart : ∀ name ∈ s.globals, name ∉ d.asks names)
    (numbered : known.classes = names.classes) (rest : List Stmt) (classes : Table ClassImage)
    (address : Nat) (result : TopCode × Names) :
    lowerTop (.classDecl d :: s :: rest) classes address known = .ok result ↔
      lowerTop (s :: .classDecl d :: rest) classes address known = .ok result := by
  obtain plain | ⟨i, rfl, kind⟩ := Stmt.plain_or_interface silent
  · have alike : Names.Alike names (d.asks names) known (known.addGlobals s.globals) :=
      Names.alike_addGlobals numbered apart
    have declared {first : List Instruction} {later : Names}
        (lowered : s.lower address known = .ok (first, later)) : later = known.addGlobals s.globals :=
      (s.lower_names lowered).trans (s.declared_eq known)
    simp only [lowerTop_class proper, lowerTop_plain plain]
    constructor
    · intro h
      obtain ⟨⟨image, names₁⟩, made, h⟩ := Except.bind_eq_ok h
      obtain ⟨unchanged, moved⟩ := ClassDecl.lower_alike closed alike made
      rw [unchanged] at h
      obtain ⟨⟨first, names₂⟩, lowered, h⟩ := Except.bind_eq_ok h
      obtain ⟨⟨others, names₃⟩, remaining, h⟩ := Except.bind_eq_ok h
      rw [alike.classId?, ← declared lowered] at moved
      exact Except.bind_of_ok lowered (Except.bind_of_ok (Except.bind_of_ok moved remaining) h)
    · intro h
      obtain ⟨⟨first, names₁⟩, lowered, h⟩ := Except.bind_eq_ok h
      obtain ⟨⟨others, names₂⟩, remaining, h⟩ := Except.bind_eq_ok h
      obtain ⟨⟨image, names₃⟩, made, remaining⟩ := Except.bind_eq_ok remaining
      rw [← declared lowered] at alike
      obtain ⟨unchanged, moved⟩ := ClassDecl.lower_alike closed alike.symm made
      rw [unchanged] at remaining
      rw [alike.classId?]
      exact Except.bind_of_ok moved (Except.bind_of_ok lowered (Except.bind_of_ok remaining h))
  · simp only [lowerTop_class proper, lowerTop_interface kind]

/-- The same behind other statements: what these are lowered to does not depend on what follows. -/
theorem lowerTop_swap_behind (proper : d.isInterface = false) (closed : d.globals = [])
    (silent : s.class? = none) (apart : ∀ name ∈ s.globals, name ∉ d.asks names) (back : List Stmt) :
    ∀ (front : List Stmt) {known : Names} (classes : Table ClassImage) (address : Nat)
      (result : TopCode × Names), known.classes = names.classes →
      (lowerTop (front ++ .classDecl d :: s :: back) classes address known = .ok result ↔
        lowerTop (front ++ s :: .classDecl d :: back) classes address known = .ok result)
  | [], _, classes, address, result, numbered =>
    lowerTop_swap proper closed silent apart numbered back classes address result
  | t :: front, known, classes, address, result, numbered => by
    simp only [List.cons_append]
    by_cases plain : ∀ e, t ≠ .classDecl e
    · simp only [lowerTop_plain plain]
      refine Except.bind_eq_ok_congr (fun _ => .rfl) fun ⟨first, later⟩ lowered => ?_
      refine Except.bind_eq_ok_congr (fun others => ?_) fun _ _ => .rfl
      refine lowerTop_swap_behind proper closed silent apart back front _ _ others ?_
      rw [t.lower_names lowered, t.declared_eq]
      exact numbered
    · obtain ⟨e, rfl⟩ : ∃ e, t = .classDecl e := by simpa using plain
      cases kind : e.isInterface with
      | true =>
        simp only [lowerTop_interface kind]
        exact lowerTop_swap_behind proper closed silent apart back front _ _ result numbered
      | false =>
        simp only [lowerTop_class kind]
        refine Except.bind_eq_ok_congr (fun _ => .rfl) fun ⟨image, later⟩ lowered => ?_
        refine lowerTop_swap_behind proper closed silent apart back front _ _ result ?_
        rw [(ClassDecl.lower_eq lowered).2.2, e.declared_eq]
        exact numbered

end Swapped

/-- A class that declares no global has the same place in front of a statement and behind it, whatever
is known before, unless the statement is a class or declares a name that the class asks for.  In both
orders there is the same program, with the same names known behind it, or none. -/
theorem Names.lowerProgram_swap_iff (names : Names) (front back : List Stmt) (d : ClassDecl) (s : Stmt)
    (proper : d.isInterface = false) (closed : d.globals = []) (silent : s.class? = none)
    (apart : ∀ name ∈ s.globals,
      name ∉ d.asks (names.addClasses (front ++ .classDecl d :: s :: back)))
    (p : Program) (known : Names) :
    names.lowerProgram (front ++ .classDecl d :: s :: back) = .ok (p, known) ↔
      names.lowerProgram (front ++ s :: .classDecl d :: back) = .ok (p, known) := by
  have same : names.addClasses (front ++ s :: .classDecl d :: back)
      = names.addClasses (front ++ .classDecl d :: s :: back) := by
    simp only [addClasses, List.filterMap_append, List.filterMap_cons, silent]
  simp only [lowerProgram, same]
  exact Except.bind_eq_ok_congr
    (fun result => lowerTop_swap_behind proper closed silent apart back front ∅ 0 result rfl)
    fun _ _ => .rfl

/-- Declares a global. -/
def tuning : List Stmt := [.declare ⟨5, "tone", none, none, false⟩]

/-- A class whose method and static field read that global. -/
def chime : ClassDecl :=
  ⟨"Chime", none, [⟨"ring", [], [.giveBack (some (.variable "tone"))], 0, none, false⟩],
    [⟨5, "count", some (.list [.variable "tone"]), none, true⟩], [], false⟩

/-- Declares two globals, one of them with what a static field of the class holds. -/
def strike : Stmt :=
  .tryHandle [.declare ⟨5, "hour", some (.member (.variable "Chime") "count"), none, false⟩] 0 "problem" []

theorem Names.lowerProgram_swap_chime :
    chime.isInterface = false ∧ chime.globals = [] ∧ strike.class? = none
    ∧ (∀ name ∈ strike.globals,
      name ∉ chime.asks (Names.empty.addClasses (tuning ++ .classDecl chime :: strike :: [])))
    ∧ ∃ p known,
      Names.empty.lowerProgram (tuning ++ .classDecl chime :: strike :: []) = .ok (p, known)
      ∧ Names.empty.lowerProgram (tuning ++ strike :: .classDecl chime :: []) = .ok (p, known) := by
  have apart : ∀ name ∈ strike.globals,
      name ∉ chime.asks (Names.empty.addClasses (tuning ++ .classDecl chime :: strike :: [])) := by
    decide
  have lowered : Names.empty.lowerProgram (tuning ++ .classDecl chime :: strike :: []) = .ok (_, _) := rfl
  exact ⟨rfl, rfl, rfl, apart, _, _, lowered,
    (lowerProgram_swap_iff _ _ _ chime strike rfl rfl rfl apart _ _).1 lowered⟩

end Monogram
