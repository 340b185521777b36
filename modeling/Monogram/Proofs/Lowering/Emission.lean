import Mathlib.Data.List.Basic
import Monogram.Proofs.Session.Compilations

/-! # Instructions that code consists of

Most instructions have nothing to do with names.  The others come from the names under which the code
is lowered: those that read or store into a name, and those that push a class.  A property that all of
them have is one of all instructions of the code.

* `Permits` — a property that all instructions have which code under given names may consist of.
* `Expr.lower_emits`, `Stmt.lower_emits` — the instructions of lowered trees have it.
* `ClassDecl.lower_emits`, `Names.lowerProgram_emits` — so have those of lowered classes and programs.
-/

namespace Monogram

variable {Q : Names → Prop} {P : Instruction → Prop} {known known' : Names}

/-- The instruction refers to no class and to no global. -/
def Instruction.Nameless : Instruction → Prop
  | .push (.classRef _) | .loadSlot _ | .storeSlot _ | .loadName _ | .storeName _ => False
  | _ => True

/-- The property holds of all instructions of code that is lowered under such names.  The names only
grow from the front of the code to its end, so those at its end say which they are. -/
structure Permits (Q : Names → Prop) (P : Instruction → Prop) : Prop where
  nameless : ∀ i : Instruction, i.Nameless → P i
  ownObject : P ownObject
  load : ∀ {known : Names}, Q known → ∀ name, P (known.load name)
  store : ∀ {known : Names}, Q known → ∀ name, P (known.store name)
  receiver : ∀ {known : Names}, Q known → ∀ {name : String} {id : ClassId},
    known.classId? name = some id → P (.push (.classRef id))
  declared : ∀ {known known' : Names} {name : String} {slot : Nat},
    known.declare name = .ok (slot, known') → Q known' → P (.storeSlot slot)
  before : ∀ {known : Names} (l : List String), Q (known.addGlobals l) → Q known

/-- All instructions of the code have the property. -/
def Emits (P : Instruction → Prop) (code : List Instruction) : Prop := ∀ i ∈ code, P i

@[simp] theorem emits_nil : Emits P [] := fun _ => nofun

@[simp] theorem emits_cons {i : Instruction} {code : List Instruction} :
    Emits P (i :: code) ↔ P i ∧ Emits P code :=
  List.forall_mem_cons

@[simp] theorem emits_append {code code' : List Instruction} :
    Emits P (code ++ code') ↔ Emits P code ∧ Emits P code' :=
  List.forall_mem_append

/-- All instructions of the code have the property. -/
def Code.Emits (P : Instruction → Prop) (c : Code) : Prop := ∀ i ∈ c.instructions, P i

/-- All instructions of the program have the property. -/
structure Program.Emits (P : Instruction → Prop) (p : Program) : Prop where
  classes : ∀ image ∈ p.classes.values, image.All (Code.Emits P)
  main : p.main.Emits P

/-- The instructions of all the code of a class. -/
def ClassImage.instructions (c : ClassImage) : List Instruction :=
  (c.methods.values ++ c.staticMethods.values).flatMap (fun m => m.code.instructions.toList)
    ++ c.staticInit.instructions.toList

/-- The instructions of all the code of a program. -/
def Program.instructions (p : Program) : List Instruction :=
  p.classes.values.flatMap ClassImage.instructions ++ p.main.instructions.toList

theorem ClassImage.all_emits_iff {c : ClassImage} :
    c.All (Code.Emits P) ↔ ∀ i ∈ c.instructions, P i := by
  simp only [instructions, List.forall_mem_append, List.forall_mem_flatMap, Array.mem_toList_iff]
  exact ⟨fun all => ⟨⟨all.methods, all.staticMethods⟩, all.staticInit⟩,
    fun ⟨⟨methods, staticMethods⟩, staticInit⟩ => ⟨methods, staticMethods, staticInit⟩⟩

theorem Program.emits_iff {p : Program} : p.Emits P ↔ ∀ i ∈ p.instructions, P i := by
  simp only [instructions, List.forall_mem_append, List.forall_mem_flatMap, Array.mem_toList_iff,
    ← ClassImage.all_emits_iff]
  exact ⟨fun emits => ⟨emits.classes, emits.main⟩, fun ⟨classes, main⟩ => ⟨classes, main⟩⟩

theorem Emits.code {code : List Instruction} (emits : Emits P code) : (Code.ofInstructions code).Emits P :=
  fun i member => emits i (List.mem_toArray.1 member)

namespace Permits

variable {code : List Instruction} (permits : Permits Q P)
include permits

theorem binary (op : BinaryOp) : P op.instruction :=
  permits.nameless _ (by cases op <;> trivial)

theorem logical (op : LogicalOp) : P op.instruction :=
  permits.nameless _ (by cases op <;> trivial)

theorem call (name : String) (argc : Nat) : P (callInstruction name argc) := by
  unfold callInstruction
  split
  · exact permits.nameless _ trivial
  · exact permits.nameless _ trivial

theorem staticReceiver (here : Q known) {object : Expr} {id : ClassId}
    (static : known.staticReceiver? object = some id) : P (.push (.classRef id)) := by
  cases object with
  | «variable» name => exact permits.receiver here static
  | _ => cases static

/-! ## Names known on the way -/

theorem before_stmt {s : Stmt} {address : Nat} (h : s.lower address known = .ok (code, known'))
    (behind : Q known') : Q known := by
  rw [s.lower_names h, s.declared_eq] at behind
  exact permits.before _ behind

theorem before_block {body : List Stmt} {address : Nat}
    (h : lowerBlock body address known = .ok (code, known')) (behind : Q known') : Q known := by
  rw [lowerBlock_names body h, declaredBlock_eq] at behind
  exact permits.before _ behind

theorem before_declare {name : String} {slot : Nat} (h : known.declare name = .ok (slot, known'))
    (behind : Q known') : Q known := by
  rw [(Names.declare_eq h).2] at behind
  exact permits.before [name] behind

theorem before_methods {methods : List MethodDecl} {tables tables' : MethodTables}
    (h : lowerMethods methods tables known = .ok (tables', known')) (behind : Q known') : Q known := by
  induction methods generalizing tables known with
  | nil =>
    cases h
    exact behind
  | cons d rest ih =>
    obtain ⟨⟨image, names₁⟩, lowered, h⟩ := Except.bind_eq_ok h
    obtain ⟨⟨body, names₂⟩, first, lowered⟩ := Except.bind_eq_ok lowered
    cases lowered
    exact permits.before_block first (ih h)

theorem before_top {statements : List Stmt} {classes : Table ClassImage} {address : Nat} {top : TopCode}
    (h : lowerTop statements classes address known = .ok (top, known')) (behind : Q known') :
    Q known := by
  rw [lowerTop_names statements h] at behind
  exact permits.before _ behind

end Permits

/-! ## Expressions -/

mutual

theorem Expr.lower_emits (permits : Permits Q P) (here : Q known) : ∀ (e : Expr) {code : List Instruction},
    e.lower known = .ok code → Emits P code
  | .number _, _, h | .string _, _, h => by
    cases h
    simp (disch := exact of_eq_true rfl) [permits.nameless]
  | .grouping inner, _, h => inner.lower_emits permits here h
  | .variable name, _, h => by
    cases h
    simp [permits.load here]
  | .assign name value, _, h => by
    obtain ⟨v, first, h⟩ := Except.bind_eq_ok h
    cases h
    simp [value.lower_emits permits here first, permits.store here]
  | .binary op left right, _, h => by
    obtain ⟨l, first, h⟩ := Except.bind_eq_ok h
    obtain ⟨r, second, h⟩ := Except.bind_eq_ok h
    cases h
    simp [left.lower_emits permits here first, right.lower_emits permits here second, permits.binary]
  | .logical op left right, _, h => by
    obtain ⟨l, first, h⟩ := Except.bind_eq_ok h
    obtain ⟨r, second, h⟩ := Except.bind_eq_ok h
    cases h
    simp [left.lower_emits permits here first, right.lower_emits permits here second, permits.logical]
  | .unary .at _, _, h => by cases h
  | .unary .negate operand, _, h | .unary .not operand, _, h => by
    obtain ⟨v, first, h⟩ := Except.bind_eq_ok h
    cases h
    simp (disch := exact of_eq_true rfl) [operand.lower_emits permits here first, permits.nameless]
  | .call callee args, _, h => by
    cases callee with
    | member object name =>
      obtain ⟨o, first, h⟩ := Except.bind_eq_ok h
      obtain ⟨vs, second, h⟩ := Except.bind_eq_ok h
      obtain ⟨call, third, h⟩ := Except.bind_eq_ok h
      cases h
      simp [object.lower_emits permits here first, lowerAll_emits permits here args second,
        counted_eq third, permits.call]
    | «variable» name =>
      obtain ⟨vs, second, h⟩ := Except.bind_eq_ok h
      obtain ⟨call, third, h⟩ := Except.bind_eq_ok h
      cases h
      simp [permits.ownObject, lowerAll_emits permits here args second, counted_eq third, permits.call]
    | _ => cases h
  | .member object name, _, h => by
    simp only [Expr.lower] at h
    cases static : known.staticReceiver? object with
    | some id =>
      rw [static] at h
      cases h
      simp (disch := exact of_eq_true rfl) [permits.staticReceiver here static, permits.nameless]
    | none =>
      rw [static] at h
      obtain ⟨o, first, h⟩ := Except.bind_eq_ok h
      cases h
      simp (disch := exact of_eq_true rfl) [object.lower_emits permits here first, permits.nameless]
  | .setMember object name value, _, h => by
    simp only [Expr.lower] at h
    cases static : known.staticReceiver? object with
    | some id =>
      rw [static] at h
      obtain ⟨v, first, h⟩ := Except.bind_eq_ok h
      cases h
      simp (disch := exact of_eq_true rfl) [permits.staticReceiver here static,
        value.lower_emits permits here first, permits.nameless]
    | none =>
      rw [static] at h
      obtain ⟨o, first, h⟩ := Except.bind_eq_ok h
      obtain ⟨v, second, h⟩ := Except.bind_eq_ok h
      cases h
      simp (disch := exact of_eq_true rfl) [object.lower_emits permits here first,
        value.lower_emits permits here second, permits.nameless]
  | .construct className args, _, h | .list args, _, h => by
    obtain ⟨vs, first, h⟩ := Except.bind_eq_ok h
    obtain ⟨call, second, h⟩ := Except.bind_eq_ok h
    cases h
    simp (disch := exact of_eq_true rfl) [lowerAll_emits permits here args first, counted_eq second,
      permits.nameless]
  | .map entries, _, h => by
    obtain ⟨vs, first, h⟩ := Except.bind_eq_ok h
    obtain ⟨call, second, h⟩ := Except.bind_eq_ok h
    cases h
    simp (disch := exact of_eq_true rfl) [lowerEntries_emits permits here entries first,
      counted_eq second, permits.nameless]
  | .index object index, _, h => by
    obtain ⟨o, first, h⟩ := Except.bind_eq_ok h
    obtain ⟨i, second, h⟩ := Except.bind_eq_ok h
    cases h
    simp (disch := exact of_eq_true rfl) [object.lower_emits permits here first,
      index.lower_emits permits here second, permits.nameless]
  | .setIndex object index value, _, h => by
    obtain ⟨o, first, h⟩ := Except.bind_eq_ok h
    obtain ⟨i, second, h⟩ := Except.bind_eq_ok h
    obtain ⟨v, third, h⟩ := Except.bind_eq_ok h
    cases h
    simp (disch := exact of_eq_true rfl) [object.lower_emits permits here first,
      index.lower_emits permits here second, value.lower_emits permits here third, permits.nameless]

theorem lowerAll_emits (permits : Permits Q P) (here : Q known) : ∀ (es : List Expr) {code : List Instruction},
    lowerAll known es = .ok code → Emits P code
  | [], _, h => by
    cases h
    simp
  | e :: rest, _, h => by
    obtain ⟨v, first, h⟩ := Except.bind_eq_ok h
    obtain ⟨vs, second, h⟩ := Except.bind_eq_ok h
    cases h
    simp [e.lower_emits permits here first, lowerAll_emits permits here rest second]

theorem lowerEntries_emits (permits : Permits Q P) (here : Q known) :
    ∀ (entries : List (Expr × Expr)) {code : List Instruction},
    lowerEntries known entries = .ok code → Emits P code
  | [], _, h => by
    cases h
    simp
  | (key, value) :: rest, _, h => by
    obtain ⟨k, first, h⟩ := Except.bind_eq_ok h
    obtain ⟨v, second, h⟩ := Except.bind_eq_ok h
    obtain ⟨vs, third, h⟩ := Except.bind_eq_ok h
    cases h
    simp [key.lower_emits permits here first, value.lower_emits permits here second,
      lowerEntries_emits permits here rest third]

end

section Trees

variable (permits : Permits Q P)
include permits

theorem lowerOptional_emits (here : Q known) {value : Option Expr} {code : List Instruction}
    (h : lowerOptional known value = .ok code) : Emits P code := by
  cases value with
  | some e => exact e.lower_emits permits here h
  | none =>
    cases h
    simp (disch := exact of_eq_true rfl) [permits.nameless]

/-! ## Statements -/

mutual

theorem Stmt.lower_emits : ∀ (s : Stmt) {address : Nat} {known known' : Names}
    {code : List Instruction}, s.lower address known = .ok (code, known') → Q known' → Emits P code
  | .expression e, _, _, _, _, h, behind => by
    obtain ⟨value, first, h⟩ := Except.bind_eq_ok h
    cases h
    simp (disch := exact of_eq_true rfl) [e.lower_emits permits behind first, permits.nameless]
  | .declare decl, _, _, _, _, h, behind => by
    obtain ⟨value, first, h⟩ := Except.bind_eq_ok h
    obtain ⟨⟨slot, names₁⟩, bound, h⟩ := Except.bind_eq_ok h
    cases h
    have here := permits.before_declare bound behind
    simp (disch := exact of_eq_true rfl) [lowerOptional_emits permits here first,
      permits.declared bound behind, permits.nameless]
  | .block body, _, _, _, _, h, behind => lowerBlock_emits body h behind
  | .ifThen condition yes, _, _, _, _, h, behind => by
    obtain ⟨test, first, h⟩ := Except.bind_eq_ok h
    obtain ⟨⟨yesCode, names₁⟩, second, h⟩ := Except.bind_eq_ok h
    cases h
    have here := permits.before_stmt second behind
    simp (disch := exact of_eq_true rfl) [condition.lower_emits permits here first,
      yes.lower_emits second behind, permits.nameless]
  | .ifElse condition yes no, _, _, _, _, h, behind => by
    obtain ⟨test, first, h⟩ := Except.bind_eq_ok h
    obtain ⟨⟨yesCode, names₁⟩, second, h⟩ := Except.bind_eq_ok h
    obtain ⟨⟨noCode, names₂⟩, third, h⟩ := Except.bind_eq_ok h
    cases h
    have middle := permits.before_stmt third behind
    have here := permits.before_stmt second middle
    simp (disch := exact of_eq_true rfl) [condition.lower_emits permits here first,
      yes.lower_emits second middle, no.lower_emits third behind, permits.nameless]
  | .loop condition body, _, _, _, _, h, behind => by
    obtain ⟨test, first, h⟩ := Except.bind_eq_ok h
    obtain ⟨⟨bodyCode, names₁⟩, second, h⟩ := Except.bind_eq_ok h
    cases h
    have here := permits.before_stmt second behind
    simp (disch := exact of_eq_true rfl) [condition.lower_emits permits here first,
      body.lower_emits second behind, permits.nameless]
  | .tryHandle body _ binding handler, _, _, _, _, h, behind => by
    obtain ⟨⟨bodyCode, names₁⟩, first, h⟩ := Except.bind_eq_ok h
    obtain ⟨⟨slot, names₂⟩, bound, h⟩ := Except.bind_eq_ok h
    obtain ⟨⟨handlerCode, names₃⟩, second, h⟩ := Except.bind_eq_ok h
    cases h
    have caught := permits.before_block second behind
    have middle := permits.before_declare bound caught
    simp (disch := exact of_eq_true rfl) [lowerBlock_emits body first middle,
      permits.declared bound caught, lowerBlock_emits handler second behind, permits.nameless]
  | .giveBack value, _, _, _, _, h, behind => by
    obtain ⟨code, first, h⟩ := Except.bind_eq_ok h
    cases h
    simp (disch := exact of_eq_true rfl) [lowerOptional_emits permits behind first, permits.nameless]
  | .method _, _, _, _, _, h, _ | .classDecl _, _, _, _, _, h, _ => by cases h

theorem lowerBlock_emits : ∀ (body : List Stmt) {address : Nat} {known known' : Names}
    {code : List Instruction},
    lowerBlock body address known = .ok (code, known') → Q known' → Emits P code
  | [], _, _, _, _, h, _ => by
    cases h
    simp
  | s :: rest, _, _, _, _, h, behind => by
    obtain ⟨⟨code, names₁⟩, first, h⟩ := Except.bind_eq_ok h
    obtain ⟨⟨others, names₂⟩, second, h⟩ := Except.bind_eq_ok h
    cases h
    have middle := permits.before_block second behind
    simp [s.lower_emits first middle, lowerBlock_emits rest second behind]

end

/-! ## Classes and programs -/

theorem lowerStaticInit_emits (here : Q known) {id : ClassId} (own : P (.push (.classRef id))) :
    ∀ (fields : List VarDecl) {code : List Instruction},
    lowerStaticInit known id fields = .ok code → Emits P code
  | [], _, h => by
    cases h
    simp
  | d :: rest, code, h => by
    simp only [lowerStaticInit] at h
    split at h
    · next initializer _ _ =>
      obtain ⟨value, first, h⟩ := Except.bind_eq_ok h
      obtain ⟨others, second, h⟩ := Except.bind_eq_ok h
      cases h
      simp (disch := exact of_eq_true rfl) [own, initializer.lower_emits permits here first,
        lowerStaticInit_emits here own rest second, permits.nameless]
    · exact lowerStaticInit_emits here own rest h

/-- The code of a method ends in a return, which refers to no name. -/
theorem methodInstructions_emits {body : List Instruction} (emits : Emits P body) :
    Emits P (methodInstructions body) := by
  unfold methodInstructions
  split
  · exact emits
  · simp (disch := exact of_eq_true rfl) [emits, implicitReturn, permits.nameless]

theorem lowerMethods_emits : ∀ (methods : List MethodDecl) {tables tables' : MethodTables}
    {known known' : Names},
    (∀ m ∈ tables.ofObjects.values, m.code.Emits P) →
    (∀ m ∈ tables.ofClass.values, m.code.Emits P) →
    lowerMethods methods tables known = .ok (tables', known') → Q known' →
    (∀ m ∈ tables'.ofObjects.values, m.code.Emits P)
      ∧ ∀ m ∈ tables'.ofClass.values, m.code.Emits P
  | [], _, _, _, _, objects, statics, h, behind => by
    cases h
    exact ⟨objects, statics⟩
  | d :: rest, tables, _, _, _, objects, statics, h, behind => by
    obtain ⟨⟨image, names₁⟩, lowered, h⟩ := Except.bind_eq_ok h
    obtain ⟨⟨body, names₂⟩, first, lowered⟩ := Except.bind_eq_ok lowered
    cases lowered
    have middle := permits.before_methods h behind
    have code := (methodInstructions_emits permits (lowerBlock_emits permits d.body first middle)).code
    refine lowerMethods_emits rest ?_ ?_ h behind
    all_goals
      intro m member
      split at member
    · exact objects m member
    · rcases Table.mem_values_insert member with rfl | old
      · exact code
      · exact objects m old
    · rcases Table.mem_values_insert member with rfl | old
      · exact code
      · exact statics m old
    · exact statics m member

theorem ClassDecl.lower_emits {d : ClassDecl} {id : ClassId} {image : ClassImage}
    (own : P (.push (.classRef id))) (h : d.lower id known = .ok (image, known')) (behind : Q known') :
    image.All (Code.Emits P) := by
  obtain ⟨⟨tables, names₁⟩, methods, h⟩ := Except.bind_eq_ok h
  obtain ⟨staticInit, statics, h⟩ := Except.bind_eq_ok h
  cases h
  have none : ∀ m ∈ (∅ : Table MethodImage).values, m.code.Emits P :=
    fun m member => by cases member
  obtain ⟨objects, ofClass⟩ := lowerMethods_emits permits d.methods none none methods behind
  exact ⟨objects, ofClass, (lowerStaticInit_emits permits behind own d.fields statics).code⟩

theorem lowerTop_emits : ∀ (statements : List Stmt) {classes : Table ClassImage} {address : Nat}
    {known known' : Names} {top : TopCode},
    lowerTop statements classes address known = .ok (top, known') → Q known' → Emits P top.code
  | [], _, _, _, _, _, h, _ => by
    cases h
    simp
  | s :: rest, classes, address, known, known', top, h, behind => by
    cases s with
    | classDecl d =>
      simp only [lowerTop] at h
      split at h
      · exact lowerTop_emits rest h behind
      · obtain ⟨⟨image, names₁⟩, first, h⟩ := Except.bind_eq_ok h
        exact lowerTop_emits rest h behind
    | _ =>
      obtain ⟨⟨code, names₁⟩, first, h⟩ := Except.bind_eq_ok h
      obtain ⟨⟨others, names₂⟩, second, h⟩ := Except.bind_eq_ok h
      cases h
      have middle := permits.before_top second behind
      simp [Stmt.lower_emits permits _ first middle, lowerTop_emits rest second behind]

theorem Names.lowerProgram_emits {names later : Names} {statements : List Stmt} {p : Program}
    (lowered : names.lowerProgram statements = .ok (p, later)) (behind : Q later) : p.Emits P := by
  have classes := lowerProgram_classes lowered
  obtain ⟨⟨top, known⟩, first, lowered⟩ := Except.bind_eq_ok lowered
  cases lowered
  refine ⟨fun image member => ?_, (emits_append.2 ⟨lowerTop_emits permits statements first behind, ?_⟩).code⟩
  · obtain ⟨declared, numbered⟩ := classes.made image member
    have own := permits.receiver behind numbered
    obtain ⟨before, d, after, rfl, proper, -, -, others, names₁, names₂, lowers, made⟩ := declared.last
    -- Behind the class only globals are added, so its names are some of those at the end.
    refine ClassDecl.lower_emits permits own made (permits.before (globalsTop after) ?_)
    rw [(ClassDecl.lower_eq made).2.2, d.declared_eq, lowerTop_names before lowers,
      ← Names.addGlobals_append, ← Names.addGlobals_append]
    rwa [lowerTop_names _ first, globalsTop_append, globalsTop, proper, if_neg Bool.false_ne_true]
      at behind
  · simp (disch := exact of_eq_true rfl) [permits.nameless]

end Trees

end Monogram
