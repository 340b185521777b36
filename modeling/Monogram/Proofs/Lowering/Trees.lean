import Monogram.Proofs.Evaluation.Bodies
import Monogram.Proofs.Evaluation.Mapping
import Monogram.Proofs.Evaluation.Tree

/-! # Trees and their code

The lowering goes through a program in the order of the text, as the evaluation of the tree does: the
names known behind a statement are those that it declares, and each class is lowered to the image of
its tree.

* `Body.code` — the code of a body.
* `ClassDecl.lower_eq`, `lowerTop_classes` — lowered classes are the images of their trees.
-/

namespace Monogram

theorem Except.bind_eq_ok {ε α γ : Type} {x : Except ε α} {f : α → Except ε γ} {c : γ}
    (h : (x >>= f) = .ok c) : ∃ a, x = .ok a ∧ f a = .ok c := by
  cases x with
  | ok a => exact ⟨a, rfl, h⟩
  | error e => cases h

theorem Except.map_eq_ok {ε α γ : Type} {x : Except ε α} {f : α → γ} {c : γ}
    (h : x.map f = .ok c) : ∃ a, x = .ok a ∧ f a = c := by
  cases x with
  | ok a => exact ⟨a, rfl, Except.ok.inj h⟩
  | error e => cases h

theorem counted_eq {what : Counted} {count : Nat} {i : Instruction} {code : List Instruction}
    (h : counted what count i = .ok code) : code = [i] := by
  unfold counted at h
  split at h
  · cases h
  · cases h
    rfl

/-! ## Names known behind a statement -/

namespace Names

theorem declare_eq {names names' : Names} {name : String} {slot : Nat}
    (h : names.declare name = .ok (slot, names')) :
    slot = names.declaredSlot name ∧ names' = names.addGlobal name := by
  unfold declare at h
  cases known : names.slot? name with
  | some slot' =>
    simp only [known, Except.ok.injEq, Prod.mk.injEq] at h
    obtain ⟨rfl, rfl⟩ := h
    have member : name ∈ names.globals.names := Decidable.byContradiction fun absent => by
      have unknown : names.slot? name = none := List.idxOf?_eq_none_iff.2 absent
      rw [unknown] at known
      cases known
    refine ⟨by simp [declaredSlot, known], ?_⟩
    rw [addGlobal, Pool.names_insert_of_mem member]
  | none =>
    simp only [known] at h
    split at h
    · cases h
    · cases h
      exact ⟨by simp [declaredSlot, known], rfl⟩

end Names

mutual

theorem Stmt.lower_names : ∀ (s : Stmt) {address : Nat} {names names' : Names}
    {code : List Instruction}, s.lower address names = .ok (code, names') → names' = s.declared names
  | .expression e, _, _, _, _, h => by
    obtain ⟨_, -, h⟩ := Except.bind_eq_ok h
    cases h
    rfl
  | .declare decl, _, _, _, _, h => by
    obtain ⟨_, -, h⟩ := Except.bind_eq_ok h
    obtain ⟨⟨slot, names₁⟩, declared, h⟩ := Except.bind_eq_ok h
    cases h
    exact (Names.declare_eq declared).2
  | .block body, _, _, _, _, h => lowerBlock_names body h
  | .ifThen _ yes, _, _, _, _, h => by
    obtain ⟨_, -, h⟩ := Except.bind_eq_ok h
    obtain ⟨_, lowered, h⟩ := Except.bind_eq_ok h
    cases h
    exact yes.lower_names lowered
  | .ifElse _ yes no, _, _, _, _, h => by
    obtain ⟨_, -, h⟩ := Except.bind_eq_ok h
    obtain ⟨⟨_, names₁⟩, first, h⟩ := Except.bind_eq_ok h
    obtain ⟨⟨_, names₂⟩, second, h⟩ := Except.bind_eq_ok h
    cases h
    obtain rfl := yes.lower_names first
    exact no.lower_names second
  | .loop _ body, _, _, _, _, h => by
    obtain ⟨_, -, h⟩ := Except.bind_eq_ok h
    obtain ⟨_, lowered, h⟩ := Except.bind_eq_ok h
    cases h
    exact body.lower_names lowered
  | .tryHandle body _ binding handler, _, _, _, _, h => by
    obtain ⟨⟨_, names₁⟩, first, h⟩ := Except.bind_eq_ok h
    obtain ⟨⟨_, names₂⟩, bound, h⟩ := Except.bind_eq_ok h
    obtain ⟨⟨_, names₃⟩, second, h⟩ := Except.bind_eq_ok h
    cases h
    obtain rfl := lowerBlock_names body first
    obtain ⟨-, rfl⟩ := Names.declare_eq bound
    exact lowerBlock_names handler second
  | .giveBack _, _, _, _, _, h => by
    obtain ⟨_, -, h⟩ := Except.bind_eq_ok h
    cases h
    rfl
  | .method _, _, _, _, _, h => by cases h
  | .classDecl _, _, _, _, _, h => by cases h

theorem lowerBlock_names : ∀ (body : List Stmt) {address : Nat} {names names' : Names}
    {code : List Instruction},
    lowerBlock body address names = .ok (code, names') → names' = declaredBlock body names
  | [], _, _, _, _, h => by
    cases h
    rfl
  | s :: rest, _, _, _, _, h => by
    obtain ⟨⟨_, names₁⟩, first, h⟩ := Except.bind_eq_ok h
    obtain ⟨⟨_, names₂⟩, others, h⟩ := Except.bind_eq_ok h
    cases h
    obtain rfl := s.lower_names first
    exact lowerBlock_names rest others

end

/-! ## The code of a body -/

/-- The instructions of a method with this body. -/
def methodInstructions (body : List Instruction) : List Instruction :=
  if endsWithReturn body then body else body ++ implicitReturn

/-- The instructions of a body, as far as it has any. -/
def Body.lower : Body → Except LoweringError (List Instruction)
  | .method names statements => do
    let (body, _) ← lowerBlock statements 0 names
    return methodInstructions body
  | .statics names id fields => lowerStaticInit names id fields

/-- The code of a body; a body that cannot be lowered stands for nothing. -/
def Body.code (b : Body) : Code :=
  match b.lower with
  | .ok code => Code.ofInstructions code
  | .error _ => default

/-- A body has code. -/
def Body.Lowers (b : Body) : Prop := ∃ code, b.lower = .ok code

theorem Body.code_of_lower {b : Body} {code : List Instruction} (h : b.lower = .ok code) :
    b.code = Code.ofInstructions code := by
  simp only [Body.code, h]

theorem Body.code_default : Body.code default = default := rfl

/-! ## Classes -/

/-- A table of code is the image of a table of trees, each of which has the property. -/
def ImageOf {α γ : Type} (f : α → γ) (P : α → Prop) (trees : Table α) (images : Table γ) : Prop :=
  images = trees.map f ∧ ∀ tree ∈ trees.values, P tree

namespace ImageOf

variable {α γ : Type} {f : α → γ} {P : α → Prop}

theorem empty : ImageOf f P ∅ ∅ := ⟨rfl, fun _ member => by cases member⟩

theorem insert {trees : Table α} {images : Table γ} (old : ImageOf f P trees images) (name : String)
    (tree : α) (holds : P tree) : ImageOf f P (trees.insert name tree) (images.insert name (f tree)) := by
  refine ⟨by rw [old.1, Table.insert_map], fun other member => ?_⟩
  rcases Table.mem_values_insert member with rfl | member
  · exact holds
  · exact old.2 other member

end ImageOf

/-- A table of methods is lowered to the table of their code. -/
abbrev LowersTo : Table (MethodImage Body) → Table MethodImage → Prop :=
  ImageOf (MethodImage.mapBodies Body.code) fun m => m.code.Lowers

/-- A table of classes is lowered to the table of their images. -/
abbrev ClassesLowerTo : Table (ClassImage Body) → Table ClassImage → Prop :=
  ImageOf (ClassImage.mapBodies Body.code) (ClassImage.All Body.Lowers)

theorem lowerMethods_trees : ∀ (methods : List MethodDecl)
    {ofObjects ofClass : Table (MethodImage Body)} {objectImages classImages : Table MethodImage}
    {tables : MethodTables} {names names' : Names},
    LowersTo ofObjects objectImages → LowersTo ofClass classImages →
    lowerMethods methods ⟨objectImages, classImages⟩ names = .ok (tables, names') →
    LowersTo (methodTrees methods ofObjects ofClass names).1 tables.ofObjects
    ∧ LowersTo (methodTrees methods ofObjects ofClass names).2 tables.ofClass
    ∧ names' = methods.foldl (fun names method => declaredBlock method.body names) names
  | [], _, _, _, _, _, _, _, objects, statics, h => by
    cases h
    exact ⟨objects, statics, rfl⟩
  | d :: rest, _, _, _, _, _, names, _, objects, statics, h => by
    obtain ⟨⟨image, names₁⟩, lowered, h⟩ := Except.bind_eq_ok h
    obtain ⟨⟨body, names₂⟩, first, lowered⟩ := Except.bind_eq_ok lowered
    cases lowered
    obtain rfl := lowerBlock_names d.body first
    have lower : Body.lower (.method names d.body) = .ok (methodInstructions body) := by
      simp only [Body.lower, first]
      rfl
    have lowers : Body.Lowers (.method names d.body) := ⟨_, lower⟩
    simp only [methodTrees]
    change lowerMethods rest (if d.isStatic then _ else _) _ = _ at h
    have code := Body.code_of_lower lower
    cases kind : d.isStatic with
    | true =>
      rw [kind, if_pos rfl] at h
      have new := statics.insert d.name ⟨.method names d.body, d.visibility.getD .shown,
        d.parameters.map VarDecl.name, d.returnType⟩ lowers
      rw [MethodImage.mapBodies, code] at new
      exact lowerMethods_trees rest objects new h
    | false =>
      rw [kind, if_neg Bool.false_ne_true] at h
      have new := objects.insert d.name ⟨.method names d.body, d.visibility.getD .shown,
        d.parameters.map VarDecl.name, d.returnType⟩ lowers
      rw [MethodImage.mapBodies, code] at new
      exact lowerMethods_trees rest new statics h

/-- A lowered class is the image of its tree. -/
theorem ClassDecl.lower_eq {d : ClassDecl} {id : ClassId} {names names' : Names}
    {image : ClassImage} (h : d.lower id names = .ok (image, names')) :
    image = (d.tree id names).mapBodies Body.code ∧ (d.tree id names).All Body.Lowers
      ∧ names' = d.declared names := by
  obtain ⟨⟨tables, names₁⟩, methods, h⟩ := Except.bind_eq_ok h
  obtain ⟨staticInit, statics, h⟩ := Except.bind_eq_ok h
  cases h
  obtain ⟨objects, ofClass, rfl⟩ := lowerMethods_trees d.methods .empty .empty methods
  have lower : Body.lower (.statics (d.declared names) id d.fields) = .ok staticInit := statics
  refine ⟨?_, ⟨objects.2, ofClass.2, ⟨_, lower⟩⟩, rfl⟩
  rw [objects.1, ofClass.1, ← Body.code_of_lower lower]
  rfl

/-- The classes of lowered statements are the images of their trees. -/
theorem lowerTop_classes : ∀ (statements : List Stmt) {trees : Table (ClassImage Body)}
    {images : Table ClassImage} {address : Nat} {names names' : Names} {top : TopCode},
    ClassesLowerTo trees images → lowerTop statements images address names = .ok (top, names') →
    ClassesLowerTo (classTrees statements trees names) top.classes
  | [], _, _, _, _, _, _, old, h => by
    cases h
    exact old
  | s :: rest, trees, images, address, names, names', top, old, h => by
    cases s with
    | classDecl d =>
      simp only [lowerTop] at h
      simp only [classTrees]
      cases kind : d.isInterface with
      | true =>
        rw [kind, if_pos rfl] at h
        exact lowerTop_classes rest old h
      | false =>
        rw [kind, if_neg Bool.false_ne_true] at h
        obtain ⟨⟨image, names₁⟩, lowered, h⟩ := Except.bind_eq_ok h
        obtain ⟨rfl, lowers, rfl⟩ := ClassDecl.lower_eq lowered
        exact lowerTop_classes rest (old.insert d.name _ lowers) h
    | _ =>
      obtain ⟨⟨first, names₁⟩, lowered, h⟩ := Except.bind_eq_ok h
      obtain ⟨⟨others, names₂⟩, remaining, h⟩ := Except.bind_eq_ok h
      cases h
      obtain rfl := Stmt.lower_names _ lowered
      have classes := lowerTop_classes rest old remaining
      exact classes

end Monogram
