import Monogram.Proofs.Lowering.Naming
import Monogram.Proofs.Lowering.Verified
import Monogram.Proofs.Machine.Setting

/-! # Code of statements behind other statements

The code of a statement refers to its own addresses only.  Further on it is the same code, with all the
addresses in it higher, and so is a program behind another one whose names it knows.

* `Stmt.lower_moved` — the code of a statement at a higher address.
* `lowerTop_append` — the code of top-level statements behind others.
* `Names.lowerProgram_append` — a program behind another one that has declared its classes.
-/

namespace Monogram

/-! ## Statements -/

theorem Instruction.moved_of_isPlain {i : Instruction} (plain : i.isPlain) (k : Nat) : i.moved k = i := by
  cases i <;> first | rfl | cases plain

/-- Code without jumps is the same everywhere. -/
theorem Straight.map_moved {d d' : Nat} {code : List Instruction} (straight : Straight d code d')
    (k : Nat) : code.map (Instruction.moved k) = code := by
  induction straight with
  | nil => rfl
  | plain plain _ _ ih => rw [List.map_cons, ih, Instruction.moved_of_isPlain plain]
  | call method argc _ _ ih =>
    rw [List.map_cons, ih]
    rfl

/-- A computation goes on with what the first part has given. -/
theorem Except.bind_of_ok {ε α γ : Type} {x : Except ε α} {f : α → Except ε γ} {a : α}
    {result : Except ε γ} (first : x = .ok a) (others : f a = result) : (x >>= f) = result := by
  rw [first]
  exact others

-- Each address in the code is the one where the statement stands and some lengths more, so it is enough
-- to add `k` in front of these lengths or behind them.

mutual

theorem Stmt.lower_moved (k : Nat) : ∀ (s : Stmt) {a : Nat} {names names' : Names}
    {code : List Instruction}, s.lower a names = .ok (code, names') →
    s.lower (a + k) names = .ok (code.map (Instruction.moved k), names')
  | .expression e, _, _, _, _, h => by
    obtain ⟨value, first, h⟩ := Except.bind_eq_ok h
    cases h
    refine Except.bind_of_ok first ?_
    rw [List.map_append, (e.lower_straight _ 0 first).map_moved]
    rfl
  | .declare decl, _, _, _, _, h => by
    obtain ⟨value, first, h⟩ := Except.bind_eq_ok h
    obtain ⟨⟨slot, names₁⟩, declared, h⟩ := Except.bind_eq_ok h
    cases h
    refine Except.bind_of_ok first (Except.bind_of_ok declared ?_)
    rw [List.map_append, (lowerOptional_straight first).map_moved]
    rfl
  | .block body, _, _, _, _, h => lowerBlock_moved k body h
  | .ifThen condition yes, a, _, _, _, h => by
    obtain ⟨test, first, h⟩ := Except.bind_eq_ok h
    obtain ⟨⟨yesCode, names₁⟩, second, h⟩ := Except.bind_eq_ok h
    cases h
    have inside : a + k + test.length + 1 = a + test.length + 1 + k := by omega
    have stop : a + test.length + 1 + k + yesCode.length = a + test.length + 1 + yesCode.length + k := by
      omega
    refine Except.bind_of_ok first (Except.bind_of_ok (inside ▸ yes.lower_moved k second) ?_)
    simp only [List.map_append, List.map_cons, List.length_map, Instruction.moved, inside, stop,
      (condition.lower_straight _ 0 first).map_moved]
    rfl
  | .ifElse condition yes no, a, _, _, _, h => by
    obtain ⟨test, first, h⟩ := Except.bind_eq_ok h
    obtain ⟨⟨yesCode, names₁⟩, second, h⟩ := Except.bind_eq_ok h
    obtain ⟨⟨noCode, names₂⟩, third, h⟩ := Except.bind_eq_ok h
    cases h
    have inside : a + k + test.length + 1 = a + test.length + 1 + k := by omega
    have other : a + k + test.length + 1 + (yesCode.map (Instruction.moved k)).length + 1
        = a + test.length + 1 + yesCode.length + 1 + k := by
      rw [List.length_map]
      omega
    have stop : a + test.length + 1 + yesCode.length + 1 + k + noCode.length
        = a + test.length + 1 + yesCode.length + 1 + noCode.length + k := by omega
    refine Except.bind_of_ok first (Except.bind_of_ok (inside ▸ yes.lower_moved k second) ?_)
    refine Except.bind_of_ok (other ▸ no.lower_moved k third) ?_
    simp only [other]
    simp only [List.map_append, List.map_cons, List.length_map, Instruction.moved, stop,
      (condition.lower_straight _ 0 first).map_moved]
    rfl
  | .loop condition body, a, _, _, _, h => by
    obtain ⟨test, first, h⟩ := Except.bind_eq_ok h
    obtain ⟨⟨bodyCode, names₁⟩, second, h⟩ := Except.bind_eq_ok h
    cases h
    have inside : a + k + test.length + 1 = a + test.length + 1 + k := by omega
    have stop : a + test.length + 1 + k + bodyCode.length + 1
        = a + test.length + 1 + bodyCode.length + 1 + k := by omega
    refine Except.bind_of_ok first (Except.bind_of_ok (inside ▸ body.lower_moved k second) ?_)
    simp only [List.map_append, List.map_cons, List.map_nil, List.length_map, Instruction.moved, inside,
      stop, (condition.lower_straight _ 0 first).map_moved]
    rfl
  | .tryHandle body _ binding handler, a, _, _, _, h => by
    obtain ⟨⟨bodyCode, names₁⟩, first, h⟩ := Except.bind_eq_ok h
    obtain ⟨⟨slot, names₂⟩, declared, h⟩ := Except.bind_eq_ok h
    obtain ⟨⟨handlerCode, names₃⟩, second, h⟩ := Except.bind_eq_ok h
    cases h
    have inside : a + k + 1 = a + 1 + k := by omega
    have entry : a + k + 1 + (bodyCode.map (Instruction.moved k)).length + 2
        = a + 1 + bodyCode.length + 2 + k := by
      rw [List.length_map]
      omega
    have handling : a + 1 + bodyCode.length + 2 + k + 2 = a + 1 + bodyCode.length + 2 + 2 + k := by omega
    have stop : a + 1 + bodyCode.length + 2 + 2 + k + handlerCode.length
        = a + 1 + bodyCode.length + 2 + 2 + handlerCode.length + k := by omega
    refine Except.bind_of_ok (inside ▸ lowerBlock_moved k body first) (Except.bind_of_ok declared ?_)
    simp only [entry, handling]
    refine Except.bind_of_ok (lowerBlock_moved k handler second) ?_
    simp only [List.map_append, List.map_cons, List.map_nil, List.length_map, Instruction.moved, stop]
    rfl
  | .giveBack value, a, _, _, _, h => by
    obtain ⟨code, first, h⟩ := Except.bind_eq_ok h
    cases h
    refine Except.bind_of_ok first ?_
    rw [List.map_append, (lowerOptional_straight first).map_moved]
    rfl
  | .method _, _, _, _, _, h => by cases h
  | .classDecl _, _, _, _, _, h => by cases h

theorem lowerBlock_moved (k : Nat) : ∀ (body : List Stmt) {a : Nat} {names names' : Names}
    {code : List Instruction}, lowerBlock body a names = .ok (code, names') →
    lowerBlock body (a + k) names = .ok (code.map (Instruction.moved k), names')
  | [], _, _, _, _, h => by
    cases h
    rfl
  | s :: rest, a, _, _, _, h => by
    obtain ⟨⟨code, names₁⟩, first, h⟩ := Except.bind_eq_ok h
    obtain ⟨⟨others, names₂⟩, second, h⟩ := Except.bind_eq_ok h
    cases h
    have behind : a + k + code.length = a + code.length + k := by omega
    refine Except.bind_of_ok (s.lower_moved k first) ?_
    simp only [List.length_map, behind]
    refine Except.bind_of_ok (lowerBlock_moved k rest second) ?_
    rw [List.map_append]
    rfl

end

/-! ## Top-level statements -/

/-- Statements go on from the classes, the address and the names that those in front of them leave. -/
theorem lowerTop_append : ∀ (front : List Stmt) {back : List Stmt} {classes : Table ClassImage} {a : Nat}
    {names known later : Names} {top behind : TopCode},
    lowerTop front classes a names = .ok (top, known) →
    lowerTop back top.classes (a + top.code.length) known = .ok (behind, later) →
    lowerTop (front ++ back) classes a names
      = .ok (⟨behind.classes, top.code ++ behind.code⟩, later)
  | [], _, _, _, _, _, _, _, _, h, h' => by
    cases h
    exact h'
  | s :: rest, back, classes, a, names, known, later, top, behind, h, h' => by
    cases s with
    | classDecl d =>
      simp only [lowerTop, List.cons_append] at h ⊢
      cases kind : d.isInterface with
      | true =>
        rw [kind, if_pos rfl] at h
        rw [if_pos rfl]
        exact lowerTop_append rest h h'
      | false =>
        rw [kind, if_neg Bool.false_ne_true] at h
        rw [if_neg Bool.false_ne_true]
        obtain ⟨⟨image, names₁⟩, first, h⟩ := Except.bind_eq_ok h
        exact Except.bind_of_ok first (lowerTop_append rest h h')
    | _ =>
      obtain ⟨⟨code, names₁⟩, first, h⟩ := Except.bind_eq_ok h
      obtain ⟨⟨others, names₂⟩, remaining, h⟩ := Except.bind_eq_ok h
      cases h
      simp only [List.length_append, ← Nat.add_assoc] at h'
      refine Except.bind_of_ok first (Except.bind_of_ok (lowerTop_append rest remaining h') ?_)
      rw [List.append_assoc]
      rfl

/-- Statements that declare no class leave the classes alone, whichever they are, and may stand further
on. -/
theorem lowerTop_moved (k : Nat) : ∀ (statements : List Stmt) {classes : Table ClassImage} {a : Nat}
    {names later : Names} {top : TopCode}, (∀ s ∈ statements, s.class? = none) →
    lowerTop statements classes a names = .ok (top, later) →
    top.classes = classes ∧ ∀ others : Table ClassImage, lowerTop statements others (a + k) names
      = .ok (⟨others, top.code.map (Instruction.moved k)⟩, later)
  | [], _, _, _, _, _, _, h => by
    cases h
    exact ⟨rfl, fun _ => rfl⟩
  | s :: rest, classes, a, names, later, top, classless, h => by
    obtain ⟨none, classless'⟩ := List.forall_mem_cons.1 classless
    cases s with
    | classDecl d =>
      have kind : d.isInterface = true := by
        simpa [Stmt.class?] using none
      simp only [lowerTop, kind, if_true] at h ⊢
      exact lowerTop_moved k rest classless' h
    | _ =>
      obtain ⟨⟨code, names₁⟩, first, h⟩ := Except.bind_eq_ok h
      obtain ⟨⟨others, names₂⟩, remaining, h⟩ := Except.bind_eq_ok h
      cases h
      obtain ⟨same, moved⟩ := lowerTop_moved k rest classless' remaining
      refine ⟨same, fun classes => Except.bind_of_ok (Stmt.lower_moved k _ first) ?_⟩
      have behind : a + k + code.length = a + code.length + k := by omega
      simp only [List.length_map, behind]
      refine Except.bind_of_ok (moved classes) ?_
      rw [List.map_append]
      rfl

/-! ## Programs -/

theorem classNames_append (front back : List Stmt) :
    classNames (front ++ back) = classNames front ++ classNames back := by
  simp only [classNames, List.filterMap_append, List.map_append]

theorem classNames_eq_nil {statements : List Stmt} (classless : ∀ s ∈ statements, s.class? = none) :
    classNames statements = [] := by
  rw [classNames, List.filterMap_eq_nil_iff.2 classless, List.map_nil]

theorem Names.addClasses_append (names : Names) {front back : List Stmt}
    (classless : ∀ s ∈ back, s.class? = none) :
    names.addClasses (front ++ back) = names.addClasses front := by
  simp only [addClasses_eq, classNames_append, classNames_eq_nil classless, List.append_nil]

/-- The program joins another one, whose statements have the code `front`, and one without classes
behind it, whose statements have the code `back`. -/
structure Joins (whole p q : Program) (front back : List Instruction) : Prop where
  classes : whole.classes = p.classes
  classless : q.classes = ∅
  first : p.main = Code.ofInstructions (front ++ [.halt])
  second : q.main = Code.ofInstructions (back ++ [.halt])
  main : whole.main
    = Code.ofInstructions (front ++ back.map (Instruction.moved front.length) ++ [.halt])
  proper : .halt ∉ front

/-- Statements lowered behind a program end the program that they are with its statements. -/
theorem Names.lowerProgram_append {names known later : Names} {statements more : List Stmt}
    {p q : Program} (classless : ∀ s ∈ more, s.class? = none)
    (first : names.lowerProgram statements = .ok (p, known))
    (second : known.lowerProgram more = .ok (q, later)) :
    ∃ whole front back, names.lowerProgram (statements ++ more) = .ok (whole, later)
      ∧ Joins whole p q front back := by
  obtain ⟨⟨top, known⟩, lowered, h⟩ := Except.bind_eq_ok first
  cases h
  obtain ⟨⟨behind, later⟩, lowered', h⟩ := Except.bind_eq_ok second
  cases h
  -- No class is added for the later statements, neither with those in front nor without.
  have same : known.addClasses ([] ++ more) = known := known.addClasses_append classless
  rw [List.nil_append] at same
  rw [same] at lowered'
  obtain ⟨unchanged, moved⟩ := lowerTop_moved top.code.length more classless lowered'
  have all := lowerTop_append statements lowered (moved top.classes)
  obtain ⟨labels, shaped⟩ := lowerTop_shaped statements lowered
  rw [← names.addClasses_append classless] at all
  exact ⟨_, top.code, behind.code, Except.bind_of_ok all rfl, rfl, unchanged, rfl, rfl, rfl,
    shaped.no_halt⟩

end Monogram
