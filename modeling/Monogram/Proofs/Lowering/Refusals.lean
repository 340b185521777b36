import Mathlib.Logic.Relation
import Monogram.Proofs.Lowering.Naming

/-! # Programs without code

A program has no code exactly where a part of it has none: an operator without a meaning, a call of
something that is no name, a declaration where none may stand, or more of something than the code can
count.  The parts of interfaces, the initial values of the fields of objects and those of parameters are
not looked at.

* `Part`, `Part.Within` — the statements and expressions of a program, and those in them.
* `Part.Codeless` — parts that have no code themselves.
* `Pool.Overflows` — a global for which there is no slot.
* `Expr.lower_refused`, `Stmt.lower_refused` — what is refused below the top level.
* `Names.lowerProgram_refused_iff` — which programs are refused.
-/

namespace Monogram

/-! ## Parts -/

/-- A statement or an expression. -/
inductive Part where
  | statement (s : Stmt)
  | expression (e : Expr)

/-- The expressions that an expression is put together from. -/
def Expr.parts : Expr → List Expr
  | .number _ | .string _ | .variable _ => []
  | .grouping inner => [inner]
  | .assign _ value => [value]
  | .binary _ left right | .logical _ left right => [left, right]
  | .unary _ operand => [operand]
  | .call callee arguments => callee :: arguments
  | .member object _ => [object]
  | .setMember object _ value => [object, value]
  | .construct _ arguments => arguments
  | .list items => items
  | .map entries => entries.flatMap fun entry => [entry.1, entry.2]
  | .index object place => [object, place]
  | .setIndex object place value => [object, place, value]

/-- The expressions that a statement evaluates itself. -/
def Stmt.expressions : Stmt → List Expr
  | .expression e | .ifThen e _ | .ifElse e _ _ | .loop e _ => [e]
  | .declare decl => decl.initializer.toList
  | .giveBack value => value.toList
  | .block _ | .tryHandle _ _ _ _ | .method _ | .classDecl _ => []

/-- The statements that a statement is put together from. -/
def Stmt.inner : Stmt → List Stmt
  | .block body => body
  | .ifThen _ s | .loop _ s => [s]
  | .ifElse _ yes no => [yes, no]
  | .tryHandle body _ _ handler => body ++ handler
  | .expression _ | .declare _ | .giveBack _ | .method _ | .classDecl _ => []

/-- The parts that a part is put together from. -/
def Part.parts : Part → List Part
  | .statement s => s.expressions.map .expression ++ s.inner.map .statement
  | .expression e => e.parts.map .expression

/-- The second part stands in the first one, at any depth. -/
def Part.Within : Part → Part → Prop :=
  Relation.ReflTransGen fun whole part => part ∈ whole.parts

/-- An expression that has no code even if all its parts have. -/
def Expr.Codeless : Expr → Prop
  | .unary op _ => op = .at
  | .call callee arguments =>
    (∀ object name, callee ≠ .member object name) ∧ (∀ name, callee ≠ .variable name)
      ∨ 65535 < arguments.length
  | .construct _ arguments => 65535 < arguments.length
  | .list items => Nat.pow 2 32 - 1 < items.length
  | .map entries => Nat.pow 2 32 - 1 < entries.length
  | _ => False

/-- A statement that has no code even if all its parts have: a method, a class or an interface. -/
def Stmt.Codeless : Stmt → Prop
  | .method _ | .classDecl _ => True
  | _ => False

def Part.Codeless : Part → Prop
  | .statement s => s.Codeless
  | .expression e => e.Codeless

/-- The part has no code, or something in it has none. -/
def Part.Blocked (whole : Part) : Prop := ∃ part, whole.Within part ∧ part.Codeless

theorem Part.blocked_iff {whole : Part} :
    whole.Blocked ↔ whole.Codeless ∨ ∃ part ∈ whole.parts, part.Blocked := by
  constructor
  · rintro ⟨part, within, codeless⟩
    obtain rfl | ⟨next, member, within⟩ := within.cases_head
    · exact .inl codeless
    · exact .inr ⟨next, member, part, within, codeless⟩
  · rintro (codeless | ⟨next, member, part, within, codeless⟩)
    · exact ⟨whole, .refl, codeless⟩
    · exact ⟨part, .head member within, codeless⟩

theorem Part.blocked_expression_iff {e : Expr} : (Part.expression e).Blocked ↔
    e.Codeless ∨ ∃ part ∈ e.parts, (Part.expression part).Blocked := by
  rw [blocked_iff, parts]
  simp only [List.mem_map, exists_exists_and_eq_and]
  rfl

theorem Part.blocked_statement_iff {s : Stmt} : (Part.statement s).Blocked ↔
    s.Codeless ∨ (∃ e ∈ s.expressions, (Part.expression e).Blocked)
      ∨ ∃ inner ∈ s.inner, (Part.statement inner).Blocked := by
  rw [blocked_iff, parts]
  simp only [List.mem_append, or_and_right, exists_or, List.mem_map, exists_exists_and_eq_and]
  rfl

/-- The initial values of the static fields of a class. -/
def ClassDecl.staticInitializers (d : ClassDecl) : List Expr :=
  (d.fields.filter VarDecl.isStatic).filterMap VarDecl.initializer

/-- What of a statement at the top level becomes code: the statement, or the methods of a class and the
initial values of its static fields, and nothing of an interface. -/
def Stmt.compiled : Stmt → List Part
  | .classDecl d =>
    if d.isInterface then []
    else (d.methods.flatMap MethodDecl.body).map .statement
      ++ d.staticInitializers.map .expression
  | s => [.statement s]

/-- The part stands, at any depth, in what of the program becomes code. -/
def Part.CompiledIn (part : Part) (statements : List Stmt) : Prop :=
  ∃ s ∈ statements, ∃ whole ∈ s.compiled, whole.Within part

/-! ## Limits -/

theorem argumentLimit_eq : argumentLimit = 65535 := rfl

theorem wordLimit_eq : wordLimit = Nat.pow 2 32 - 1 := rfl

/-! ## Slots -/

/-- Among names that are added one after the other there is a new one that finds every number taken. -/
def Pool.Overflows (p : Pool) (l : List String) : Prop :=
  ∃ before name after, l = before ++ name :: after ∧
    name ∉ (p.insertAll before).names ∧ Nat.pow 2 32 ≤ (p.insertAll before).size

namespace Pool

variable {p : Pool} {name : String} {l l' : List String}

theorem not_overflows_nil : ¬ p.Overflows [] := fun ⟨before, _, _, split, _⟩ => by
  cases before <;> cases split

theorem overflows_cons : p.Overflows (name :: l) ↔
    (name ∉ p.names ∧ Nat.pow 2 32 ≤ p.size) ∨ (p.insert name).Overflows l := by
  constructor
  · rintro ⟨before, new, after, split, absent, full⟩
    cases before with
    | nil =>
      cases split
      exact .inl ⟨absent, full⟩
    | cons first before =>
      cases split
      exact .inr ⟨before, new, after, rfl, absent, full⟩
  · rintro (⟨absent, full⟩ | ⟨before, new, after, rfl, absent, full⟩)
    · exact ⟨[], name, l, rfl, absent, full⟩
    · exact ⟨name :: before, new, after, rfl, absent, full⟩

theorem overflows_append :
    p.Overflows (l ++ l') ↔ p.Overflows l ∨ (p.insertAll l).Overflows l' := by
  induction l generalizing p with
  | nil => exact (or_iff_right not_overflows_nil).symm
  | cons name rest ih =>
    rw [List.cons_append, overflows_cons, ih, overflows_cons, or_assoc]
    rfl

end Pool

/-! ## Refusals -/

section Refused

variable {α γ : Type} {x : Except LoweringError α} {f : α → Except LoweringError γ} {P R : Prop}

/-- There is an error in place of a result. -/
def Refused (x : Except LoweringError α) : Prop := ∃ e, x = .error e

theorem refused_error (e : LoweringError) : Refused (.error e : Except LoweringError α) := ⟨e, rfl⟩

theorem not_refused_ok (a : α) : ¬ Refused (.ok a) := nofun

/-- One thing after the other is refused if the first one is, or else the second one. -/
theorem refused_bind (first : Refused x ↔ P) (second : ∀ a, x = .ok a → (Refused (f a) ↔ R)) :
    Refused (x >>= f) ↔ P ∨ R := by
  rw [← first]
  cases x with
  | error e => exact iff_of_true ⟨e, rfl⟩ (.inl ⟨e, rfl⟩)
  | ok a => exact (second a rfl).trans (or_iff_right (not_refused_ok a)).symm

theorem refused_map {g : α → γ} (first : Refused x ↔ P) :
    Refused (x >>= fun a => (pure (g a) : Except LoweringError γ)) ↔ P :=
  (refused_bind first fun a _ => iff_false_intro (not_refused_ok (g a))).trans (iff_of_eq (or_false P))

theorem counted_refused {what : Counted} {count : Nat} {i : Instruction} :
    Refused (counted what count i) ↔ what.limit < count := by
  unfold counted
  split
  · next beyond => exact iff_of_true (refused_error _) beyond
  · next enough => exact iff_of_false (not_refused_ok _) enough

theorem Names.declare_refused {names : Names} {name : String} {p : Pool} (known : names.globals = p) :
    Refused (names.declare name) ↔ p.Overflows [name] := by
  rw [← known, Pool.overflows_cons, or_iff_left Pool.not_overflows_nil]
  unfold declare
  cases known : names.slot? name with
  | some slot =>
    have member : name ∈ names.globals.names :=
      List.mem_of_getElem? ((names.globals.index?_eq_some_iff name slot).1 known)
    exact iff_of_false (not_refused_ok _) fun overflow => overflow.1 member
  | none =>
    have absent : name ∉ names.globals.names := List.idxOf?_eq_none_iff.1 known
    simp only [absent, not_false_eq_true, true_and]
    have limit : wordLimit < names.globals.size ↔ Nat.pow 2 32 ≤ names.globals.size := by
      have positive : 0 < Nat.pow 2 32 := by decide
      rw [wordLimit_eq]
      generalize Nat.pow 2 32 = count at positive ⊢
      omega
    split
    · next full => exact iff_of_true (refused_error _) (limit.1 full)
    · next room => exact iff_of_false (not_refused_ok _) (mt limit.2 room)

end Refused

/-! ## Expressions -/

theorem lowerAll_refused (names : Names) (items : List Expr) :
    Refused (lowerAll names items) ↔ ∃ e ∈ items, Refused (e.lower names) := by
  induction items with
  | nil => exact iff_of_false (not_refused_ok _) nofun
  | cons e rest ih =>
    rw [List.exists_mem_cons_iff, ← ih]
    exact refused_bind .rfl fun _ _ => refused_map .rfl

theorem lowerEntries_refused (names : Names) (entries : List (Expr × Expr)) :
    Refused (lowerEntries names entries) ↔
      ∃ e ∈ entries.flatMap fun entry => [entry.1, entry.2], Refused (e.lower names) := by
  induction entries with
  | nil => exact iff_of_false (not_refused_ok _) nofun
  | cons entry rest ih =>
    rw [List.flatMap_cons, List.cons_append, List.cons_append, List.nil_append,
      List.exists_mem_cons_iff, List.exists_mem_cons_iff, ← ih]
    exact refused_bind .rfl fun _ _ => refused_bind .rfl fun _ _ => refused_map .rfl

/-- The expression that names a class before a point is a name, which always has code. -/
theorem Names.receiver_not_refused {names : Names} {object : Expr} {id : ClassId}
    (receiver : names.staticReceiver? object = some id) : ¬ Refused (object.lower names) := by
  cases object with
  | «variable» name => exact not_refused_ok _
  | _ => cases receiver

theorem Expr.member_refused (names : Names) (object : Expr) (name : String) :
    Refused ((Expr.member object name).lower names) ↔ Refused (object.lower names) := by
  rw [Expr.lower]
  split
  · next receiver => exact iff_of_false (not_refused_ok _) (names.receiver_not_refused receiver)
  · exact refused_map .rfl

/-- An expression is refused if it has no code itself or a part of it is refused. -/
theorem Expr.lower_refused_step (names : Names) (e : Expr) :
    Refused (e.lower names) ↔ e.Codeless ∨ ∃ part ∈ e.parts, Refused (part.lower names) := by
  cases e with
  | number _ | string _ | «variable» _ =>
    exact iff_of_false (not_refused_ok _) (by simp [Codeless, parts])
  | grouping inner =>
    show Refused (inner.lower names) ↔ _
    simp [Codeless, parts]
  | assign name value => exact (refused_map .rfl).trans (by simp [Codeless, parts])
  | binary op left right | logical op left right | index left right =>
    exact (refused_bind .rfl fun _ _ => refused_map .rfl).trans (by simp [Codeless, parts])
  | unary op operand =>
    cases op with
    | «at» => exact iff_of_true (refused_error _) (.inl rfl)
    | negate | not => exact (refused_map .rfl).trans (by simp [Codeless, parts])
  | call callee arguments =>
    cases callee with
    | member object name =>
      refine (refused_bind .rfl fun _ _ => refused_bind (lowerAll_refused names arguments) fun _ _ =>
        refused_map counted_refused).trans ?_
      have named : ¬ ∀ inner label, Expr.member object name ≠ .member inner label :=
        fun other => other object name rfl
      simp only [Codeless, parts, List.exists_mem_cons_iff, Expr.member_refused, Counted.limit,
        argumentLimit_eq, named, false_and, false_or]
      rw [← or_assoc, or_comm]
    | «variable» name =>
      refine (refused_bind (lowerAll_refused names arguments) fun _ _ =>
        refused_map counted_refused).trans ?_
      have named : ¬ ∀ label, Expr.variable name ≠ .variable label := fun other => other name rfl
      have lowered : ¬ Refused ((Expr.variable name).lower names) := not_refused_ok _
      simp only [Codeless, parts, List.exists_mem_cons_iff, Counted.limit, argumentLimit_eq, named,
        lowered, and_false, false_or]
      exact or_comm
    | _ => exact iff_of_true (refused_error _) (.inl (.inl ⟨nofun, nofun⟩))
  | member object name => exact (member_refused names object name).trans (by simp [Codeless, parts])
  | setMember object name value =>
    rw [Expr.lower]
    split
    · next receiver =>
      have named := names.receiver_not_refused receiver
      exact (refused_map .rfl).trans (by simp [Codeless, parts, named])
    · exact (refused_bind .rfl fun _ _ => refused_map .rfl).trans (by simp [Codeless, parts])
  | construct className arguments | list arguments =>
    refine (refused_bind (lowerAll_refused names arguments) fun _ _ =>
      refused_map counted_refused).trans or_comm
  | map entries =>
    exact (refused_bind (lowerEntries_refused names entries) fun _ _ =>
      refused_map counted_refused).trans or_comm
  | setIndex object place value =>
    exact (refused_bind .rfl fun _ _ => refused_bind .rfl fun _ _ => refused_map .rfl).trans
      (by simp [Codeless, parts])

theorem Expr.sizeOf_lt_of_mem_parts {e part : Expr} (member : part ∈ e.parts) :
    sizeOf part < sizeOf e := by
  cases e with
  | map entries =>
    obtain ⟨entry, inside, here⟩ := List.mem_flatMap.1 member
    have smaller := List.sizeOf_lt_of_mem inside
    obtain ⟨key, value⟩ := entry
    simp only [List.mem_cons, List.not_mem_nil, or_false] at here
    simp only [Expr.map.sizeOf_spec, Prod.mk.sizeOf_spec] at smaller ⊢
    obtain rfl | rfl := here <;> omega
  | call callee arguments =>
    simp only [Expr.call.sizeOf_spec]
    obtain rfl | inside := List.mem_cons.1 member
    · omega
    · have smaller := List.sizeOf_lt_of_mem inside
      omega
  | construct _ items | list items =>
    have smaller := List.sizeOf_lt_of_mem (show part ∈ items from member)
    simp only [Expr.construct.sizeOf_spec, Expr.list.sizeOf_spec]
    omega
  | number _ | string _ | «variable» _ => cases member
  | grouping _ | assign _ _ | unary _ _ | member _ _ =>
    obtain rfl := List.mem_singleton.1 member
    simp +arith
  | binary _ _ _ | logical _ _ _ | setMember _ _ _ | index _ _ =>
    obtain rfl | rfl := List.mem_pair.1 member <;> simp +arith
  | setIndex _ _ _ =>
    obtain rfl | member := List.mem_cons.1 member
    · simp +arith
    · obtain rfl | rfl := List.mem_pair.1 member <;> simp +arith

/-- An expression is refused exactly if something in it has no code. -/
theorem Expr.lower_refused (names : Names) (e : Expr) :
    Refused (e.lower names) ↔ (Part.expression e).Blocked := by
  have parts : (∃ part ∈ e.parts, Refused (part.lower names))
      ↔ ∃ part ∈ e.parts, (Part.expression part).Blocked :=
    exists_congr fun part => and_congr_right fun member =>
      have := sizeOf_lt_of_mem_parts member
      part.lower_refused names
  rw [e.lower_refused_step, parts, Part.blocked_expression_iff]
termination_by sizeOf e

/-! ## Statements -/

theorem lowerOptional_refused (names : Names) (value : Option Expr) :
    Refused (lowerOptional names value) ↔ ∃ e ∈ value.toList, (Part.expression e).Blocked := by
  cases value with
  | none => exact iff_of_false (not_refused_ok _) nofun
  | some e =>
    rw [Option.toList_some, List.exists_mem_cons_iff, or_iff_left (by simp)]
    exact e.lower_refused names

section Known

variable {names names' : Names} {p : Pool} {address : Nat} {code : List Instruction}

theorem Stmt.lower_globals {s : Stmt} (lowered : s.lower address names = .ok (code, names'))
    (known : names.globals = p) : names'.globals = p.insertAll s.globals := by
  rw [s.lower_names lowered, s.declared_eq, ← known]
  rfl

theorem lowerBlock_globals {body : List Stmt}
    (lowered : lowerBlock body address names = .ok (code, names')) (known : names.globals = p) :
    names'.globals = p.insertAll (globalsBlock body) := by
  rw [lowerBlock_names body lowered, declaredBlock_eq, ← known]
  rfl

theorem Names.declare_globals {name : String} {slot : Nat}
    (declared : names.declare name = .ok (slot, names')) (known : names.globals = p) :
    names'.globals = p.insertAll [name] := by
  rw [(declare_eq declared).2, ← known]
  rfl

end Known

mutual

/-- A statement is refused exactly if something in it has no code or a global that it declares gets no
slot. -/
theorem Stmt.lower_refused : ∀ (s : Stmt) (address : Nat) {names : Names} {p : Pool},
    names.globals = p →
    (Refused (s.lower address names) ↔ (Part.statement s).Blocked ∨ p.Overflows s.globals)
  | .expression e, _, names, _, _ => by
    rw [Part.blocked_statement_iff]
    refine (refused_map (e.lower_refused names)).trans ?_
    simp [Stmt.Codeless, Stmt.expressions, Stmt.inner, Stmt.globals, Pool.not_overflows_nil]
  | .declare decl, _, names, _, known => by
    rw [Part.blocked_statement_iff]
    refine (refused_bind (lowerOptional_refused names decl.initializer) fun _ _ =>
      refused_map (Names.declare_refused known)).trans ?_
    simp [Stmt.Codeless, Stmt.expressions, Stmt.inner, Stmt.globals]
  | .block body, address, _, _, known => by
    rw [Part.blocked_statement_iff]
    refine (lowerBlock_refused body address known).trans ?_
    simp [Stmt.Codeless, Stmt.expressions, Stmt.inner, Stmt.globals]
  | .ifThen condition yes, _, names, _, known => by
    rw [Part.blocked_statement_iff]
    refine (refused_bind (condition.lower_refused names) fun _ _ =>
      refused_map (yes.lower_refused _ known)).trans ?_
    simp [Stmt.Codeless, Stmt.expressions, Stmt.inner, Stmt.globals, or_assoc]
  | .ifElse condition yes no, _, names, _, known => by
    rw [Part.blocked_statement_iff]
    refine (refused_bind (condition.lower_refused names) fun _ _ =>
      refused_bind (yes.lower_refused _ known) fun _ first =>
        refused_map (no.lower_refused _ (Stmt.lower_globals first known))).trans ?_
    simp only [Stmt.Codeless, Stmt.expressions, Stmt.inner, Stmt.globals, Pool.overflows_append,
      List.mem_cons, List.not_mem_nil, or_false, exists_eq_or_imp, exists_eq_left, false_or]
    tauto
  | .loop condition body, _, names, _, known => by
    rw [Part.blocked_statement_iff]
    refine (refused_bind (condition.lower_refused names) fun _ _ =>
      refused_map (body.lower_refused _ known)).trans ?_
    simp [Stmt.Codeless, Stmt.expressions, Stmt.inner, Stmt.globals, or_assoc]
  | .tryHandle body _ binding handler, _, _, _, known => by
    rw [Part.blocked_statement_iff]
    refine (refused_bind (lowerBlock_refused body _ known) fun _ first =>
      have known := lowerBlock_globals first known
      refused_bind (Names.declare_refused known) fun _ second =>
        refused_map (lowerBlock_refused handler _ (Names.declare_globals second known))).trans ?_
    simp only [Stmt.Codeless, Stmt.expressions, Stmt.inner, Stmt.globals, Pool.overflows_append,
      List.mem_append, or_and_right, exists_or, List.not_mem_nil, false_and, exists_false, false_or]
    rw [or_left_comm (b := ∃ s ∈ handler, (Part.statement s).Blocked)]
    exact or_or_or_comm
  | .giveBack value, _, names, _, _ => by
    rw [Part.blocked_statement_iff]
    refine (refused_map (lowerOptional_refused names value)).trans ?_
    simp [Stmt.Codeless, Stmt.expressions, Stmt.inner, Stmt.globals, Pool.not_overflows_nil]
  | .method _, _, _, _, _ | .classDecl _, _, _, _, _ =>
    iff_of_true (refused_error _) (.inl (Part.blocked_statement_iff.2 (.inl trivial)))

theorem lowerBlock_refused : ∀ (body : List Stmt) (address : Nat) {names : Names} {p : Pool},
    names.globals = p →
    (Refused (lowerBlock body address names) ↔
      (∃ s ∈ body, (Part.statement s).Blocked) ∨ p.Overflows (globalsBlock body))
  | [], _, _, _, _ =>
    iff_of_false (not_refused_ok _) (not_or.2 ⟨nofun, Pool.not_overflows_nil⟩)
  | s :: rest, address, _, _, known => by
    refine (refused_bind (s.lower_refused address known) fun _ first =>
      refused_map (lowerBlock_refused rest _ (Stmt.lower_globals first known))).trans ?_
    rw [List.exists_mem_cons_iff, globalsBlock, Pool.overflows_append]
    exact or_or_or_comm

end

/-! ## Classes -/

theorem MethodDecl.lower_refused (d : MethodDecl) {names : Names} {p : Pool} (known : names.globals = p) :
    Refused (d.lower names) ↔
      (∃ s ∈ d.body, (Part.statement s).Blocked) ∨ p.Overflows (globalsBlock d.body) :=
  refused_map (lowerBlock_refused d.body 0 known)

theorem MethodDecl.lower_globals {d : MethodDecl} {names names' : Names} {p : Pool} {image : MethodImage}
    (lowered : d.lower names = .ok (image, names')) (known : names.globals = p) :
    names'.globals = p.insertAll (globalsBlock d.body) := by
  obtain ⟨⟨body, names₁⟩, first, same⟩ := Except.bind_eq_ok lowered
  cases same
  exact lowerBlock_globals first known

theorem lowerMethods_refused : ∀ (methods : List MethodDecl) (tables : MethodTables) {names : Names}
    {p : Pool}, names.globals = p →
    (Refused (lowerMethods methods tables names) ↔
      (∃ s ∈ methods.flatMap MethodDecl.body, (Part.statement s).Blocked)
        ∨ p.Overflows (methods.flatMap fun m => globalsBlock m.body))
  | [], _, _, _, _ => iff_of_false (not_refused_ok _) (not_or.2 ⟨nofun, Pool.not_overflows_nil⟩)
  | d :: rest, _, _, _, known => by
    refine (refused_bind (d.lower_refused known) fun _ first =>
      lowerMethods_refused rest _ (MethodDecl.lower_globals first known)).trans ?_
    simp only [List.flatMap_cons, List.mem_append, or_and_right, exists_or, Pool.overflows_append]
    exact or_or_or_comm

theorem lowerStaticInit_refused (names : Names) (id : ClassId) : ∀ fields : List VarDecl,
    Refused (lowerStaticInit names id fields) ↔
      ∃ e ∈ (fields.filter VarDecl.isStatic).filterMap VarDecl.initializer, (Part.expression e).Blocked
  | [] => iff_of_false (not_refused_ok _) nofun
  | ⟨_, _, some e, _, true⟩ :: rest => by
    refine (refused_bind (e.lower_refused names) fun _ _ =>
      refused_map (lowerStaticInit_refused names id rest)).trans ?_
    simp
  | ⟨_, _, none, _, true⟩ :: rest => (lowerStaticInit_refused names id rest).trans (by simp)
  | ⟨_, _, _, _, false⟩ :: rest => (lowerStaticInit_refused names id rest).trans (by simp)

/-- A class is refused exactly if something in what of it becomes code has none or a global that its
methods declare gets no slot. -/
theorem ClassDecl.lower_refused {d : ClassDecl} (proper : d.isInterface = false) (id : ClassId)
    {names : Names} {p : Pool} (known : names.globals = p) :
    Refused (d.lower id names) ↔
      (∃ part ∈ (Stmt.classDecl d).compiled, part.Blocked) ∨ p.Overflows d.globals := by
  refine (refused_bind (lowerMethods_refused d.methods _ known) fun _ _ =>
    refused_map (lowerStaticInit_refused _ id d.fields)).trans ?_
  rw [Stmt.compiled, proper, if_neg Bool.false_ne_true, ← ClassDecl.staticInitializers,
    ← ClassDecl.globals]
  simp only [List.mem_append, List.mem_map, or_and_right, exists_or, exists_exists_and_eq_and]
  exact or_right_comm

theorem ClassDecl.lower_globals {d : ClassDecl} {id : ClassId} {names names' : Names} {p : Pool}
    {image : ClassImage} (lowered : d.lower id names = .ok (image, names'))
    (known : names.globals = p) : names'.globals = p.insertAll d.globals := by
  obtain ⟨-, -, rfl⟩ := ClassDecl.lower_eq lowered
  rw [d.declared_eq, ← known]
  rfl

/-! ## Programs -/

/-- At the top level, as anywhere, a statement that declares no class is lowered in front of the others. -/
theorem lowerTop_plain {s : Stmt} (plain : ∀ d, s ≠ .classDecl d) (rest : List Stmt)
    (classes : Table ClassImage) (address : Nat) (names : Names) :
    lowerTop (s :: rest) classes address names = (do
      let (first, names) ← s.lower address names
      let (others, names) ← lowerTop rest classes (address + first.length) names
      return ({ others with code := first ++ others.code }, names)) := by
  cases s with
  | classDecl d => exact absurd rfl (plain d)
  | _ => rfl

theorem Stmt.compiled_plain {s : Stmt} (plain : ∀ d, s ≠ .classDecl d) :
    s.compiled = [.statement s] := by
  cases s with
  | classDecl d => exact absurd rfl (plain d)
  | _ => rfl

theorem globalsTop_plain {s : Stmt} (plain : ∀ d, s ≠ .classDecl d) (rest : List Stmt) :
    globalsTop (s :: rest) = s.globals ++ globalsTop rest := by
  cases s with
  | classDecl d => exact absurd rfl (plain d)
  | _ => rfl

theorem lowerTop_refused (statements : List Stmt) (classes : Table ClassImage) (address : Nat)
    {names : Names} {p : Pool} (known : names.globals = p) :
    Refused (lowerTop statements classes address names) ↔
      (∃ s ∈ statements, ∃ part ∈ s.compiled, part.Blocked) ∨ p.Overflows (globalsTop statements) := by
  induction statements generalizing classes address names p with
  | nil => exact iff_of_false (not_refused_ok _) (not_or.2 ⟨nofun, Pool.not_overflows_nil⟩)
  | cons s rest ih =>
    rw [List.exists_mem_cons_iff]
    by_cases plain : ∀ d, s ≠ .classDecl d
    · rw [lowerTop_plain plain, Stmt.compiled_plain plain, globalsTop_plain plain,
        Pool.overflows_append]
      simp only [List.mem_singleton, exists_eq_left]
      refine (refused_bind (s.lower_refused address known) fun _ first =>
        refused_map (ih _ _ (Stmt.lower_globals first known))).trans ?_
      exact or_or_or_comm
    · obtain ⟨d, rfl⟩ : ∃ d, s = .classDecl d := by simpa using plain
      rw [lowerTop, globalsTop]
      cases kind : d.isInterface with
      | true =>
        have nothing : (Stmt.classDecl d).compiled = [] := if_pos kind
        simpa [nothing] using ih classes address known
      | false =>
        rw [if_neg Bool.false_ne_true, if_neg Bool.false_ne_true, Pool.overflows_append]
        refine (refused_bind (ClassDecl.lower_refused kind _ known) fun _ first =>
          ih _ address (ClassDecl.lower_globals first known)).trans ?_
        exact or_or_or_comm

/-- A program is refused exactly if a part of what becomes code has none itself, or a global that it
declares is new and finds every slot taken. -/
theorem Names.lowerProgram_refused_iff (names : Names) (statements : List Stmt) :
    (∃ e, names.lowerProgram statements = .error e) ↔
      (∃ part : Part, part.CompiledIn statements ∧ part.Codeless)
        ∨ names.globals.Overflows (globalsTop statements) := by
  have known : (names.addClasses statements).globals = names.globals := by rw [addClasses_eq]
  refine (refused_map (lowerTop_refused statements ∅ 0 known)).trans (or_congr_left ?_)
  constructor
  · rintro ⟨s, member, whole, compiled, part, within, codeless⟩
    exact ⟨part, ⟨s, member, whole, compiled, within⟩, codeless⟩
  · rintro ⟨part, ⟨s, member, whole, compiled, within⟩, codeless⟩
    exact ⟨s, member, whole, compiled, part, within, codeless⟩

/-- The initial value of a field of objects is not looked at. -/
example : (Names.empty.lowerProgram [.classDecl ⟨"Bell", none, [],
    [⟨0, "tone", some (.unary .at (.string "a")), none, false⟩], [], false⟩]).isOk = true := by rfl

end Monogram
