import Monogram.Proofs.Code.Label
import Monogram.Proofs.Lowering.Trees

/-! # The shape of lowered code

The code of expressions is straight: it has no jumps, and each instruction finds its operands.  The
code of statements is put together from straight code in a few ways, each with its own labels.

* `Straight` — instructions one after the other.
* `Shaped` — the code of statements, with the labels of its addresses.
* `Expr.lower_straight`, `Stmt.lower_shaped` — what is lowered is of these shapes.
-/

namespace Monogram

/-! ## Straight code -/

/-- Instructions that go on behind themselves, from one number of operands to another. -/
inductive Straight : Nat → List Instruction → Nat → Prop where
  | nil (d : Nat) : Straight d [] d
  | plain {d d' : Nat} {i : Instruction} {rest : List Instruction} (plain : i.isPlain)
      (enough : i.pops ≤ d) (others : Straight (d - i.pops + 1) rest d') : Straight d (i :: rest) d'
  | call {d d' : Nat} {rest : List Instruction} (method : String) (argc : Nat)
      (enough : argc + 1 ≤ d) (others : Straight (d - (argc + 1) + 1) rest d') :
      Straight d (.call method argc :: rest) d'

namespace Straight

variable {d d' d'' : Nat} {code rest : List Instruction}

theorem append (first : Straight d code d') (second : Straight d' rest d'') :
    Straight d (code ++ rest) d'' := by
  induction first with
  | nil => exact second
  | plain plain enough _ ih => exact .plain plain enough (ih second)
  | call method argc enough _ ih => exact .call method argc enough (ih second)

/-- An instruction that takes the operands above the first `d` and leaves one. -/
theorem taking {i : Instruction} {count : Nat} (first : Straight d code (d + count))
    (plain : i.isPlain) (pops : i.pops = count) : Straight d (code ++ [i]) (d + 1) := by
  subst pops
  have last := Straight.plain plain (Nat.le_add_left i.pops d) (.nil _)
  rw [Nat.add_sub_cancel] at last
  exact first.append last

theorem leaving {i : Instruction} (d : Nat) (plain : i.isPlain) (pops : i.pops = 0) :
    Straight d [i] (d + 1) :=
  taking (.nil d) plain pops

end Straight

/-! ## Instructions of names and operators -/

theorem Names.load_plain (names : Names) (name : String) :
    (names.load name).isPlain ∧ (names.load name).pops = 0 := by
  unfold Names.load
  split
  · exact ⟨rfl, rfl⟩
  · split <;> exact ⟨rfl, rfl⟩

theorem Names.store_plain (names : Names) (name : String) :
    (names.store name).isPlain ∧ (names.store name).pops = 1 := by
  unfold Names.store
  split <;> exact ⟨rfl, rfl⟩

theorem BinaryOp.instruction_plain (op : BinaryOp) :
    op.instruction.isPlain ∧ op.instruction.pops = 2 := by
  cases op <;> exact ⟨rfl, rfl⟩

theorem LogicalOp.instruction_plain (op : LogicalOp) :
    op.instruction.isPlain ∧ op.instruction.pops = 2 := by
  cases op <;> exact ⟨rfl, rfl⟩

/-! ## Straight code of expressions -/

theorem counted_straight {what : Counted} {d count : Nat} {i : Instruction}
    {first code : List Instruction} (evaluated : Straight d first (d + count))
    (h : counted what count i = .ok code) (plain : i.isPlain) (pops : i.pops = count) :
    Straight d (first ++ code) (d + 1) := by
  obtain rfl := counted_eq h
  exact evaluated.taking plain pops

theorem called_straight {what : Counted} {d argc : Nat} {name : String}
    {first code : List Instruction} (evaluated : Straight d first (d + 1 + argc))
    (h : counted what argc (callInstruction name argc) = .ok code) :
    Straight d (first ++ code) (d + 1) := by
  obtain rfl := counted_eq h
  unfold callInstruction
  split
  · rw [Nat.add_assoc, Nat.add_comm 1] at evaluated
    exact evaluated.taking rfl rfl
  · refine evaluated.append (.call name argc (by omega) ?_)
    have stop : d + 1 + argc - (argc + 1) + 1 = d + 1 := by omega
    rw [stop]
    exact .nil _

mutual

theorem Expr.lower_straight (names : Names) (d : Nat) : ∀ (e : Expr) {code : List Instruction},
    e.lower names = .ok code → Straight d code (d + 1)
  | .number _, _, h => by
    cases h
    exact .leaving d rfl rfl
  | .string _, _, h => by
    cases h
    exact .leaving d rfl rfl
  | .grouping inner, _, h => inner.lower_straight names d h
  | .variable name, _, h => by
    cases h
    obtain ⟨plain, pops⟩ := names.load_plain name
    exact .leaving d plain pops
  | .assign name value, _, h => by
    obtain ⟨v, first, h⟩ := Except.bind_eq_ok h
    cases h
    obtain ⟨plain, pops⟩ := names.store_plain name
    exact (value.lower_straight names d first).taking plain pops
  | .binary op left right, _, h => by
    obtain ⟨l, first, h⟩ := Except.bind_eq_ok h
    obtain ⟨r, second, h⟩ := Except.bind_eq_ok h
    cases h
    obtain ⟨plain, pops⟩ := op.instruction_plain
    exact ((left.lower_straight names d first).append
      (right.lower_straight names _ second)).taking plain pops
  | .logical op left right, _, h => by
    obtain ⟨l, first, h⟩ := Except.bind_eq_ok h
    obtain ⟨r, second, h⟩ := Except.bind_eq_ok h
    cases h
    obtain ⟨plain, pops⟩ := op.instruction_plain
    exact ((left.lower_straight names d first).append
      (right.lower_straight names _ second)).taking plain pops
  | .unary .at _, _, h => by cases h
  | .unary .negate operand, _, h => by
    obtain ⟨v, first, h⟩ := Except.bind_eq_ok h
    cases h
    exact (operand.lower_straight names d first).taking rfl rfl
  | .unary .not operand, _, h => by
    obtain ⟨v, first, h⟩ := Except.bind_eq_ok h
    cases h
    exact (operand.lower_straight names d first).taking rfl rfl
  | .call callee args, _, h => by
    cases callee with
    | member object name =>
      obtain ⟨o, first, h⟩ := Except.bind_eq_ok h
      obtain ⟨vs, second, h⟩ := Except.bind_eq_ok h
      obtain ⟨call, third, h⟩ := Except.bind_eq_ok h
      cases h
      exact called_straight
        ((object.lower_straight names d first).append (lowerAll_straight names _ args second)) third
    | «variable» name =>
      obtain ⟨vs, second, h⟩ := Except.bind_eq_ok h
      obtain ⟨call, third, h⟩ := Except.bind_eq_ok h
      cases h
      have own : Straight d [ownObject] (d + 1) := .leaving d rfl rfl
      exact called_straight (own.append (lowerAll_straight names _ args second)) third
    | _ => cases h
  | .member object name, _, h => by
    simp only [Expr.lower] at h
    cases known : names.staticReceiver? object with
    | some id =>
      rw [known] at h
      cases h
      have owner : Straight d [.push (.classRef id)] (d + 1) := .leaving d rfl rfl
      exact owner.taking rfl rfl
    | none =>
      rw [known] at h
      obtain ⟨o, first, h⟩ := Except.bind_eq_ok h
      cases h
      exact (object.lower_straight names d first).taking rfl rfl
  | .setMember object name value, _, h => by
    simp only [Expr.lower] at h
    cases known : names.staticReceiver? object with
    | some id =>
      rw [known] at h
      obtain ⟨v, first, h⟩ := Except.bind_eq_ok h
      cases h
      have owner : Straight d [.push (.classRef id)] (d + 1) := .leaving d rfl rfl
      exact (owner.append (value.lower_straight names _ first)).taking rfl rfl
    | none =>
      rw [known] at h
      obtain ⟨o, first, h⟩ := Except.bind_eq_ok h
      obtain ⟨v, second, h⟩ := Except.bind_eq_ok h
      cases h
      exact ((object.lower_straight names d first).append
        (value.lower_straight names _ second)).taking rfl rfl
  | .construct className args, _, h => by
    obtain ⟨vs, first, h⟩ := Except.bind_eq_ok h
    obtain ⟨call, second, h⟩ := Except.bind_eq_ok h
    cases h
    exact counted_straight (lowerAll_straight names d args first) second rfl rfl
  | .list items, _, h => by
    obtain ⟨vs, first, h⟩ := Except.bind_eq_ok h
    obtain ⟨call, second, h⟩ := Except.bind_eq_ok h
    cases h
    exact counted_straight (lowerAll_straight names d items first) second rfl rfl
  | .map entries, _, h => by
    obtain ⟨vs, first, h⟩ := Except.bind_eq_ok h
    obtain ⟨call, second, h⟩ := Except.bind_eq_ok h
    cases h
    obtain rfl := counted_eq second
    exact (lowerEntries_straight names d entries first).taking rfl rfl
  | .index object index, _, h => by
    obtain ⟨o, first, h⟩ := Except.bind_eq_ok h
    obtain ⟨i, second, h⟩ := Except.bind_eq_ok h
    cases h
    exact ((object.lower_straight names d first).append
      (index.lower_straight names _ second)).taking rfl rfl
  | .setIndex object index value, _, h => by
    obtain ⟨o, first, h⟩ := Except.bind_eq_ok h
    obtain ⟨i, second, h⟩ := Except.bind_eq_ok h
    obtain ⟨v, third, h⟩ := Except.bind_eq_ok h
    cases h
    exact (((object.lower_straight names d first).append
      (index.lower_straight names _ second)).append
        (value.lower_straight names _ third)).taking rfl rfl

theorem lowerAll_straight (names : Names) (d : Nat) : ∀ (es : List Expr) {code : List Instruction},
    lowerAll names es = .ok code → Straight d code (d + es.length)
  | [], _, h => by
    cases h
    exact .nil d
  | e :: rest, _, h => by
    obtain ⟨v, first, h⟩ := Except.bind_eq_ok h
    obtain ⟨vs, second, h⟩ := Except.bind_eq_ok h
    cases h
    have others := lowerAll_straight names (d + 1) rest second
    rw [Nat.add_right_comm] at others
    exact (e.lower_straight names d first).append others

theorem lowerEntries_straight (names : Names) (d : Nat) :
    ∀ (entries : List (Expr × Expr)) {code : List Instruction},
    lowerEntries names entries = .ok code → Straight d code (d + 2 * entries.length)
  | [], _, h => by
    cases h
    exact .nil d
  | (key, value) :: rest, _, h => by
    obtain ⟨k, first, h⟩ := Except.bind_eq_ok h
    obtain ⟨v, second, h⟩ := Except.bind_eq_ok h
    obtain ⟨vs, third, h⟩ := Except.bind_eq_ok h
    cases h
    have others := lowerEntries_straight names (d + 2) rest third
    have stop : d + 2 + 2 * rest.length = d + 2 * (rest.length + 1) := by omega
    rw [stop] at others
    exact ((key.lower_straight names d first).append (value.lower_straight names _ second)).append
      others

end

/-! ## Shapes of statements -/

/-- The labels of straight code that starts with `d` operands. -/
def straightLabels (handlers : List Nat) (d : Nat) : List Instruction → List Label
  | [] => []
  | i :: rest => ⟨d, handlers⟩ :: straightLabels handlers (d - i.pops + 1) rest

/-- Code of statements that stands at an address, and the labels of its addresses.  Where it starts
and where it ends the frame has no operands. -/
inductive Shaped : List Nat → Nat → List Instruction → List Label → Prop where
  | nil (handlers : List Nat) (a : Nat) : Shaped handlers a [] []
  | append {handlers : List Nat} {a : Nat} {c c' : List Instruction} {l l' : List Label}
      (first : Shaped handlers a c l) (second : Shaped handlers (a + c.length) c' l') :
      Shaped handlers a (c ++ c') (l ++ l')
  | drop (handlers : List Nat) (a : Nat) {value : List Instruction} (straight : Straight 0 value 1) :
      Shaped handlers a (value ++ [.pop]) (straightLabels handlers 0 value ++ [⟨1, handlers⟩])
  | giveBack (handlers : List Nat) (a : Nat) {value : List Instruction}
      (straight : Straight 0 value 1) :
      Shaped handlers a (value ++ [.giveBack]) (straightLabels handlers 0 value ++ [⟨1, handlers⟩])
  | branch {handlers : List Nat} {a : Nat} {test yes : List Instruction} {l : List Label}
      (straight : Straight 0 test 1) (body : Shaped handlers (a + test.length + 1) yes l) :
      Shaped handlers a (test ++ .jumpIfFalse (a + test.length + 1 + yes.length) :: yes)
        (straightLabels handlers 0 test ++ ⟨1, handlers⟩ :: l)
  | choice {handlers : List Nat} {a : Nat} {test yes no : List Instruction} {l l' : List Label}
      (straight : Straight 0 test 1) (first : Shaped handlers (a + test.length + 1) yes l)
      (second : Shaped handlers (a + test.length + 1 + yes.length + 1) no l') :
      Shaped handlers a
        (test ++ .jumpIfFalse (a + test.length + 1 + yes.length + 1) :: yes
          ++ .jump (a + test.length + 1 + yes.length + 1 + no.length) :: no)
        (straightLabels handlers 0 test ++ ⟨1, handlers⟩ :: l ++ ⟨0, handlers⟩ :: l')
  | loop {handlers : List Nat} {a : Nat} {test body : List Instruction} {l : List Label}
      (straight : Straight 0 test 1) (round : Shaped handlers (a + test.length + 1) body l) :
      Shaped handlers a
        (test ++ .jumpIfFalse (a + test.length + 1 + body.length + 1) :: body ++ [.jump a])
        (straightLabels handlers 0 test ++ ⟨1, handlers⟩ :: l ++ [⟨0, handlers⟩])
  | tryHandle {handlers : List Nat} {a slot : Nat} {body handler : List Instruction}
      {l l' : List Label}
      (first : Shaped ((a + 1 + body.length + 2) :: handlers) (a + 1) body l)
      (second : Shaped handlers (a + 1 + body.length + 2 + 2) handler l') :
      Shaped handlers a
        (.openHandler (a + 1 + body.length + 2) :: body
          ++ [.closeHandler, .jump (a + 1 + body.length + 2 + 2 + handler.length), .storeSlot slot,
            .pop] ++ handler)
        (⟨0, handlers⟩ :: l
          ++ [⟨0, (a + 1 + body.length + 2) :: handlers⟩, ⟨0, handlers⟩, ⟨1, handlers⟩, ⟨1, handlers⟩]
          ++ l')

theorem lowerOptional_straight {names : Names} {value : Option Expr} {code : List Instruction}
    (h : lowerOptional names value = .ok code) : Straight 0 code 1 := by
  cases value with
  | some e => exact e.lower_straight names 0 h
  | none =>
    cases h
    exact .leaving 0 rfl rfl

mutual

theorem Stmt.lower_shaped (handlers : List Nat) : ∀ (s : Stmt) {a : Nat} {names names' : Names}
    {code : List Instruction}, s.lower a names = .ok (code, names') → ∃ l, Shaped handlers a code l
  | .expression e, a, _, _, _, h => by
    obtain ⟨value, first, h⟩ := Except.bind_eq_ok h
    cases h
    exact ⟨_, .drop handlers a (e.lower_straight _ 0 first)⟩
  | .declare decl, a, _, _, _, h => by
    obtain ⟨value, first, h⟩ := Except.bind_eq_ok h
    obtain ⟨⟨slot, names₁⟩, -, h⟩ := Except.bind_eq_ok h
    cases h
    have stored : Straight 0 (value ++ [.storeSlot slot]) 1 :=
      (lowerOptional_straight first).taking (d := 0) rfl rfl
    have shaped := Shaped.drop handlers a stored
    rw [List.append_assoc] at shaped
    exact ⟨_, shaped⟩
  | .block body, _, _, _, _, h => lowerBlock_shaped handlers body h
  | .ifThen condition yes, _, _, _, _, h => by
    obtain ⟨test, first, h⟩ := Except.bind_eq_ok h
    obtain ⟨⟨yesCode, names₁⟩, second, h⟩ := Except.bind_eq_ok h
    cases h
    obtain ⟨l, body⟩ := yes.lower_shaped handlers second
    exact ⟨_, .branch (condition.lower_straight _ 0 first) body⟩
  | .ifElse condition yes no, _, _, _, _, h => by
    obtain ⟨test, first, h⟩ := Except.bind_eq_ok h
    obtain ⟨⟨yesCode, names₁⟩, second, h⟩ := Except.bind_eq_ok h
    obtain ⟨⟨noCode, names₂⟩, third, h⟩ := Except.bind_eq_ok h
    cases h
    obtain ⟨l, yesShape⟩ := yes.lower_shaped handlers second
    obtain ⟨l', noShape⟩ := no.lower_shaped handlers third
    exact ⟨_, .choice (condition.lower_straight _ 0 first) yesShape noShape⟩
  | .loop condition body, _, _, _, _, h => by
    obtain ⟨test, first, h⟩ := Except.bind_eq_ok h
    obtain ⟨⟨bodyCode, names₁⟩, second, h⟩ := Except.bind_eq_ok h
    cases h
    obtain ⟨l, round⟩ := body.lower_shaped handlers second
    exact ⟨_, .loop (condition.lower_straight _ 0 first) round⟩
  | .tryHandle body _ binding handler, a, _, _, _, h => by
    obtain ⟨⟨bodyCode, names₁⟩, first, h⟩ := Except.bind_eq_ok h
    obtain ⟨⟨slot, names₂⟩, -, h⟩ := Except.bind_eq_ok h
    obtain ⟨⟨handlerCode, names₃⟩, second, h⟩ := Except.bind_eq_ok h
    cases h
    obtain ⟨l, bodyShape⟩ :=
      lowerBlock_shaped ((a + 1 + bodyCode.length + 2) :: handlers) body first
    obtain ⟨l', handlerShape⟩ := lowerBlock_shaped handlers handler second
    exact ⟨_, .tryHandle bodyShape handlerShape⟩
  | .giveBack value, a, _, _, _, h => by
    obtain ⟨code, first, h⟩ := Except.bind_eq_ok h
    cases h
    exact ⟨_, .giveBack handlers a (lowerOptional_straight first)⟩
  | .method _, _, _, _, _, h => by cases h
  | .classDecl _, _, _, _, _, h => by cases h

theorem lowerBlock_shaped (handlers : List Nat) : ∀ (body : List Stmt) {a : Nat}
    {names names' : Names} {code : List Instruction},
    lowerBlock body a names = .ok (code, names') → ∃ l, Shaped handlers a code l
  | [], a, _, _, _, h => by
    cases h
    exact ⟨_, .nil handlers a⟩
  | s :: rest, _, _, _, _, h => by
    obtain ⟨⟨code, names₁⟩, first, h⟩ := Except.bind_eq_ok h
    obtain ⟨⟨others, names₂⟩, second, h⟩ := Except.bind_eq_ok h
    cases h
    obtain ⟨l, shaped⟩ := s.lower_shaped handlers first
    obtain ⟨l', shaped'⟩ := lowerBlock_shaped handlers rest second
    exact ⟨_, .append shaped shaped'⟩

end

theorem lowerStaticInit_shaped (names : Names) (id : ClassId) (a : Nat) :
    ∀ (fields : List VarDecl) {code : List Instruction},
    lowerStaticInit names id fields = .ok code → ∃ l, Shaped [] a code l
  | [], _, h => by
    cases h
    exact ⟨_, .nil [] a⟩
  | d :: rest, code, h => by
    simp only [lowerStaticInit] at h
    cases isStatic : d.isStatic with
    | false =>
      rw [isStatic] at h
      exact lowerStaticInit_shaped names id a rest h
    | true =>
      cases initializer : d.initializer with
      | none =>
        rw [isStatic, initializer] at h
        exact lowerStaticInit_shaped names id a rest h
      | some e =>
        rw [isStatic, initializer] at h
        obtain ⟨value, first, h⟩ := Except.bind_eq_ok h
        obtain ⟨others, second, h⟩ := Except.bind_eq_ok h
        cases h
        have owner : Straight 0 [.push (.classRef id)] 1 := .leaving 0 rfl rfl
        have stored : Straight 0 (([.push (.classRef id)] ++ value) ++ [.storeStatic d.name]) 1 :=
          (owner.append (e.lower_straight names 1 first)).taking (d := 0) rfl rfl
        have shaped := Shaped.drop [] a stored
        rw [List.append_assoc] at shaped
        obtain ⟨l', behind⟩ := lowerStaticInit_shaped names id _ rest second
        exact ⟨_, .append shaped behind⟩

end Monogram
