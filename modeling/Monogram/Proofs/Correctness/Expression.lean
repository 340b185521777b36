import Monogram.Proofs.Correctness.Instruction
import Monogram.Proofs.Lowering.Shape

/-! # Code of expressions follows their evaluation

* `Expr.follows` — an expression's code leaves the value of the expression.
* `evalAll_follows`, `evalEntries_follows` — expressions one after the other.
-/

namespace Monogram

open Monogram.Action

/-! ## Instructions of names, operators and calls -/

theorem Names.operate_load (names : Names) (name : String) :
    (names.load name).operate [] = (Eval.read names name : Eval Body Value) := by
  unfold Names.load Eval.read
  by_cases system : name = "z"
  · simp only [if_pos system]
    rfl
  · simp only [if_neg system]
    cases names.slot? name <;> cases names.classId? name <;> rfl

theorem Names.operate_store (names : Names) (name : String) (v : Value) :
    (names.store name).operate [v] = (Eval.write names name v : Eval Body Value) := by
  unfold Names.store Eval.write
  cases names.slot? name <;> rfl

theorem BinaryOp.operate_instruction (op : BinaryOp) (a b : Value) :
    op.instruction.operate [a, b] = (Eval.binary op a b : Eval Body Value) := by
  cases op <;> rfl

theorem LogicalOp.operate_instruction (op : LogicalOp) (a b : Value) :
    op.instruction.operate [a, b] = (Eval.choose op a b : Eval Body Value) := by
  cases op <;> rfl

theorem pairs_flatten (entries : List (Value × Value)) :
    Action.step.pairs (entries.flatMap fun entry => [entry.1, entry.2]) = entries := by
  induction entries with
  | nil => rfl
  | cons entry rest ih => exact congrArg (entry :: ·) ih

theorem flatten_length (entries : List (Value × Value)) :
    (entries.flatMap fun entry => [entry.1, entry.2]).length = 2 * entries.length := by
  induction entries with
  | nil => rfl
  | cons entry rest ih =>
    simp only [List.flatMap_cons, List.length_append, List.length_cons, List.length_nil, ih]
    omega

variable {enter : Enter} {n : Nat}

/-- A call, or the printing that takes its place. -/
theorem At.callMember {site : Site} {place next stop : Nat} {scene : Scene Body} {m : Machine}
    {name : String} {receiver : Value} {values : List Value} (entering : EnterFollows n enter)
    (here : At (site.above (values.reverse ++ [receiver])) place scene m)
    (found : site.code.instructions[next]? = some (callInstruction name values.length))
    (start : place = next) (behind : next + 1 = stop) :
    Follows site (n + 1) m (fun v => At (site.above [v]) stop)
      (Monogram.callMember enter name receiver values scene) := by
  unfold Monogram.callMember
  by_cases prints : name = printMember
  · rw [if_pos prints]
    rw [callInstruction, if_pos prints] at found
    have reversed : values.reverse ++ [receiver] = (receiver :: values).reverse := by simp
    rw [reversed] at here
    exact here.plain (receiver :: values) found rfl rfl rfl start behind
  · rw [if_neg prints]
    rw [callInstruction, if_neg prints] at found
    exact here.call entering found start behind

/-! ## Expressions -/

/-- The value of an expression lies on top of the operands behind its code. -/
def Expr.Follows (enter : Enter) (n : Nat) (names : Names) (e : Expr) : Prop :=
  ∀ ⦃code : List Instruction⦄ ⦃site : Site⦄ ⦃place next : Nat⦄ ⦃scene : Scene Body⦄ ⦃m : Machine⦄,
    e.lower names = .ok code → At site place scene m → Seg site.code next code → place = next →
    Monogram.Follows site n m (fun v => At (site.above [v]) (next + code.length))
      (e.eval enter names scene)

section Operands

variable {names : Names} {site : Site} {place next : Nat} {scene : Scene Body} {m : Machine}
  {i : Instruction}

/-- An instruction that takes the value of an expression. -/
theorem Expr.Follows.one {e : Expr} {code : List Instruction} {p : Value → Eval Body Value}
    (follows : e.Follows enter n names) (lowered : e.lower names = .ok code)
    (here : At site place scene m) (seg : Seg site.code next (code ++ [i])) (start : place = next)
    (operates : ∀ a, i.operate [a] = p a) (plain : i.isPlain) (pops : i.pops = 1) :
    Monogram.Follows site n m (fun v => At (site.above [v]) (next + (code ++ [i]).length))
      ((e.eval enter names >>= p) scene) := by
  refine (follows lowered here seg.left start).bind fun a scene m here => ?_
  exact here.plain [a] seg.right.head (operates a) plain pops.symm rfl (by simp; omega)

/-- An instruction that takes the values of two expressions. -/
theorem Expr.Follows.two {left right : Expr} {l r : List Instruction}
    {p : Value → Value → Eval Body Value} (lefts : left.Follows enter n names)
    (rights : right.Follows enter n names) (first : left.lower names = .ok l)
    (second : right.lower names = .ok r) (here : At site place scene m)
    (seg : Seg site.code next (l ++ r ++ [i])) (start : place = next)
    (operates : ∀ a b, i.operate [a, b] = p a b) (plain : i.isPlain) (pops : i.pops = 2) :
    Monogram.Follows site n m (fun v => At (site.above [v]) (next + (l ++ r ++ [i]).length))
      ((do p (← left.eval enter names) (← right.eval enter names)) scene) := by
  refine (lefts first here seg.left.left start).bind fun a scene m here => ?_
  refine (rights second here seg.left.right rfl).of_above.bind fun b scene m here => ?_
  exact here.plain [a, b] seg.right.head (operates a b) plain pops.symm (by simp; omega)
    (by simp; omega)

end Operands

mutual

theorem Expr.follows (entering : EnterFollows n enter) (names : Names) :
    ∀ e : Expr, e.Follows enter (n + 1) names
  | .number value => by
    intro code site place next scene m lowered here seg start
    cases lowered
    exact here.plain [] seg.head rfl rfl rfl start rfl
  | .string text => by
    intro code site place next scene m lowered here seg start
    cases lowered
    exact here.plain [] seg.head rfl rfl rfl start rfl
  | .grouping inner => by
    intro code site place next scene m lowered here seg start
    exact inner.follows entering names lowered here seg start
  | .variable name => by
    intro code site place next scene m lowered here seg start
    cases lowered
    obtain ⟨plain, pops⟩ := names.load_plain name
    exact here.plain [] seg.head (names.operate_load name) plain pops.symm start rfl
  | .assign name value => by
    intro code site place next scene m lowered here seg start
    obtain ⟨v, first, lowered⟩ := Except.bind_eq_ok lowered
    cases lowered
    obtain ⟨plain, pops⟩ := names.store_plain name
    exact (value.follows entering names).one first here seg start (names.operate_store name) plain pops
  -- Parts leave their values above what is below them, and the instruction of the node comes last.
  | .binary op left right => by
    intro code site place next scene m lowered here seg start
    obtain ⟨l, first, lowered⟩ := Except.bind_eq_ok lowered
    obtain ⟨r, second, lowered⟩ := Except.bind_eq_ok lowered
    cases lowered
    obtain ⟨plain, pops⟩ := op.instruction_plain
    exact (left.follows entering names).two (right.follows entering names) first second here seg start
      op.operate_instruction plain pops
  | .logical op left right => by
    intro code site place next scene m lowered here seg start
    obtain ⟨l, first, lowered⟩ := Except.bind_eq_ok lowered
    obtain ⟨r, second, lowered⟩ := Except.bind_eq_ok lowered
    cases lowered
    obtain ⟨plain, pops⟩ := op.instruction_plain
    exact (left.follows entering names).two (right.follows entering names) first second here seg start
      op.operate_instruction plain pops
  | .unary .at _ => by
    intro code site place next scene m lowered
    cases lowered
  | .unary .negate operand => by
    intro code site place next scene m lowered here seg start
    obtain ⟨v, first, lowered⟩ := Except.bind_eq_ok lowered
    cases lowered
    exact (operand.follows entering names).one first here seg start (fun _ => rfl) rfl rfl
  | .unary .not operand => by
    intro code site place next scene m lowered here seg start
    obtain ⟨v, first, lowered⟩ := Except.bind_eq_ok lowered
    cases lowered
    exact (operand.follows entering names).one first here seg start (fun _ => rfl) rfl rfl
  | .call callee args => by
    intro code site place next scene m lowered here seg start
    cases callee with
    | member object name =>
      obtain ⟨o, first, lowered⟩ := Except.bind_eq_ok lowered
      obtain ⟨vs, second, lowered⟩ := Except.bind_eq_ok lowered
      obtain ⟨call, third, lowered⟩ := Except.bind_eq_ok lowered
      cases lowered
      obtain rfl := counted_eq third
      refine (object.follows entering names first here seg.left.left start).bind
        fun receiver scene m here => ?_
      refine (evalAll_follows entering names args second here seg.left.right rfl).of_above.bind
        fun values scene m ⟨count, here⟩ => ?_
      rw [← count] at seg
      rw [Site.above_above] at here
      exact At.callMember entering here seg.right.head (by simp; omega) (by simp; omega)
    | «variable» name =>
      obtain ⟨vs, second, lowered⟩ := Except.bind_eq_ok lowered
      obtain ⟨call, third, lowered⟩ := Except.bind_eq_ok lowered
      cases lowered
      obtain rfl := counted_eq third
      have own : Follows site (n + 1) m _ (Eval.readName "this" scene) :=
        here.plain [] seg.head rfl rfl rfl start rfl
      refine own.bind fun receiver scene m here => ?_
      refine (evalAll_follows entering names args second here seg.left.tail rfl).of_above.bind
        fun values scene m ⟨count, here⟩ => ?_
      rw [← count] at seg
      rw [Site.above_above] at here
      exact At.callMember entering here seg.right.head (by simp; omega) (by simp; omega)
    | _ => cases lowered
  | .member object name => by
    intro code site place next scene m lowered here seg start
    simp only [Expr.lower] at lowered
    simp only [Expr.eval]
    cases known : names.staticReceiver? object with
    | some id =>
      rw [known] at lowered
      cases lowered
      have owner : Follows site (n + 1) m _ ((pure (.classRef id) : Eval Body Value) scene) :=
        here.plain [] seg.head rfl rfl rfl start rfl
      exact owner.bind fun c scene m here => here.plain [c] seg.tail.head rfl rfl rfl rfl (by simp)
    | none =>
      rw [known] at lowered
      obtain ⟨o, first, lowered⟩ := Except.bind_eq_ok lowered
      cases lowered
      exact (object.follows entering names).one first here seg start (fun _ => rfl) rfl rfl
  | .setMember object name value => by
    intro code site place next scene m lowered here seg start
    simp only [Expr.lower] at lowered
    simp only [Expr.eval]
    cases known : names.staticReceiver? object with
    | some id =>
      rw [known] at lowered
      obtain ⟨v, first, lowered⟩ := Except.bind_eq_ok lowered
      cases lowered
      have owner : Follows site (n + 1) m _ ((pure (.classRef id) : Eval Body Value) scene) :=
        here.plain [] seg.left.head rfl rfl rfl start rfl
      refine owner.bind (q := fun c => value.eval enter names >>= fun v => .storeStatic c name v)
        fun c scene m here => ?_
      refine (value.follows entering names first here seg.left.tail rfl).of_above.bind
        fun a scene m here => ?_
      exact here.plain [c, a] seg.right.head rfl rfl rfl (by simp; omega) (by simp; omega)
    | none =>
      rw [known] at lowered
      obtain ⟨o, first, lowered⟩ := Except.bind_eq_ok lowered
      obtain ⟨v, second, lowered⟩ := Except.bind_eq_ok lowered
      cases lowered
      exact (object.follows entering names).two (value.follows entering names) first second here seg
        start (fun _ _ => rfl) rfl rfl
  | .construct className args => by
    intro code site place next scene m lowered here seg start
    obtain ⟨vs, first, lowered⟩ := Except.bind_eq_ok lowered
    obtain ⟨call, second, lowered⟩ := Except.bind_eq_ok lowered
    cases lowered
    obtain rfl := counted_eq second
    refine (evalAll_follows entering names args first here seg.left start).bind
      fun values scene m ⟨count, here⟩ => ?_
    exact here.plain values seg.right.head rfl rfl count rfl (by simp; omega)
  | .list items => by
    intro code site place next scene m lowered here seg start
    obtain ⟨vs, first, lowered⟩ := Except.bind_eq_ok lowered
    obtain ⟨call, second, lowered⟩ := Except.bind_eq_ok lowered
    cases lowered
    obtain rfl := counted_eq second
    refine (evalAll_follows entering names items first here seg.left start).bind
      fun values scene m ⟨count, here⟩ => ?_
    exact here.plain values seg.right.head rfl rfl count rfl (by simp; omega)
  | .map entries => by
    intro code site place next scene m lowered here seg start
    obtain ⟨vs, first, lowered⟩ := Except.bind_eq_ok lowered
    obtain ⟨call, second, lowered⟩ := Except.bind_eq_ok lowered
    cases lowered
    obtain rfl := counted_eq second
    refine (evalEntries_follows entering names entries first here seg.left start).bind
      fun values scene m ⟨count, here⟩ => ?_
    refine here.plain _ seg.right.head ?_ rfl ?_ rfl (by simp; omega)
    · exact congrArg Eval.newMap (pairs_flatten values)
    · rw [flatten_length, count]
      rfl
  | .index object index => by
    intro code site place next scene m lowered here seg start
    obtain ⟨o, first, lowered⟩ := Except.bind_eq_ok lowered
    obtain ⟨i, second, lowered⟩ := Except.bind_eq_ok lowered
    cases lowered
    exact (object.follows entering names).two (index.follows entering names) first second here seg
      start (fun _ _ => rfl) rfl rfl
  | .setIndex object index value => by
    intro code site place next scene m lowered here seg start
    obtain ⟨o, first, lowered⟩ := Except.bind_eq_ok lowered
    obtain ⟨i, second, lowered⟩ := Except.bind_eq_ok lowered
    obtain ⟨v, third, lowered⟩ := Except.bind_eq_ok lowered
    cases lowered
    refine (object.follows entering names first here seg.left.left.left start).bind
      fun a scene m here => ?_
    refine (index.follows entering names second here seg.left.left.right rfl).of_above.bind
      fun b scene m here => ?_
    refine (value.follows entering names third here seg.left.right
      (by simp; omega)).of_above.of_above.bind fun c scene m here => ?_
    exact here.plain [a, b, c] seg.right.head rfl rfl rfl (by simp; omega) (by simp; omega)

theorem evalAll_follows (entering : EnterFollows n enter) (names : Names) :
    ∀ (es : List Expr) {code : List Instruction} {site : Site} {place next : Nat}
      {scene : Scene Body} {m : Machine}, lowerAll names es = .ok code →
      At site place scene m → Seg site.code next code → place = next →
      Follows site (n + 1) m
        (fun values scene m => values.length = es.length
          ∧ At (site.above values.reverse) (next + code.length) scene m)
        (evalAll enter names es scene)
  | [], _, _, _, _, _, _, lowered, here, seg, start => by
    cases lowered
    exact Reaches.here ⟨rfl, here.moved start⟩
  | e :: rest, code, site, place, next, scene, m, lowered, here, seg, start => by
    obtain ⟨v, first, lowered⟩ := Except.bind_eq_ok lowered
    obtain ⟨vs, second, lowered⟩ := Except.bind_eq_ok lowered
    cases lowered
    refine (e.follows entering names first here seg.left start).bind fun a scene m here => ?_
    refine (evalAll_follows entering names rest second here seg.right rfl).of_above.bind
      fun values scene m ⟨count, here⟩ => ?_
    refine Reaches.here ⟨congrArg (· + 1) count, ?_⟩
    rw [Site.above_above, ← List.reverse_cons] at here
    exact here.moved (by simp; omega)

theorem evalEntries_follows (entering : EnterFollows n enter) (names : Names) :
    ∀ (entries : List (Expr × Expr)) {code : List Instruction} {site : Site} {place next : Nat}
      {scene : Scene Body} {m : Machine}, lowerEntries names entries = .ok code →
      At site place scene m → Seg site.code next code → place = next →
      Follows site (n + 1) m
        (fun values scene m => values.length = entries.length
          ∧ At (site.above (values.flatMap fun entry => [entry.1, entry.2]).reverse)
              (next + code.length) scene m)
        (evalEntries enter names entries scene)
  | [], _, _, _, _, _, _, lowered, here, seg, start => by
    cases lowered
    exact Reaches.here ⟨rfl, here.moved start⟩
  | (key, value) :: rest, code, site, place, next, scene, m, lowered, here, seg, start => by
    obtain ⟨k, first, lowered⟩ := Except.bind_eq_ok lowered
    obtain ⟨v, second, lowered⟩ := Except.bind_eq_ok lowered
    obtain ⟨vs, third, lowered⟩ := Except.bind_eq_ok lowered
    cases lowered
    refine (key.follows entering names first here seg.left.left start).bind fun a scene m here => ?_
    refine (value.follows entering names second here seg.left.right rfl).of_above.bind
      fun b scene m here => ?_
    refine (evalEntries_follows entering names rest third here seg.right
      (by simp; omega)).of_above.of_above.bind fun values scene m ⟨count, here⟩ => ?_
    refine Reaches.here ⟨congrArg (· + 1) count, ?_⟩
    have base : ((site.above [a]).above [b]).above
          (values.flatMap fun entry => [entry.1, entry.2]).reverse
        = site.above (((a, b) :: values).flatMap fun entry => [entry.1, entry.2]).reverse := by
      simp [Site.above_above]
    rw [base] at here
    exact here.moved (by simp; omega)

end

end Monogram
