import Monogram.Proofs.Lowering.Append
import Monogram.Proofs.Machine.Halting
import Monogram.Proofs.Session.Compilations
import Monogram.Proofs.Session.Reached

/-! # Programs entered piece by piece

Nothing but the names and the world outlives a program that has come to its halt.  So the statements
that are entered next do what they would have done at the end of it.

* `Joins.execute` — the statements behind the halt, in the program that is made of both.
* `Session.enter` — statements are compiled and run.
* `Session.Reached.piecewise` — statements entered in two parts and at once.
-/

namespace Monogram

open Monogram.Action

/-! ## Behind the halt -/

/-- Two runs end alike: in the same way, with the same world left. -/
def Matches : EStateM.Result Failure Machine Bool → EStateM.Result Failure Machine Bool → Prop
  | .ok ended m, .ok ended' m' => ended = ended' ∧ m.world = m'.world
  | .error f m, .error f' m' => f = f' ∧ m.world = m'.world
  | _, _ => False

theorem Code.getElem?_ofInstructions (code : List Instruction) (address : Nat) :
    (ofInstructions code).instructions[address]? = code[address]? := List.getElem?_toArray ..

namespace Joins

variable {whole p q : Program} {front back : List Instruction} {address : Nat} {limits : Limits}

/-- The only halt of the first program ends it. -/
theorem address_eq (joins : Joins whole p q front back)
    (here : p.main.instructions[address]? = some .halt) : address = front.length := by
  rw [joins.first, Code.getElem?_ofInstructions] at here
  rcases Nat.lt_or_ge address front.length with inside | behind
  · rw [List.getElem?_append_left inside] at here
    exact absurd (List.mem_of_getElem? here) joins.proper
  · rw [List.getElem?_append_right behind] at here
    obtain ⟨last, -⟩ := List.getElem?_eq_some_iff.1 here
    simp only [List.length_singleton] at last
    omega

theorem contains (joins : Joins whole p q front back) :
    Setting.Contains ⟨limits, fun _ => whole.main, 0, 0⟩ p.main := by
  intro address i here proper
  rw [joins.first, Code.getElem?_ofInstructions] at here
  have inside : address < front.length := by
    obtain ⟨known, same⟩ := List.getElem?_eq_some_iff.1 here
    refine Nat.lt_of_not_le fun behind => proper ?_
    rw [← same, List.getElem_append_right behind, List.getElem_singleton]
  rw [List.getElem?_append_left inside] at here
  show whole.main.instructions[address + 0]? = _
  rw [joins.main, Code.getElem?_ofInstructions, Nat.add_zero, List.append_assoc,
    List.getElem?_append_left inside, here, Instruction.moved_zero]

theorem ends (joins : Joins whole p q front back) (count : Nat) :
    Setting.Ends ⟨limits, fun _ => whole.main, front.length, count⟩ q.main := by
  intro address
  show whole.main.instructions[address + front.length]? = q.main.instructions[address]?.map _
  rw [joins.main, joins.second, Code.getElem?_ofInstructions, Code.getElem?_ofInstructions,
    List.append_assoc, List.getElem?_append_right (Nat.le_add_left ..), Nat.add_sub_cancel,
    ← List.getElem?_map, List.map_append]
  rfl

theorem loading_second (joins : Joins whole p q front back) (m : Machine) :
    m.loading q = { m with executed := 0 } := by
  rw [Machine.loading, joins.classless]
  rfl

section Halted

variable {first m₀ m : Machine} {k : Nat}

/-- How the second program is set up at the end of both, when so many instructions have been counted. -/
def behind (whole : Program) (front : List Instruction) (limits : Limits) (count : Nat) : Setting :=
  ⟨limits, fun _ => whole.main, front.length, count⟩

/-- The program of both comes to where the second one starts. -/
theorem steps (joins : Joins whole p q front back) (halted : Halted p first m₀ k m front.length)
    (unlimited : m₀.limits.maxInstructions = none) :
    Steps k (entered m₀ (.start whole.main .main none))
      ((entered (m.stopped.loading q) (.start q.main .main none)).placed
        (behind whole front m₀.limits m.executed)) := by
  let σ : Setting := ⟨m₀.limits, fun _ => whole.main, 0, 0⟩
  have alive : m.frames ≠ [] := by
    rw [halted.frames]
    exact List.cons_ne_nil _ _
  have grounded := Grounded.enter halted.idle (.start p.main .main none)
  have placed := halted.steps.placed alive grounded joins.contains (σ := σ) rfl unlimited
  have start : (entered m₀ (.start p.main .main none)).placed σ
      = entered m₀ (.start whole.main .main none) := by
    simp only [Machine.placed, entered, halted.idle]
    rfl
  -- The halt of the first program stands where the second one starts, and there is nothing else to a
  -- frame of statements outside of every handler.
  have halt : m.placed σ = (entered (m.stopped.loading q) (.start q.main .main none)).placed
      (behind whole front m₀.limits m.executed) := by
    rw [joins.loading_second]
    simp [Machine.placed, entered, Machine.stopped, halted.frames, Setting.frames, Setting.frame,
      Setting.shift, Frame.start, behind, σ]
  rw [start, halt] at placed
  exact placed

/-- From there on it does what the second program does. -/
theorem cycles (joins : Joins whole p q front back) (halted : Halted p first m₀ k m front.length)
    (unlimited : m₀.limits.maxInstructions = none) (n : Nat) :
    cycles (k + n) (entered m₀ (.start whole.main .main none))
      = (behind whole front m₀.limits m.executed).result
        (cycles n (entered (m.stopped.loading q) (.start q.main .main none))) := by
  have limits : m.limits = m₀.limits := halted.limits_eq.trans halted.limits.symm
  have unlimited' : (entered (m.stopped.loading q) (.start q.main .main none)).limits.maxInstructions
      = none := (congrArg Limits.maxInstructions limits).trans unlimited
  rw [(joins.steps halted unlimited).cycles_eq]
  exact cycles_placed (Grounded.enter rfl _) (joins.ends m.executed) limits.symm unlimited'

/-- Behind the halt, the statements of the second program do what they do at the end of both. -/
theorem execute (joins : Joins whole p q front back) (halted : Halted p first m₀ k m front.length)
    (unlimited : m₀.limits.maxInstructions = none) (n : Nat) :
    Matches (execute n (.start q.main .main none) (m.stopped.loading q))
      (execute (k + n) (.start whole.main .main none) m₀) := by
  have all := joins.cycles halted unlimited n
  have room : (m.stopped.loading q).frames.length < (m.stopped.loading q).limits.maxDepth := by
    show 0 < m.limits.maxDepth
    rw [halted.limits_eq, ← halted.limits]
    exact Nat.zero_lt_of_lt halted.room
  -- What a failure leaves of the operands is no part of the world.
  cases result : Action.cycles n (entered (m.stopped.loading q) (.start q.main .main none)) with
  | ok ended m' =>
    rw [result] at all
    rw [execute_of_ok room result, execute_of_ok halted.room all]
    exact ⟨rfl, rfl⟩
  | error f m' =>
    rw [result] at all
    rw [execute_of_error room result, execute_of_error halted.room all]
    exact ⟨rfl, rfl⟩

/-- The same for the whole run of the second program, and for that of both. -/
theorem run (joins : Joins whole p q front back) (halted : Halted p first m₀ k m front.length)
    (unlimited : first.limits.maxInstructions = none) :
    ∃ bound, ∀ n, bound ≤ n → Matches (run n q m.stopped) (run (k + n) whole first) := by
  obtain ⟨ended, bound, initialized⟩ := halted.initialized
  refine ⟨bound, fun n larger => ?_⟩
  have second : q.pieces = [.start q.main .main none] := by
    rw [Program.pieces_eq, Program.initializers, joins.classless]
    rfl
  -- The whole program initializes the classes of the first one; the second one has none.
  have both : whole.pieces = p.initializers ++ [.start whole.main .main none] := by
    rw [Program.pieces_eq, Program.initializers, joins.classes]
    rfl
  have loading : first.loading whole = first.loading p := by
    rw [Machine.loading, joins.classes]
    rfl
  have before := executeAll_mono (initialized.symm ▸ ended) (Nat.le_trans larger (Nat.le_add_left n k))
  rw [run_eq, run_eq, second, both, loading, executeAll_append, before, initialized, executeAll_one]
  refine (congrArg (Matches _) executeAll_one).mpr ?_
  exact joins.execute halted (halted.limits ▸ unlimited) n

end Halted

end Joins

/-! ## Sessions -/

namespace Session

/-- Compiles statements and runs them. -/
def enter (s : Session) (bound : Nat) (statements : List Stmt) : Except Error Bool × Session :=
  match s.names.take statements with
  | (.ok program, names) => run { s with names } bound program
  | (.error e, _) => (.error (.compilation e), s)

/-- A text is entered as its statements are. -/
theorem eval_enter (s : Session) (bound : Nat) (text : String) :
    (s.eval bound text).2 = (s.enter bound (Source.read text).statements).2
    ∧ ∀ e, (s.eval bound text).1 = .error e
      ↔ (s.enter bound (Source.read text).statements).1 = .error e := by
  simp only [eval, enter, compile_eq]
  cases s.names.take (Source.read text).statements with
  | mk result names =>
    cases result with
    | error e => exact ⟨rfl, fun _ => by simp⟩
    | ok program =>
      refine ⟨rfl, fun e => ?_⟩
      simp only
      cases (run { s with names } bound program).1 <;> simp [Except.map]

/-- Two entries have ended alike: in the same way, with the same names and the same world left. -/
structure EndAlike (r r' : Except Error Bool × Session) : Prop where
  ending : r.1 = r'.1
  names : r.2.names = r'.2.names
  world : r.2.machine.world = r'.2.machine.world

/-- What it comes to that the statements are entered, whatever bound lets it. -/
def Leaves (s : Session) (statements : List Stmt) (ending : Except Error Bool) (names : Names)
    (world : World) : Prop :=
  ending ≠ .ok false ∧ ∃ bound, (s.enter bound statements).1 = ending
    ∧ (s.enter bound statements).2.names = names ∧ (s.enter bound statements).2.machine.world = world

theorem enter_of_ok {s : Session} {statements : List Stmt} {p : Program} {known : Names}
    (lowered : s.names.lowerProgram statements = .ok (p, known)) (bound : Nat) :
    s.enter bound statements = run { s with names := known } bound p := by
  rw [enter, Names.take_of_ok lowered]

theorem final_of_run {s : Session} {bound : Nat} {p : Program} (ends : (s.run bound p).1 ≠ .ok false) :
    Final (Action.run bound p s.machine) := by
  simp only [run, act] at ends
  cases result : Action.run bound p s.machine with
  | ok ended m =>
    rw [result] at ends
    cases ended with
    | true => rfl
    | false => exact absurd rfl ends
  | error f m => trivial

theorem enter_mono {s : Session} {statements : List Stmt} {bound more : Nat}
    (ends : (s.enter bound statements).1 ≠ .ok false) (larger : bound ≤ more) :
    s.enter more statements = s.enter bound statements := by
  cases lowered : s.names.lowerProgram statements with
  | error e => simp only [enter, Names.take_of_error lowered]
  | ok result =>
    obtain ⟨p, known⟩ := result
    rw [enter_of_ok lowered] at ends ⊢
    rw [enter_of_ok lowered]
    have final := final_of_run ends
    have same : Action.run more p s.machine = Action.run bound p s.machine := by
      rw [run_eq] at final ⊢
      rw [run_eq, executeAll_mono final larger]
    simp only [run, act, same]

theorem EndAlike.of_matches {known : Names} {p q : Program} {m m' : Machine} {bound bound' : Nat}
    (alike : Matches (Action.run bound p m) (Action.run bound' q m')) :
    EndAlike (run ⟨known, m⟩ bound p) (run ⟨known, m'⟩ bound' q) := by
  simp only [run, act]
  cases first : Action.run bound p m with
  | ok ended m₁ =>
    cases second : Action.run bound' q m' with
    | ok ended' m₂ =>
      rw [first, second] at alike
      obtain ⟨rfl, world⟩ := alike
      exact ⟨rfl, rfl, world⟩
    | error f m₂ =>
      rw [first, second] at alike
      exact alike.elim
  | error f m₁ =>
    cases second : Action.run bound' q m' with
    | ok ended m₂ =>
      rw [first, second] at alike
      exact alike.elim
    | error f' m₂ =>
      rw [first, second] at alike
      obtain ⟨rfl, world⟩ := alike
      exact ⟨rfl, rfl, world⟩

/-- Entries that agree whatever the bound leave the same. -/
theorem leaves_iff {s s' : Session} {statements more : List Stmt} {bound k : Nat}
    (agree : ∀ n, bound ≤ n → EndAlike (s'.enter n more) (s.enter (k + n) statements))
    (ending : Except Error Bool) (names : Names) (world : World) :
    s'.Leaves more ending names world ↔ s.Leaves statements ending names world := by
  constructor
  · rintro ⟨final, n, rfl, rfl, rfl⟩
    -- A result that is there is still there with a larger bound, where the two entries agree.
    have same := enter_mono final (Nat.le_max_right bound n)
    obtain ⟨ending, names, world⟩ := agree _ (Nat.le_max_left bound n)
    rw [same] at ending names world
    exact ⟨final, _, ending.symm, names.symm, world.symm⟩
  · rintro ⟨final, n, rfl, rfl, rfl⟩
    have larger : n ≤ k + max bound n := by omega
    obtain ⟨ending, names, world⟩ := agree _ (Nat.le_max_left bound n)
    rw [enter_mono final larger] at ending names world
    exact ⟨final, _, ending, names, world⟩

namespace Reached

variable {limits : Limits} {console : Console} {s : Session} {statements more : List Stmt}
  {p q : Program} {known later : Names}

/-- Statements that come to their halt and statements without classes behind them: entered in two parts
they come to what they come to when they are entered at once.  From some bound on this holds of every
bound, so also of what is printed by a program that does not end. -/
theorem piecewise (reached : s.Reached limits console) (classless : ∀ t ∈ more, t.class? = none)
    (first : s.names.lowerProgram statements = .ok (p, known))
    (second : known.lowerProgram more = .ok (q, later))
    (unlimited : s.machine.limits.maxInstructions = none) (halts : p.Halts s.machine) :
    ∃ bound s', s.enter bound statements = (.ok true, s')
      ∧ (∃ k, ∀ n, bound ≤ n → EndAlike (s'.enter n more) (s.enter (k + n) (statements ++ more)))
      ∧ ∀ ending names world,
        s'.Leaves more ending names world ↔ s.Leaves (statements ++ more) ending names world := by
  have lowered : p.Lowered := ⟨_, _, _, first⟩
  obtain ⟨whole, front, back, both, joins⟩ := Names.lowerProgram_append classless first second
  obtain ⟨m₀, k, m, address, halted⟩ := reached.rested.halted lowered halts
  obtain rfl := joins.address_eq halted.here
  obtain ⟨bound, alike⟩ := joins.run halted unlimited
  -- Two bounds are needed: one for the first entry to end, and one for the static initializers at the
  -- start of the entry of both.
  obtain ⟨-, enough, ended⟩ := halted.comes unlimited
  have entered : s.enter enough statements = (.ok true, ⟨known, m.stopped⟩) := by
    rw [enter_of_ok first]
    simp only [run, act, run_eq, ended]
    rfl
  have agree : ∀ n, max bound enough ≤ n →
      EndAlike (enter ⟨known, m.stopped⟩ n more) (s.enter (k + n) (statements ++ more)) := by
    intro n larger
    rw [enter_of_ok second, enter_of_ok both]
    exact .of_matches (alike n (Nat.le_trans (Nat.le_max_left ..) larger))
  have ends : (s.enter enough statements).1 ≠ .ok false := by
    rw [entered]
    simp
  have entered' := (enter_mono ends (Nat.le_max_right bound enough)).trans entered
  exact ⟨max bound enough, _, entered', ⟨k, agree⟩, leaves_iff agree⟩

end Reached

end Session

/-- A class with a static field, and an object of it. -/
def hanging : List Stmt :=
  [.classDecl ⟨"Gong", none,
      [⟨"ring", [], [.expression (.call (.member (.variable "z") "t") [])], 0, none, false⟩],
      [⟨5, "count", some (.list []), none, true⟩], [], false⟩,
    .declare ⟨5, "gong", some (.construct "Gong" []), none, false⟩]

/-- Its code, and the names behind it. -/
def hangingCode : Program × Names :=
  match Names.empty.lowerProgram hanging with
  | .ok result => result
  | .error _ => (default, default)

/-- Calls the method of the object, and prints what that raises. -/
def ringing : List Stmt :=
  [.tryHandle [.expression (.call (.member (.variable "gong") "ring") [])] 0 "e"
    [.expression (.call (.member (.variable "z") "o") [.variable "e"])]]

theorem Session.Reached.piecewise_gong :
    Names.empty.lowerProgram hanging = .ok hangingCode
    ∧ (∃ q later, hangingCode.2.lowerProgram ringing = .ok (q, later))
    ∧ hangingCode.1.Halts (.new .usual default)
    ∧ ∃ bound s', (Session.new .usual default).enter bound hanging = (.ok true, s')
      ∧ (∃ k, ∀ n, bound ≤ n →
        EndAlike (s'.enter n ringing) ((Session.new .usual default).enter (k + n) (hanging ++ ringing)))
      ∧ ∀ ending names world, s'.Leaves ringing ending names world
        ↔ (Session.new .usual default).Leaves (hanging ++ ringing) ending names world := by
  have first : Names.empty.lowerProgram hanging = .ok hangingCode := rfl
  have second : hangingCode.2.lowerProgram ringing = .ok (_, _) := rfl
  have classless : ∀ t ∈ ringing, t.class? = none := by
    intro t member
    obtain rfl := List.mem_singleton.1 member
    rfl
  have halts : hangingCode.1.Halts (.new .usual default) := by
    apply Program.Halts.of_after (n := 10)
    decide +kernel
  exact ⟨first, ⟨_, _, second⟩, halts, piecewise .new classless first second rfl halts⟩

end Monogram
