import Monogram.Proofs.Lowering.Verified

/-! # Code that a check accepts

A check goes through code address by address, the end included, and says how many operands there are
and how many handlers are open.  Every way that control can take has to bear it out.

* `Instruction.successors` — the ways that an instruction goes on without a raised value.
* `Checks` — what a check says, and what it has to be borne out by.
* `Labelled.checks` — the labels of code make a check.
* `Names.lowerProgram_checked` — a check accepts all code of a lowered program.
-/

namespace Monogram

namespace Instruction

/-- The addresses at which control may be behind an instruction, unless a value is raised. -/
def successors (i : Instruction) (address : Nat) : List Nat :=
  match i with
  | .halt | .giveBack => []
  | .jump target => [target]
  | .jumpIfFalse target => [address + 1, target]
  | _ => [address + 1]

/-- How many handlers are open behind an instruction, when so many were open before it. -/
def openBehind (i : Instruction) (opened : Nat) : Nat :=
  match i with
  | .openHandler _ => opened + 1
  | .closeHandler => opened - 1
  | _ => opened

end Instruction

/-- At each address of the code there are so many operands and so many open handlers. -/
structure Checks (c : Code) (depth opened : Nat → Nat) : Prop where
  start : depth 0 = 0 ∧ opened 0 = 0
  stop : depth c.size = 0 ∧ opened c.size = 0
  /-- Every instruction finds the operands that it takes. -/
  supplied : ∀ address i, c.instructions[address]? = some i → i.pops ≤ depth address
  closable : ∀ address, c.instructions[address]? = some .closeHandler → 0 < opened address
  flows : ∀ address i, c.instructions[address]? = some i → ∀ next ∈ i.successors address,
    next ≤ c.size ∧ (depth next : Int) = depth address + i.effect
      ∧ opened next = i.openBehind (opened address)
  /-- A handler finds the operands that were there when it was opened, and the raised value. -/
  lands : ∀ address target, c.instructions[address]? = some (.openHandler target) →
    target ≤ c.size ∧ depth target = depth address + 1 ∧ opened target = opened address
  inRoom : ∀ address ≤ c.size, depth address ≤ c.maxOperands
  fillsRoom : ∃ address ≤ c.size, depth address = c.maxOperands

/-- A check accepts the code. -/
def Code.Checked (c : Code) : Prop := ∃ depth opened, Checks c depth opened

/-! ## Labels make a check -/

/-- The operands behind an instruction, as its effect counts them. -/
theorem Label.depth_after {l : Label} {i : Instruction} (enough : i.pops ≤ l.depth) :
    ((l.after i).depth : Int) = l.depth + i.effect := by
  rw [Instruction.effect_eq]
  show ((l.depth - i.pops + i.pushes : Nat) : Int) = _
  omega

namespace Labelled

variable {c : Code} {label : Nat → Label}

/-- The labels along one way that control can take. -/
theorem flows (labelled : Labelled c label) {address next : Nat} {i : Instruction}
    (here : c.instructions[address]? = some i) (way : next ∈ i.successors address) :
    next ≤ c.size ∧ ((label next).depth : Int) = (label address).depth + i.effect
      ∧ (label next).handlers.length = i.openBehind (label address).handlers.length := by
  have inside : address + 1 ≤ c.size := (Array.getElem?_eq_some_iff.1 here).1
  obtain ⟨enough, agrees⟩ := labelled.agrees address i here
  have behind := Label.depth_after enough
  -- Three kinds of instructions lead elsewhere, and two change the handlers; the others go on.
  cases i with
  | halt | giveBack => cases way
  | raise => exact agrees.elim
  | jump target =>
    obtain rfl := List.mem_singleton.1 way
    obtain ⟨same, bounded⟩ := agrees
    rw [same]
    exact ⟨bounded, (Int.add_zero _).symm, rfl⟩
  | jumpIfFalse target =>
    obtain ⟨holds, fails, bounded⟩ := agrees
    rcases List.mem_cons.1 way with rfl | way
    · rw [holds]
      exact ⟨inside, behind, rfl⟩
    · obtain rfl := List.mem_singleton.1 way
      rw [fails]
      exact ⟨bounded, behind, rfl⟩
  | openHandler target =>
    obtain rfl := List.mem_singleton.1 way
    obtain ⟨none, opens, -⟩ := agrees
    rw [opens, none]
    exact ⟨inside, rfl, rfl⟩
  | closeHandler =>
    obtain rfl := List.mem_singleton.1 way
    obtain ⟨target, handlers, some, closes⟩ := agrees
    rw [closes, some]
    exact ⟨inside, (Int.add_zero _).symm, rfl⟩
  | _ =>
    obtain rfl := List.mem_singleton.1 way
    rw [agrees]
    exact ⟨inside, behind, rfl⟩

/-- Labels make a check of code whose room they use. -/
theorem checks (labelled : Labelled c label)
    (full : ∃ address ≤ c.size, (label address).depth = c.maxOperands) :
    Checks c (fun address => (label address).depth) fun address => (label address).handlers.length where
  start := by
    rw [labelled.start]
    exact ⟨rfl, rfl⟩
  stop := by
    rw [labelled.stop]
    exact ⟨rfl, rfl⟩
  supplied := fun address i here => (labelled.agrees address i here).1
  closable := fun address here => by
    obtain ⟨-, target, handlers, some, -⟩ := labelled.agrees address _ here
    rw [some]
    exact Nat.succ_pos _
  flows := fun address i here next way => labelled.flows here way
  lands := fun address target here => by
    obtain ⟨-, none, -, lands, bounded⟩ := labelled.agrees address _ here
    rw [lands, none]
    exact ⟨bounded, rfl, rfl⟩
  inRoom := labelled.bounded
  fillsRoom := full

end Labelled

theorem Code.Filled.checked {c : Code} (filled : c.Filled) : c.Checked := by
  obtain ⟨label, labelled, full⟩ := filled
  exact ⟨_, _, labelled.checks full⟩

/-! ## Lowered programs -/

/-- A check accepts the statements of a lowered program, its methods and its static initializers.  The
statements end in a halt, and there is no other. -/
theorem Names.lowerProgram_checked {names names' : Names} {statements : List Stmt} {p : Program}
    (lowered : names.lowerProgram statements = .ok (p, names')) :
    (p.main.Checked ∧ ∀ c ∈ p.classes.values, c.All Code.Checked)
    ∧ (∃ front : List Instruction, p.main.instructions.toList = front ++ [.halt] ∧ .halt ∉ front)
    ∧ ∀ c ∈ p.classes.values, c.All fun code => Instruction.halt ∉ code.instructions := by
  have known : p.Lowered := ⟨names, statements, names', lowered⟩
  obtain ⟨code, labels, main, shaped⟩ := known.main_shaped
  refine ⟨⟨main ▸ shaped.filled_halt.checked, fun c member => ?_⟩, ⟨code, ?_, shaped.no_halt⟩,
    fun c member => ?_⟩
  · exact (known.classes c member).all_code fun lowers => (Body.code_filled lowers).checked
  · rw [main]
    rfl
  · exact (known.classes c member).all_code fun lowers => (Body.code_callable lowers).2

/-- A class with a static field, and a method that gives back from inside of a protected block in a
loop; what is raised there is bound, and decides whether the method gives back once more. -/
def clock : List Stmt :=
  [.classDecl ⟨"Clock", none,
      [⟨"tick", [],
        [.loop (.variable "on")
          (.tryHandle [.giveBack (some (.call (.variable "tick") []))] 0 "e"
            [.ifElse (.variable "e") (.expression (.assign "on" (.variable "e"))) (.giveBack none)])],
        0, none, false⟩],
      [⟨5, "ticks", some (.list [.variable "on", .variable "on"]), none, true⟩], [], false⟩,
    .expression (.call (.member (.construct "Clock" []) "tick") [])]

theorem lowerProgram_checked_clock :
    ∃ p names, Names.empty.lowerProgram clock = .ok (p, names)
    ∧ (p.main.Checked ∧ ∀ c ∈ p.classes.values, c.All Code.Checked)
    ∧ (∃ front : List Instruction, p.main.instructions.toList = front ++ [.halt] ∧ .halt ∉ front)
    ∧ ∀ c ∈ p.classes.values, c.All fun code => Instruction.halt ∉ code.instructions := by
  obtain ⟨p, names, lowered⟩ : ∃ p names, Names.empty.lowerProgram clock = .ok (p, names) :=
    ⟨_, _, rfl⟩
  exact ⟨p, names, lowered, Names.lowerProgram_checked lowered⟩

end Monogram
