import Monogram.Proofs.Machine.Stores

/-! # Sessions without slots

A session gives each declared global a slot.  The slots only save looking names up: a session whose code
uses the names of the globals gives the same answers and prints the same, as long as no code looks up the
name of a declared global for another reason.  At every step a slot of the one session holds what the
other one has under the name, and this is what has been stored there last, by whichever text.

* `Transcript`, `Session.transcript` — what becomes of a session, text after text.
* `Session.asCompiled`, `Session.slotless` — programs with slots, and with names in their place.
* `Transcript.Agrees` — the transcript of a session without slots goes with that of one with slots.
* `Session.transcript_slotless` — it does wherever no code looks up a declared global.
-/

namespace Monogram

open Monogram.Action

/-- What becomes of texts in a session. -/
structure Transcript where
  /-- What comes of each text, with the flag that tells whether its run has come to an end, and the
  console behind it. -/
  answers : List (Except Session.Error (Compiled × Bool) × Console)
  /-- The programs of the texts that have code. -/
  programs : List Program
  /-- The machines in front of each cycle of all runs. -/
  steps : List Machine
  last : Session

/-- The names that the code of a program looks up. -/
def Program.lookups (p : Program) : List String :=
  p.instructions.filterMap Instruction.name?

namespace Transcript

/-- The globals that the texts have declared. -/
def globals (t : Transcript) : List String := t.last.names.globals.names

/-- No code looks up the name of a declared global. -/
def Clear (t : Transcript) : Prop := ∀ p ∈ t.programs, ∀ name ∈ p.lookups, name ∉ t.globals

instance (t : Transcript) : Decidable t.Clear :=
  inferInstanceAs (Decidable (∀ p ∈ t.programs, ∀ name ∈ p.lookups, name ∉ t.globals))

/-- What comes of the texts, and what is printed. -/
def results (t : Transcript) : List (Except Session.Error Compiled × Console) :=
  t.answers.map fun answer => (answer.1.map Prod.fst, answer.2)

/-- The second transcript is that of a session whose code uses names where that of the first one uses
slots. -/
structure Agrees (t t' : Transcript) : Prop where
  answers : t'.answers = t.answers
  steps : List.Forall₂ (Mirrors t.globals) t.steps t'.steps
  last : Mirrors t.globals t.last.machine t'.last.machine
  holds : ∀ front m back, t.steps = front ++ m :: back →
    ∀ slot, m.held slot = lastStored slot .zero front
  /-- What is read from a slot is what some text has stored there last. -/
  reads : ∀ front m back, t.steps = front ++ m :: back → ∀ slot, m.due? = some (.loadSlot slot) →
    ∃ m', cycle m = .ok true m' ∧ m'.operands = m.operands.push (lastStored slot .zero front)

end Transcript

namespace Session

variable {s : Session}

/-- Texts one after the other, each of them with a bound on its cycles.  What runs is what becomes of
their programs under the names that are known behind them. -/
def transcript (rewrite : Names → Program → Program) : Session → List (Nat × String) → Transcript
  | s, [] => ⟨[], [], [], s⟩
  | s, (bound, text) :: rest =>
    match s.compile text with
    | (.error e, s) =>
      let later := s.transcript rewrite rest
      { later with answers := (.error e, s.machine.console) :: later.answers }
    | (.ok compiled, s) =>
      let program := rewrite s.names compiled.program
      let (result, after) := s.run bound program
      let later := after.transcript rewrite rest
      { later with
        answers := (result.map fun ended => (compiled, ended), after.machine.console) :: later.answers
        programs := compiled.program :: later.programs
        steps := runTrace bound program s.machine ++ later.steps }

/-- A program with its slots. -/
def asCompiled (_ : Names) (p : Program) : Program := p

/-- A program with the names of globals in place of their slots. -/
def slotless (names : Names) (p : Program) : Program := p.named names.globals.names

/-- What comes of texts that are evaluated one after the other, and the consoles behind them. -/
def evals : Session → List (Nat × String) → List (Except Error Compiled × Console)
  | _, [] => []
  | s, (bound, text) :: rest =>
    let (result, after) := s.eval bound text
    (result, after.machine.console) :: after.evals rest

/-- With their slots programs come to what texts that are evaluated come to. -/
theorem results_asCompiled (s : Session) (entries : List (Nat × String)) :
    (s.transcript asCompiled entries).results = s.evals entries := by
  induction entries generalizing s with
  | nil => rfl
  | cons entry rest ih =>
    obtain ⟨bound, text⟩ := entry
    rw [transcript, evals, eval]
    rcases s.compile text with ⟨e | compiled, s₁⟩
    · exact congrArg (_ :: ·) (ih s₁)
    · have same : ((s₁.run bound compiled.program).1.map fun ended => (compiled, ended)).map Prod.fst
          = (s₁.run bound compiled.program).1.map fun _ => compiled := by
        cases (s₁.run bound compiled.program).1 <;> rfl
      exact congr (congrArg (List.cons ∘ (·, _)) same) (ih _)

/-! ## Names -/

theorem run_after (s : Session) (bound : Nat) (p : Program) :
    (s.run bound p).2 = ⟨s.names, reached (Action.run bound p s.machine)⟩ := by
  simp only [run, act]
  cases Action.run bound p s.machine <;> rfl

/-- Whether a text has code, and which, is a matter of the names that are known. -/
theorem compile_cases (names : Names) (text : String) :
    (∃ e, ∀ m, compile ⟨names, m⟩ text = (.error e, ⟨names, m⟩))
    ∨ ∃ compiled later statements, (∀ m, compile ⟨names, m⟩ text = (.ok compiled, ⟨later, m⟩))
      ∧ names.lowerProgram statements = .ok (compiled.program, later) := by
  simp only [compile]
  cases compiles : names.compile text with
  | error e => exact .inl ⟨_, fun _ => rfl⟩
  | ok result =>
    obtain ⟨⟨p, later⟩, lowered, same⟩ := Except.bind_eq_ok compiles
    cases same
    exact .inr ⟨_, _, _, fun _ => rfl, lowered⟩

/-- A text without code leaves the session to the others. -/
theorem transcript_of_error {rewrite : Names → Program → Program} {bound : Nat} {text : String}
    {rest : List (Nat × String)} {e : Error} {later : Session} (fails : s.compile text = (.error e, later)) :
    s.transcript rewrite ((bound, text) :: rest)
      = { later.transcript rewrite rest with
          answers := (.error e, later.machine.console) :: (later.transcript rewrite rest).answers } := by
  rw [transcript, fails]

/-- A text that has code is run in front of the others. -/
theorem transcript_of_ok {rewrite : Names → Program → Program} {bound : Nat} {text : String}
    {rest : List (Nat × String)} {compiled : Compiled} {names : Names} {m : Machine}
    (compiles : s.compile text = (.ok compiled, ⟨names, m⟩)) :
    s.transcript rewrite ((bound, text) :: rest)
      = let program := rewrite names compiled.program
        let later := transcript rewrite ⟨names, reached (Action.run bound program m)⟩ rest
        { later with
          answers := ((run ⟨names, m⟩ bound program).1.map fun ended => (compiled, ended),
            (reached (Action.run bound program m)).console) :: later.answers
          programs := compiled.program :: later.programs
          steps := runTrace bound program m ++ later.steps } := by
  rw [transcript, compiles]
  simp only [run_after]

theorem prefix_of_lowered {names later : Names} {statements : List Stmt} {p : Program}
    (lowered : names.lowerProgram statements = .ok (p, later)) :
    names.globals.names <+: later.globals.names := by
  rw [Names.lowerProgram_names lowered]
  exact Pool.prefix_insertAll _ _

/-- Globals that are known stay in front of those that texts declare. -/
theorem prefix_transcript (rewrite : Names → Program → Program) (s : Session)
    (entries : List (Nat × String)) :
    s.names.globals.names <+: (s.transcript rewrite entries).globals := by
  induction entries generalizing s with
  | nil => exact List.prefix_refl _
  | cons entry rest ih =>
    obtain ⟨bound, text⟩ := entry
    obtain ⟨names, m⟩ := s
    rcases compile_cases names text with ⟨e, fails⟩ | ⟨compiled, later, statements, compiles, lowered⟩
    · rw [transcript_of_error (fails m)]
      exact ih ⟨names, m⟩
    · rw [transcript_of_ok (compiles m)]
      exact (prefix_of_lowered lowered).trans (ih ⟨later, _⟩)

/-! ## Runs -/

variable {g : List String} {names : Names} {m m' : Machine}

/-- What a session makes of the same result. -/
theorem run_parallel {bound : Nat} {p p' : Program}
    (parallel : Parallel g (Action.run bound p m) (Action.run bound p' m')) :
    (run ⟨names, m'⟩ bound p').1 = (run ⟨names, m⟩ bound p).1
    ∧ Mirrors g (reached (Action.run bound p m)) (reached (Action.run bound p' m')) := by
  simp only [run, act]
  generalize Action.run bound p m = r, Action.run bound p' m' = r' at parallel
  cases parallel with
  | ok ended mirrors => exact ⟨rfl, mirrors⟩
  | error f mirrors => exact ⟨rfl, mirrors⟩

/-- A program that looks up no global uses the same names of globals, whether they are those known behind
it or more. -/
theorem slotless_of_clear {later : Names} {statements : List Stmt} {p : Program}
    (lowered : names.lowerProgram statements = .ok (p, later)) (front : later.globals.names <+: g)
    (clear : ∀ name ∈ p.lookups, name ∉ g) :
    slotless later p = p.named g ∧ p.Emits (Instruction.Apart g) := by
  have within := Names.lowerProgram_within lowered
  refine ⟨Program.named_of_prefix front within, Program.emits_iff.2 fun i member => ?_⟩
  refine ⟨(Program.emits_iff.1 within i member).mono front, fun name looks => ?_⟩
  exact clear name (List.mem_filterMap.2 ⟨i, member, looks⟩)

/-- The transcripts of two sessions whose machines mirror each other. -/
theorem transcript_mirrors (distinct : g.Nodup) (own : "this" ∉ g) (entries : List (Nat × String))
    (globals : (transcript asCompiled ⟨names, m⟩ entries).globals = g)
    (clear : ∀ p ∈ (transcript asCompiled ⟨names, m⟩ entries).programs, ∀ name ∈ p.lookups, name ∉ g)
    (mirrors : Mirrors g m m') :
    (transcript slotless ⟨names, m'⟩ entries).answers = (transcript asCompiled ⟨names, m⟩ entries).answers
    ∧ List.Forall₂ (Mirrors g) (transcript asCompiled ⟨names, m⟩ entries).steps
        (transcript slotless ⟨names, m'⟩ entries).steps
    ∧ Mirrors g (transcript asCompiled ⟨names, m⟩ entries).last.machine
        (transcript slotless ⟨names, m'⟩ entries).last.machine := by
  induction entries generalizing names m m' with
  | nil => exact ⟨rfl, .nil, mirrors⟩
  | cons entry rest ih =>
    obtain ⟨bound, text⟩ := entry
    rcases compile_cases names text with ⟨e, fails⟩ | ⟨compiled, later, statements, compiles, lowered⟩
    · rw [transcript_of_error (fails m)] at globals clear ⊢
      rw [transcript_of_error (fails m')]
      obtain ⟨answers, steps, last⟩ := ih globals clear mirrors
      refine ⟨?_, steps, last⟩
      simp only [mirrors.console, answers]
    · rw [transcript_of_ok (compiles m)] at globals clear ⊢
      rw [transcript_of_ok (compiles m')]
      obtain ⟨first, others⟩ := List.forall_mem_cons.1 clear
      -- The globals that are known behind this text are the first ones of all.
      have front : later.globals.names <+: g := by
        rw [← globals]
        exact prefix_transcript asCompiled ⟨later, reached (Action.run bound compiled.program m)⟩ rest
      obtain ⟨renamed, apart⟩ := slotless_of_clear lowered front first
      have alongside := mirrors.run distinct own bound apart
      obtain ⟨result, behind⟩ := run_parallel alongside.results
      obtain ⟨answers, steps, last⟩ := ih globals others behind
      simp only [renamed]
      refine ⟨?_, List.rel_append alongside.steps steps, last⟩
      rw [result, behind.console, answers]
      rfl

/-- Over all texts a slot holds what has been stored into it last. -/
theorem tracks_transcript (rewrite : Names → Program → Program) (s : Session)
    (entries : List (Nat × String)) (slot : Nat) :
    Tracks slot (s.machine.held slot) (s.transcript rewrite entries).steps
      ((s.transcript rewrite entries).last.machine.held slot) := by
  induction entries generalizing s with
  | nil => exact .nil slot _
  | cons entry rest ih =>
    obtain ⟨bound, text⟩ := entry
    obtain ⟨names, m⟩ := s
    rcases compile_cases names text with ⟨e, fails⟩ | ⟨compiled, later, statements, compiles, lowered⟩
    · rw [transcript_of_error (fails m)]
      exact ih ⟨names, m⟩
    · rw [transcript_of_ok (compiles m)]
      exact (tracks_run bound _ m slot).append (ih ⟨later, _⟩)

/-- New machines mirror each other. -/
theorem mirrors_new (g : List String) (limits : Limits) (console : Console) :
    Mirrors g (.new limits console) (.new limits console) where
  same := by
    have heap : (Machine.new limits console).heap.mapBodies (Code.named g) = .empty := by
      simp [Machine.new, Heap.mapBodies, Heap.empty]
    rw [Machine.rewritten, naming, heap]
    rfl
  named slot name here := rfl
  others name absent := rfl
  apart := ⟨⟨nofun, nofun⟩, nofun⟩

/-- A session whose code uses the names of globals where that of the other one uses their slots gives
what the other one gives, and the other one gives what the texts come to. -/
theorem transcript_slotless (limits : Limits) (console : Console) (entries : List (Nat × String))
    (own : "this" ∉ ((new limits console).transcript asCompiled entries).globals)
    (clear : ((new limits console).transcript asCompiled entries).Clear) :
    ((new limits console).transcript asCompiled entries).Agrees
      ((new limits console).transcript slotless entries)
    ∧ ((new limits console).transcript slotless entries).results = (new limits console).evals entries := by
  have distinct := ((new limits console).transcript asCompiled entries).last.names.globals.distinct
  obtain ⟨answers, steps, last⟩ :=
    transcript_mirrors distinct own entries rfl clear (mirrors_new _ limits console)
  have tracks := tracks_transcript asCompiled (new limits console) entries
  refine ⟨⟨answers, steps, last, fun front m back here slot => (tracks slot).holds front m back here, ?_⟩, ?_⟩
  · intro front m back here slot due
    obtain ⟨m', cycled, pushed⟩ := cycle_of_loadSlot due
    have held := (tracks slot).holds front m back here
    exact ⟨m', cycled, held ▸ pushed⟩
  · have same : (transcript slotless (new limits console) entries).results
        = (transcript asCompiled (new limits console) entries).results := congrArg (List.map _) answers
    exact same.trans (results_asCompiled _ entries)

/-- The method `f` of the first text stores into `x` and raises an error, the handler keeps it in `e`, and
the second call ends the text.  The second text reads both. -/
def handed : List (Nat × String) :=
  [(32, "5 x=\"a\" q=x c A\x7bm 5 f()\x7bx=\"b\" z.t()\x7d\x7d "
      ++ "t\x7bn A().f()\x7dh(5 e)\x7b\x7d n A().f()"),
    (9, "z.o(x,e,q)")]

theorem transcript_slotless_handed :
    "this" ∉ ((new .usual default).transcript asCompiled handed).globals
    ∧ ((new .usual default).transcript asCompiled handed).Clear
    ∧ ((new .usual default).transcript asCompiled handed).globals = ["x", "e"]
    ∧ ((new .usual default).transcript asCompiled handed).Agrees
      ((new .usual default).transcript slotless handed)
    ∧ ((new .usual default).transcript slotless handed).results = (new .usual default).evals handed
    ∧ ((new .usual default).transcript slotless handed).results.map (fun result => result.2.output)
      = ["", "b Custom Error 15 a\n"] := by
  have own : "this" ∉ ((new .usual default).transcript asCompiled handed).globals := by decide +kernel
  have clear : ((new .usual default).transcript asCompiled handed).Clear := by decide +kernel
  obtain ⟨agrees, results⟩ := transcript_slotless .usual default handed own clear
  exact ⟨own, clear, by decide +kernel, agrees, results, by decide +kernel⟩

end Session

end Monogram
