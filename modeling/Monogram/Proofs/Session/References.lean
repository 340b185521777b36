import Monogram.Proofs.Evaluation.Statics
import Monogram.Proofs.Machine.References
import Monogram.Proofs.Session.Compilations
import Monogram.Proofs.Session.Evaluation

/-! # Classes stay loaded in a session

The lowering numbers classes and the machine loads them, and nothing else tells the one of the other.
In a session every class that has a number is loaded under its name and under that number, whichever
way the texts before have ended, so no code that is lowered can miss a class.

* `Names.lowerProgram_known` — what a lowered program mentions has a name.
* `Session.Reached.knownTo` — so has what the machine of a session refers to.
* `Session.Reached.classes_resolve` — every class that has a number is loaded at every step of a run,
  and no step fails for want of a class.
-/

namespace Monogram

open Monogram.Action

/-! ## Programs -/

/-- What a program adds to the names that are known before it, which it keeps. -/
structure Extends (names later : Names) (p : Program) : Prop where
  keeps : ∀ name id, names.classId? name = some id → later.classId? name = some id
  made : ∀ image ∈ p.classes.values, later.classId? image.name = some image.id
  /-- A class that has a number is one of those before or one of the program. -/
  only : ∀ name id, later.classId? name = some id →
    names.classId? name = some id ∨ ∃ image ∈ p.classes.values, image.name = name

theorem Names.Under.of_keeps {names later : Names}
    (keeps : ∀ name id, names.classId? name = some id → later.classId? name = some id) :
    names.Under later :=
  fun id ⟨name, here⟩ => ⟨name, keeps name id here⟩

namespace Names

variable {names later : Names} {statements : List Stmt} {p : Program}

theorem lowerProgram_extends (lowered : names.lowerProgram statements = .ok (p, later)) :
    Extends names later p := by
  have classes := lowerProgram_classes lowered
  have behind : later.classes.names
      = (names.classes.insertAll (classNames statements)).names := by
    rw [lowerProgram_names lowered]
  have keeps : ∀ name id, names.classId? name = some id → later.classId? name = some id := by
    intro name id here
    obtain ⟨place, stands, rfl⟩ := (classId?_iff ..).1 here
    refine (classId?_iff ..).2 ⟨place, ?_, rfl⟩
    rw [behind]
    exact getElem?_of_prefix (Pool.prefix_insertAll _ _) stands
  refine ⟨keeps, fun image member => (classes.made image member).2, fun name id here => ?_⟩
  obtain ⟨place, stands, -⟩ := (classId?_iff ..).1 here
  have member := List.mem_of_getElem? stands
  rw [behind] at member
  rcases Pool.mem_insertAll.1 member with old | new
  · obtain ⟨place', there⟩ := List.getElem?_of_mem old
    have numbered := (classId?_iff ..).2 ⟨place', there, rfl⟩
    have same := (keeps _ _ numbered).symm.trans here
    exact .inl (numbered.trans same)
  · rw [← List.mem_eraseDups, ← classes.ordered] at new
    exact .inr (List.mem_map.1 new)

/-- All code of a program mentions classes that have a name behind it. -/
theorem lowerProgram_known (lowered : names.lowerProgram statements = .ok (p, later)) :
    (∀ image ∈ p.classes.values, image.All (Code.KnownTo later)) ∧ p.main.KnownTo later := by
  have emits := lowerProgram_emits permits_known lowered (fun _ => id)
  exact ⟨emits.classes, emits.main⟩

end Names

/-! ## Runs -/

/-- A piece of the program mentions what the program does. -/
theorem Program.pieces_knownTo {p : Program} {names : Names}
    (bodies : ∀ image ∈ p.classes.values, image.All (Code.KnownTo names)) (main : p.main.KnownTo names) :
    ∀ piece ∈ p.pieces, piece.KnownTo names := by
  intro piece member
  rcases List.mem_append.1 member with initializer | own
  · obtain ⟨c, known, rfl⟩ := List.mem_map.1 initializer
    exact ⟨(bodies c (List.mem_of_mem_filter known)).staticInit, fun _ => nofun⟩
  · obtain rfl := List.mem_singleton.1 own
    exact ⟨main, fun _ => nofun⟩

/-- The static fields of classes that have just been loaded are zero. -/
theorem Registry.statics_registerAll {names : Names} {images : List ClassImage} {r : Registry}
    (known : ∀ c ∈ r.classes.values, ∀ v ∈ c.statics.values, v.KnownTo names) :
    ∀ c ∈ (images.foldl register r).classes.values, ∀ v ∈ c.statics.values, v.KnownTo names := by
  induction images generalizing r with
  | nil => exact known
  | cons image rest ih =>
    refine ih fun c member => ?_
    rcases Table.mem_values_insert member with rfl | old
    · intro v member
      have zero : v = .zero := by
        have among := Table.mem_values_ofList member
        simp only [List.map_map, List.mem_map, Function.comp_apply] at among
        obtain ⟨_, -, same⟩ := among
        exact same.symm
      exact zero ▸ Value.KnownTo.zero
    · exact known c old

namespace Machine.KnownTo

variable {names later : Names} {m : Machine} {p : Program}

/-- A program is loaded under the names behind it. -/
theorem loading (known : m.KnownTo names) (adds : Extends names later p)
    (bodies : ∀ image ∈ p.classes.values, image.All (Code.KnownTo later)) :
    (m.loading p).KnownTo later := by
  have under := Names.Under.of_keeps adds.keeps
  have code : ∀ image : ClassImage, image.All (Code.KnownTo names) → image.All (Code.KnownTo later) :=
    fun image all => all.mono fun c mentions => mentions.mono under
  have world := known.world
  refine ⟨⟨world.heap.mono under, ?_, ?_, ?_, ?_⟩, ⟨?_, ?_⟩, ?_, ?_⟩
  · exact fun v member => (world.slots v member).mono under
  · exact fun v member => (world.globals v member).mono under
  · exact Registry.statics_registerAll fun c member v inside =>
      (world.statics c member v inside).mono under
  · exact world.loaded.registerAll adds.keeps adds.made adds.only
  · exact Registry.all_registerAll (fun c member => code _ (known.bodies.classes c member)) bodies
  · exact fun o member => code _ (known.bodies.objects o member)
  · intro frame member
    obtain ⟨mentions, this⟩ := known.frames frame member
    exact ⟨mentions.mono under, fun v own => (this v own).mono under⟩
  · exact fun v member => (known.operands v member).mono under

theorem new (limits : Limits) (console : Console) : (Machine.new limits console).KnownTo .empty := by
  have none : ∀ {α : Type} {P : α → Prop}, ∀ a ∈ (#[] : Array α), P a :=
    fun a member => absurd member (Array.not_mem_empty a)
  exact ⟨⟨⟨none, none, none⟩, none, fun _ => nofun, fun _ => nofun, .empty⟩, ⟨fun _ => nofun, none⟩,
    fun _ => nofun, fun _ => nofun⟩

end Machine.KnownTo

/-! ## What runs leave behind -/

namespace Rested

variable {m : Machine} {names : Names}

/-- A piece that has run to its end leaves a machine whose classes are loaded, and so does one that
fails. -/
theorem resolves_execute (rested : Rested m) {piece : Frame} (startable : piece.Startable)
    (known : m.KnownTo names) (mentions : piece.KnownTo names) (bound : Nat) :
    Resolves names (Action.execute bound piece m) := by
  by_cases room : m.frames.length < m.limits.maxDepth
  · have pieces : ∀ frame ∈ [piece], frame.Startable := by simpa using startable
    have code : ∀ frame ∈ [piece], frame.KnownTo names := by simpa using mentions
    have pushed : pushFrame piece m = .ok () (entered m piece) := by
      rw [pushFrame_apply, if_neg (Nat.not_le.2 room)]
    have started : Passes [piece] m [] (entered m piece) [.start (entered m piece)] :=
      Passes.start.enter rested.frames pushed
    cases result : cycles bound (entered m piece) with
    | ok ended m' =>
      rw [execute_of_ok room result]
      obtain ⟨k, steps⟩ : ∃ k, Steps k (entered m piece) m' := by
        cases ended with
        | true =>
          obtain ⟨k, -, steps, -⟩ := cycles_finished result
          exact ⟨k, steps⟩
        | false => exact ⟨bound, steps_of_cycles result⟩
      obtain ⟨history, passes⟩ := started.steps steps
      exact (passes.knownTo rested pieces known code).1
    | error f m' =>
      rw [execute_of_error room result]
      obtain ⟨k, mid, -, steps, failed⟩ := cycles_failed result
      obtain ⟨history, passes⟩ := started.steps steps
      have resolves := (passes.sound rested pieces).1.resolves (passes.knownTo rested pieces known code).1
      rw [failed] at resolves
      obtain ⟨left, found⟩ := resolves
      exact ⟨left.abandoned _, found⟩
  · rw [execute_of_full bound (Nat.le_of_not_lt room)]
    exact ⟨known.abandoned _, fun id => nofun⟩

theorem resolves_executeAll (rested : Rested m) {pieces : List Frame}
    (startable : ∀ piece ∈ pieces, piece.Startable) (known : m.KnownTo names)
    (mentions : ∀ piece ∈ pieces, piece.KnownTo names) (bound : Nat) :
    Resolves names (Action.executeAll bound pieces m) := by
  induction pieces generalizing m with
  | nil => exact known
  | cons piece rest ih =>
    obtain ⟨first, others⟩ := List.forall_mem_cons.1 startable
    obtain ⟨own, later⟩ := List.forall_mem_cons.1 mentions
    have left := rested.execute first bound
    have resolves := rested.resolves_execute first known own bound
    rw [executeAll_cons]
    cases result : Action.execute bound piece m with
    | ok ended m' =>
      rw [result] at left resolves
      cases ended with
      | true => exact ih left others resolves later
      | false => exact resolves
    | error f m' =>
      rw [result] at resolves
      exact resolves

end Rested

/-! ## Sessions -/

namespace Session.Reached

variable {limits : Limits} {console : Console} {s : Session}

/-- What the machine of a session refers to has a name, and all classes that have one are loaded. -/
theorem knownTo (reached : s.Reached limits console) : s.machine.KnownTo s.names := by
  induction reached with
  | new => exact .new limits console
  | @eval s bound text before ends ih =>
    simp only [Session.eval, compile]
    cases compiles : s.names.compile text with
    | error e => exact ih
    | ok result =>
      obtain ⟨compiled, names⟩ := result
      obtain ⟨⟨p, known⟩, lowered, same⟩ := Except.bind_eq_ok compiles
      cases same
      obtain ⟨bodies, main⟩ := Names.lowerProgram_known lowered
      have loaded := ih.loading (Names.lowerProgram_extends lowered) bodies
      have program : p.Lowered := ⟨_, _, _, lowered⟩
      have resolves := (before.rested.loading program).resolves_executeAll program.pieces_startable
        loaded (Program.pieces_knownTo bodies main) bound
      rw [← run_eq] at resolves
      simp only [Session.run, act]
      cases result : Action.run bound p s.machine with
      | ok ended m =>
        rw [result] at resolves
        exact resolves
      | error f m =>
        rw [result] at resolves
        exact resolves.1

/-- A fault that ends a run is one of the evaluation of its statements. -/
theorem proper_of_fails (reached : s.Reached limits console) {p : Program} {names : Names}
    {statements : List Stmt} (lowered : s.names.lowerProgram statements = .ok (p, names))
    {later : List Frame} {m m' : Machine} {history : List Activation}
    (passes : Passes p.pieces (s.machine.loading p) later m history) {f : Fault}
    (failed : cycle m = .error (.fault f) m') : f.Proper := by
  have rested := reached.rested
  have loaded := rested.loading ⟨_, _, _, lowered⟩
  obtain ⟨w, represents⟩ := World.exists_represents rested.sourced
  have idles : Idles ⟨w, none⟩ s.machine := ⟨rested.frames, ⟨represents.same, represents.lowers⟩⟩
  obtain ⟨size, comes⟩ := (passes.underway loaded.frames).fails failed
  have ⟨final, bound, executed⟩ := comes
  have more := (executeAll_mono (executed ▸ final) (Nat.le_succ bound)).trans executed
  have executes := Names.evaluate_executes lowered bound idles
  -- A limit would have ended the run instead, so the evaluation ends as the run does.
  have unlimited : ¬ MeetsLimit p.pieces (s.machine.loading p) := by
    rintro ⟨f', last, limit, other⟩
    cases comes.eq other
    cases limit
  have verdict : Gives (.fault f) m'.world (executeAll (bound + 1) p.pieces (s.machine.loading p)) := by
    rw [more]
    exact ⟨rfl, rfl⟩
  obtain ⟨after, gives, -⟩ := executes.gives unlimited verdict
  have spares := s.names.spares_evaluate statements bound ⟨w, none⟩
  cases ending : s.names.evaluate statements bound ⟨w, none⟩ with
  | faulted f' scene =>
    rw [ending] at spares gives
    obtain ⟨same, -⟩ := gives
    cases same
    exact spares
  | done a scene =>
    rw [ending] at gives
    cases gives.1
  | raised v scene =>
    rw [ending] at gives
    cases gives.1
  | unfinished =>
    rw [ending] at gives
    exact gives.elim

/-- Every class that has a number is loaded under its name and under that number, between two texts
and at every step of a run, and no step fails because a number leads to no class or because something
else is used as a class. -/
theorem classes_resolve (reached : s.Reached limits console) :
    (∀ name id, s.names.classId? name = some id → s.machine.classes.Holds name id)
    ∧ ∀ text compiled names, s.names.compile text = .ok (compiled, names) →
      ∀ later m history,
        Passes compiled.program.pieces (s.machine.loading compiled.program) later m history →
        (∀ name id, names.classId? name = some id → m.classes.Holds name id)
        ∧ ∀ f m', cycle m = .error (.fault f) m' →
          (∀ id, f ≠ .unknownClassId id) ∧ ∀ field found, f ≠ .notAClass field found := by
  refine ⟨fun name id => reached.knownTo.world.loaded.holds, ?_⟩
  intro text compiled names compiles later m history passes
  obtain ⟨⟨p, known⟩, lowered, same⟩ := Except.bind_eq_ok compiles
  cases same
  obtain ⟨bodies, main⟩ := Names.lowerProgram_known lowered
  have loaded := reached.knownTo.loading (Names.lowerProgram_extends lowered) bodies
  have program : p.Lowered := ⟨_, _, _, lowered⟩
  have rested := reached.rested.loading program
  have here := passes.knownTo rested program.pieces_startable loaded (Program.pieces_knownTo bodies main)
  refine ⟨fun name id => here.1.world.loaded.holds, fun f m' failed => ⟨fun id unknown => ?_, ?_⟩⟩
  · have resolves := (passes.sound rested program.pieces_startable).1.resolves here.1
    rw [failed] at resolves
    exact resolves.2 id (congrArg _ unknown)
  · exact reached.proper_of_fails lowered passes failed

/-- Stores a class into a global, and raises a value that nothing handles. -/
def straySession : Session := ((Session.new .usual default).eval 9 "c A{}x=A z.t()").2

theorem straySession_reached : straySession.Reached .usual default :=
  .eval .new (ends_of_fails (by decide +kernel))

/-- The class is there for the texts that follow, one of which calls a method of what has been stored. -/
theorem classes_resolve_stray :
    straySession.Reached .usual default
    ∧ straySession.names.classId? "A" = some 15 ∧ straySession.machine.classes.Holds "A" 15
    ∧ ∃ compiled names, straySession.names.compile "x.f()" = .ok (compiled, names)
      ∧ ∀ later m history,
        Passes compiled.program.pieces (straySession.machine.loading compiled.program) later m history →
        m.classes.Holds "A" 15
        ∧ ∀ f m', cycle m = .error (.fault f) m' →
          (∀ id, f ≠ .unknownClassId id) ∧ ∀ field found, f ≠ .notAClass field found := by
  obtain ⟨holds, resolves⟩ := classes_resolve straySession_reached
  have numbered : straySession.names.classId? "A" = some 15 := by decide +kernel
  refine ⟨straySession_reached, numbered, holds "A" 15 numbered, ?_⟩
  have lowers : (straySession.names.compile "x.f()").toBool = true := by decide +kernel
  have still : ((straySession.names.compile "x.f()").toOption.bind fun result =>
      result.2.classId? "A") = some 15 := by decide +kernel
  cases compiles : straySession.names.compile "x.f()" with
  | error e =>
    rw [compiles] at lowers
    cases lowers
  | ok result =>
    obtain ⟨compiled, names⟩ := result
    rw [compiles] at still
    refine ⟨compiled, names, rfl, fun later m history passes => ?_⟩
    obtain ⟨held, clean⟩ := resolves _ _ _ compiles later m history passes
    exact ⟨held "A" 15 still, clean⟩

end Session.Reached

end Monogram
