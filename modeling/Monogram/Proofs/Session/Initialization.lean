import Monogram.Proofs.Evaluation.Initialization
import Monogram.Proofs.Machine.Halting
import Monogram.Proofs.Machine.Statics

/-! # What the statements of a program start on

Before its statements a program loads all of its classes and carries out their static initializers.
Where the statements start, the world is the one that the initial values of static fields leave behind,
evaluated in order on the loaded classes; and until something is stored into a static field of one of
these classes, whatever is carried out reads zero from it.

* `Executes.ends` — an evaluation ends where the pieces that go as it does have ended.
* `Session.Reached.statics_initialized` — the world on which the statements of a program start.
-/

namespace Monogram

open Monogram.Action

/-- Where pieces have come to their end, so has the evaluation that they go as, with as much fuel. -/
theorem Executes.ends {pieces : List Frame} {n bound : Nat} {m m' : Machine} {e : Ending Body Unit}
    (executes : Executes pieces n m e) (executed : executeAll bound pieces m = .ok true m')
    (enough : bound ≤ n) : ∃ scene, e = .done () scene ∧ m'.world = scene.toWorld.mapBodies Body.code := by
  have comes : Comes pieces m (.ok true m') := ⟨rfl, bound, executed⟩
  have unlimited : ¬ MeetsLimit pieces m := fun ⟨f, last, _, fails⟩ => nomatch comes.eq fails
  have gives : Gives .ended m'.world (executeAll n pieces m) := by
    rw [executeAll_mono (executed ▸ rfl) enough, executed]
    exact ⟨rfl, rfl, rfl⟩
  obtain ⟨w, ended, same⟩ := executes.gives unlimited gives
  cases e with
  | done a scene => exact ⟨scene, rfl, (congrArg _ ended.2).trans same ▸ rfl⟩
  | raised v scene | faulted f scene => cases ended.1
  | unfinished => exact ended.elim

theorem Eval.bind_unit {β : Type} (p : Eval β Unit) : (p >>= fun _ => pure ()) = p := by
  funext scene
  rw [bind_apply]
  cases p scene <;> rfl

namespace Session.Reached

variable {limits : Limits} {console : Console} {s : Session} {p : Program} {statements : List Stmt}
  {names : Names}

/-- The static initializers of a program run as the row of its initial values, on the classes that have
been loaded. -/
theorem initializers_execute (reached : s.Reached limits console)
    (lowered : s.names.lowerProgram statements = .ok (p, names)) {w : World Body}
    (represents : Represents w s.machine.world) (fuel : Nat) :
    Executes p.initializers (fuel + 1) (s.machine.loading p)
      (fillStatics (Body.enter fuel)
        ((s.names.declaredClasses statements).flatMap PlacedClass.initializers)
        ⟨{ w with classes := w.classes.loadAll (s.names.declaredClasses statements) }, none⟩) := by
  have idles : Idles ⟨w, none⟩ s.machine :=
    ⟨reached.rested.frames, ⟨represents.same, represents.lowers⟩⟩
  have loaded := idles.loading lowered
  obtain ⟨images, lower⟩ := Names.lowerProgram_trees lowered
  have nothing : ∀ scene m, Idles scene m →
      Executes [] (fuel + 1) m ((pure () : Eval Body Unit) scene) :=
    fun scene m idles => .inr ⟨m, ⟨rfl, 0, rfl⟩, idles⟩
  have all := evalInitializers_executes (Body.enter_follows fuel) nothing _
    (fun c member => (lower c member).staticInit) _ _ loaded
  rw [Eval.bind_unit, ← images, List.append_nil, classTrees_values lowered,
    evalInitializers_eq (Body.steady_enter fuel) (fuel + 1) _ rfl] at all
  exact all

/-- A static field of a class that a program declares reads zero until something is stored into it. -/
theorem zero_until_assigned (reached : s.Reached limits console)
    (lowered : s.names.lowerProgram statements = .ok (p, names)) {c : PlacedClass}
    (declared : c ∈ s.names.declaredClasses statements) {field : String} {n : Nat} {later : List Frame}
    {m : Machine} {history : List Activation}
    (arrives : Passes.after p.pieces (s.machine.loading p) n = some (later, m, history))
    (unassigned : Passes.Unassigned p.pieces (s.machine.loading p) n c.id field) :
    m.classes.getStatic c.id field = .ok .zero := by
  obtain ⟨bodies, main⟩ := Names.lowerProgram_known lowered
  have known := reached.knownTo.loading (Names.lowerProgram_extends lowered) bodies
  have program : p.Lowered := ⟨_, _, _, lowered⟩
  have numbered : names.HasClass c.id := by
    refine ⟨c.name, ?_⟩
    rw [← Names.classId?_of_mem declared, Names.lowerProgram_names lowered, Names.addClasses_eq]
    rfl
  rw [Passes.getStatic_kept (reached.rested.loading program) program.pieces_startable known
    (Program.pieces_knownTo bodies main) numbered unassigned arrives]
  -- What has been loaded is the image of the classes of trees.
  obtain ⟨w, represents⟩ := World.exists_represents reached.rested.sourced
  have loaded : s.names.Loaded w.classes := by
    have here := reached.knownTo.world.loaded
    rw [represents.same] at here
    exact here.of_mapBodies
  obtain ⟨l, found, -, statics⟩ := (loaded.loads lowered).zeroed c declared
  have images : (s.machine.loading p).classes
      = (w.classes.loadAll (s.names.declaredClasses statements)).mapBodies Body.code := by
    have classes : s.machine.classes = w.classes.mapBodies Body.code :=
      congrArg World.classes represents.same
    rw [Machine.loading, (Names.lowerProgram_trees lowered).1, classTrees_values lowered]
    exact register_images _ classes
  rw [images, Registry.getStatic_mapBodies, Registry.getStatic, found]
  simp only [Except.map, statics]
  split <;> rfl

/-- Where the statements of a program start, the world is what the initial values of its static fields
leave behind, evaluated one after the other on its classes, which have been loaded before.  Each class is
loaded as it is declared last, in the order of the first declarations, and reads zero from its static
fields until something is stored into them. -/
theorem statics_initialized (reached : s.Reached limits console)
    (lowered : s.names.lowerProgram statements = .ok (p, names)) {n : Nat} {m m' : Machine}
    {history : List Activation}
    (arrives : Passes.after p.pieces (s.machine.loading p) n
      = some ([.start p.main .main none], m, history))
    (idle : m.frames = []) (starts : pushFrame (.start p.main .main none) m = .ok () m') :
    (∃ w, Represents w s.machine.world)
    ∧ (∀ w, Represents w s.machine.world →
      Loads s.names statements w.classes (w.classes.loadAll (s.names.declaredClasses statements))
      ∧ ∃ enough, ∀ fuel, enough ≤ fuel → ∃ scene,
        fillStatics (Body.enter fuel)
            ((s.names.declaredClasses statements).flatMap PlacedClass.initializers)
            ⟨{ w with classes := w.classes.loadAll (s.names.declaredClasses statements) }, none⟩
          = .done () scene
        ∧ m'.world = scene.toWorld.mapBodies Body.code)
    ∧ ∀ c ∈ s.names.declaredClasses statements, ∀ field k later x past,
      Passes.after p.pieces (s.machine.loading p) k = some (later, x, past) →
      Passes.Unassigned p.pieces (s.machine.loading p) k c.id field →
      x.classes.getStatic c.id field = .ok .zero := by
  refine ⟨World.exists_represents reached.rested.sourced, fun w represents => ⟨?_, ?_⟩,
    fun c declared field k later x past => reached.zero_until_assigned lowered declared⟩
  · have here := reached.knownTo.world.loaded
    rw [represents.same] at here
    exact here.of_mapBodies.loads lowered
  · have program : p.Lowered := ⟨_, _, _, lowered⟩
    have rested := reached.rested.loading program
    obtain ⟨front, same, -, bound, executed⟩ :=
      ((Passes.of_after arrives).underway rested.frames).onward idle
    -- The pieces that have run are all but the last one of the program.
    obtain rfl : p.initializers = front := List.append_cancel_right same
    refine ⟨bound, fun fuel enough => ?_⟩
    obtain ⟨scene, ending, world⟩ :=
      (reached.initializers_execute lowered represents fuel).ends executed (Nat.le_succ_of_le enough)
    have still : m'.world = m.world := by
      rw [pushFrame_apply] at starts
      split at starts <;> cases starts
      rfl
    exact ⟨scene, ending, still.trans world⟩

/-- Leaves a class with a list in a static field behind, and raises a value that nothing handles. -/
def keptSession : Session := ((Session.new .usual default).eval 20 "c A{s 5 x=[1]}z.t()").2

theorem keptSession_reached : keptSession.Reached .usual default :=
  .eval .new (ends_of_fails (by decide +kernel))

/-- A class that is declared again behind another one.  Each of the two reads from the other. -/
def again : List Stmt :=
  [.classDecl ⟨"A", none, [], [⟨5, "y", some (.list []), none, true⟩], [], false⟩,
    .classDecl ⟨"B", none, [], [⟨5, "z", some (.member (.variable "A") "y"), none, true⟩], [], false⟩,
    .classDecl ⟨"A", none, [],
      [⟨5, "w", some (.member (.variable "B") "z"), none, true⟩, ⟨5, "y", some (.string "new"), none, true⟩],
      [], false⟩]

/-- Its code. -/
def againProgram : Program :=
  match keptSession.names.lowerProgram again with
  | .ok (p, _) => p
  | .error _ => default

/-- The sorts of what static fields hold. -/
def staticSorts (m : Machine) (fields : List (String × String)) : List (Option ValueSort) :=
  fields.map fun (className, field) => (m.static? className field).map Value.sort

/-- The class that has its turn first reads zero from the other, which reads what the first has stored.
The initial value that was declared first is not used, and the field of the earlier text is gone. -/
theorem statics_initialized_again :
    keptSession.Reached .usual default
    ∧ staticSorts keptSession.machine [("A", "x")] = [some .list]
    ∧ ∃ names m m' history,
      keptSession.names.lowerProgram again = .ok (againProgram, names)
      ∧ Passes.after againProgram.pieces (keptSession.machine.loading againProgram) 18
        = some ([.start againProgram.main .main none], m, history)
      ∧ m.frames = [] ∧ pushFrame (.start againProgram.main .main none) m = .ok () m'
      ∧ staticSorts m [("A", "w"), ("A", "y"), ("B", "z"), ("A", "x")]
        = [some .number, some .string, some .string, some .number]
      ∧ ∀ w, Represents w keptSession.machine.world →
        Loads keptSession.names again w.classes (w.classes.loadAll (keptSession.names.declaredClasses again))
        ∧ ∃ enough, ∀ fuel, enough ≤ fuel → ∃ scene,
          fillStatics (Body.enter fuel)
              ((keptSession.names.declaredClasses again).flatMap PlacedClass.initializers)
              ⟨{ w with classes := w.classes.loadAll (keptSession.names.declaredClasses again) }, none⟩
            = .done () scene
          ∧ m'.world = scene.toWorld.mapBodies Body.code := by
  have lowers : (keptSession.names.lowerProgram again).toBool = true := by decide +kernel
  have arrived : ((Passes.after againProgram.pieces (keptSession.machine.loading againProgram) 18).map
      fun progress => (progress.1.length, progress.2.1.frames.length, progress.2.1.limits.maxDepth,
        staticSorts progress.2.1 [("A", "w"), ("A", "y"), ("B", "z"), ("A", "x")]))
      = some (1, 0, 1024, [some .number, some .string, some .string, some .number]) := by
    decide +kernel
  cases lowered : keptSession.names.lowerProgram again with
  | error e =>
    rw [lowered] at lowers
    cases lowers
  | ok result =>
    obtain ⟨p, names⟩ := result
    have program : againProgram = p := by rw [againProgram, lowered]
    have reached := keptSession_reached
    cases arrives : Passes.after againProgram.pieces (keptSession.machine.loading againProgram) 18 with
    | none =>
      rw [arrives] at arrived
      cases arrived
    | some progress =>
      obtain ⟨later, m, history⟩ := progress
      simp only [arrives, Option.map_some, Option.some.injEq, Prod.mk.injEq] at arrived
      obtain ⟨one, empty, depth, sorts⟩ := arrived
      have idle : m.frames = [] := List.eq_nil_of_length_eq_zero empty
      -- The piece that has yet to start is the last one of the program.
      obtain ⟨piece, rfl⟩ := List.length_eq_one_iff.1 one
      have loaded := reached.rested.loading (p := againProgram) ⟨_, _, _, program ▸ lowered⟩
      obtain ⟨front, same, -⟩ := ((Passes.of_after arrives).underway loaded.frames).onward idle
      obtain rfl : .start againProgram.main .main none = piece :=
        List.singleton_inj.1 (List.append_inj' same rfl).2
      have starts : pushFrame (.start againProgram.main .main none) m
          = .ok () (entered m (.start againProgram.main .main none)) := by
        rw [pushFrame_apply, if_neg (by rw [depth, empty]; omega)]
      obtain ⟨-, row, -⟩ := statics_initialized reached (program ▸ lowered) arrives idle starts
      exact ⟨reached, by decide +kernel, names, m, _, history, program ▸ rfl, rfl, idle, starts, sorts, row⟩

end Session.Reached

end Monogram
