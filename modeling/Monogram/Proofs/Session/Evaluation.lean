import Monogram.Proofs.Correctness.Program
import Monogram.Proofs.Session.Reached

/-! # A session runs what its texts mean

In a session that is reached, running a program comes to an end exactly when the evaluation of its
statements does, with the same result and in the same world: what has been printed, the input that is
left, the globals, the statics and the heap.

* `Represents` — a world of trees stands for a world of code.
* `Verdict`, `Ending.Gives`, `Gives` — what an evaluation and a run come to.
* `Session.Reached.gives_iff` — they come to the same.
-/

namespace Monogram

open Monogram.Action

/-! ## Worlds of trees -/

/-- The world of code is that of the trees, each of which has code. -/
structure Represents (w : World Body) (world : World) : Prop where
  same : world = w.mapBodies Body.code
  lowers : w.All (ClassImage.All Body.Lowers)

theorem exists_map {α γ : Type} {f : α → γ} {Q : α → Prop} {items : List γ}
    (sourced : ∀ item ∈ items, ∃ a, f a = item ∧ Q a) :
    ∃ origins : List α, origins.map f = items ∧ ∀ a ∈ origins, Q a := by
  induction items with
  | nil => exact ⟨[], rfl, fun _ => nofun⟩
  | cons item rest ih =>
    obtain ⟨⟨a, rfl, holds⟩, others⟩ := List.forall_mem_cons.1 sourced
    obtain ⟨origins, rfl, all⟩ := ih others
    exact ⟨a :: origins, rfl, List.forall_mem_cons.2 ⟨holds, all⟩⟩

/-- A world whose classes come from trees is represented. -/
theorem World.exists_represents {world : World} (sourced : world.All ClassImage.Sourced) :
    ∃ w, Represents w world := by
  obtain ⟨console, ⟨⟨entries⟩, owners⟩, ⟨lists, maps, ⟨objects⟩⟩, slots, globals⟩ := world
  have classes : ∀ entry ∈ entries, ∃ origin : String × LoadedClass Body,
      (origin.1, origin.2.mapBodies Body.code) = entry ∧ origin.2.image.All Body.Lowers := by
    rintro ⟨name, ⟨image, statics⟩⟩ member
    obtain ⟨tree, rfl, lowers⟩ := sourced.classes _ (List.mem_map_of_mem member)
    exact ⟨(name, ⟨tree, statics⟩), rfl, lowers⟩
  have made : ∀ o ∈ objects, ∃ origin : Object Body,
      origin.mapBodies Body.code = o ∧ origin.image.All Body.Lowers := by
    rintro ⟨image, fields⟩ member
    obtain ⟨tree, rfl, lowers⟩ := sourced.objects _ (List.mem_toArray.2 member)
    exact ⟨⟨tree, fields⟩, rfl, lowers⟩
  obtain ⟨entries, rfl, known⟩ := exists_map classes
  obtain ⟨objects, rfl, live⟩ := exists_map made
  refine ⟨⟨console, ⟨⟨entries⟩, owners⟩, ⟨lists, maps, ⟨objects⟩⟩, slots, globals⟩, ?_, ⟨?_, ?_⟩⟩
  · simp [World.mapBodies, Registry.mapBodies, Heap.mapBodies, Table.map]
  · intro c member
    obtain ⟨origin, entry, rfl⟩ := List.mem_map.1 member
    exact known origin entry
  · intro o member
    exact live o (List.mem_toArray.1 member)

/-! ## Results -/

/-- What comes of a program. -/
inductive Verdict where
  | ended
  | fault (f : Fault)
  /-- A raised value that nothing handled, as text. -/
  | uncaught (shown : String)
deriving DecidableEq, Repr

/-- The evaluation comes to the verdict and leaves the world. -/
def Ending.Gives (verdict : Verdict) (w : World Body) : Ending Body Unit → Prop
  | .done _ scene => verdict = .ended ∧ scene.toWorld = w
  | .faulted f scene => verdict = .fault f ∧ scene.toWorld = w
  | .raised v scene => verdict = .uncaught (scene.heap.display v) ∧ scene.toWorld = w
  | .unfinished => False

/-- The run comes to the verdict and leaves the world. -/
def Gives (verdict : Verdict) (world : World) : EStateM.Result Failure Machine Bool → Prop
  | .ok ended m => ended = true ∧ verdict = .ended ∧ m.world = world
  | .error (.fault f) m => verdict = .fault f ∧ m.world = world
  | .error (.uncaught shown) m => verdict = .uncaught shown ∧ m.world = world
  | .error _ _ => False

theorem Gives.final {verdict : Verdict} {world : World}
    {result : EStateM.Result Failure Machine Bool} (h : Gives verdict world result) : Final result := by
  cases result with
  | ok ended m => exact h.1
  | error f m => trivial

variable {pieces : List Frame} {n : Nat} {m : Machine} {e : Ending Body Unit} {verdict : Verdict}

/-- Pieces come to what their evaluation has come to. -/
theorem Executes.comes (executes : Executes pieces n m e) (unlimited : ¬ MeetsLimit pieces m)
    {w : World Body} (gives : e.Gives verdict w) :
    ∃ result, Comes pieces m result ∧ Gives verdict (w.mapBodies Body.code) result := by
  cases e with
  | done a scene =>
    obtain ⟨rfl, rfl⟩ := gives
    obtain ⟨m', comes, idles⟩ := executes.resolve_left unlimited
    exact ⟨_, comes, rfl, rfl, idles.2.world⟩
  | faulted f scene =>
    obtain ⟨rfl, rfl⟩ := gives
    obtain ⟨m', comes, idles⟩ := executes.resolve_left unlimited
    exact ⟨_, comes, rfl, idles.2.world⟩
  | raised v scene =>
    obtain ⟨rfl, rfl⟩ := gives
    obtain ⟨m', comes, idles⟩ := executes.resolve_left unlimited
    exact ⟨_, comes, rfl, idles.2.world⟩
  | unfinished => exact gives.elim

/-- Where pieces come to a verdict, so does their evaluation with as much fuel. -/
theorem Executes.gives (executes : Executes pieces n m e) (unlimited : ¬ MeetsLimit pieces m)
    {world : World} (gives : Gives verdict world (executeAll n pieces m)) :
    ∃ w, e.Gives verdict w ∧ w.mapBodies Body.code = world := by
  have ends : Comes pieces m (executeAll n pieces m) := ⟨gives.final, n, rfl⟩
  cases e with
  | done a scene =>
    obtain ⟨m', comes, idles⟩ := executes.resolve_left unlimited
    rw [ends.eq comes] at gives
    obtain ⟨-, rfl, rfl⟩ := gives
    exact ⟨_, ⟨rfl, rfl⟩, idles.2.world.symm⟩
  | faulted f scene =>
    obtain ⟨m', comes, idles⟩ := executes.resolve_left unlimited
    rw [ends.eq comes] at gives
    obtain ⟨rfl, rfl⟩ := gives
    exact ⟨_, ⟨rfl, rfl⟩, idles.2.world.symm⟩
  | raised v scene =>
    obtain ⟨m', comes, idles⟩ := executes.resolve_left unlimited
    rw [ends.eq comes] at gives
    obtain ⟨rfl, rfl⟩ := gives
    exact ⟨_, ⟨rfl, rfl⟩, idles.2.world.symm⟩
  | unfinished =>
    obtain ⟨m', running⟩ := executes.resolve_left unlimited
    rw [running] at gives
    cases gives.1

/-! ## Sessions -/

/-- No run of the program on the machine meets a limit on resources. -/
def Unlimited (p : Program) (m : Machine) : Prop :=
  ∀ bound f m', run bound p m = .error f m' → ¬ f.isLimit

theorem Unlimited.not_meetsLimit {p : Program} (h : Unlimited p m) :
    ¬ MeetsLimit p.pieces (m.loading p) := by
  rintro ⟨f, m', limit, -, bound, executed⟩
  exact h bound f m' ((run_eq bound p m).trans executed) limit

/-- Whether a run has ended without a failure. -/
def succeeded : EStateM.Result Failure Machine Bool → Bool
  | .ok ended _ => ended
  | .error _ _ => false

/-- A run that has ended has met no limit. -/
theorem Unlimited.of_succeeded {p : Program} {bound : Nat} (h : succeeded (run bound p m) = true) :
    Unlimited p m := by
  intro bound' f m' failed
  cases result : run bound p m with
  | error e last =>
    rw [result] at h
    cases h
  | ok ended last =>
    rw [result] at h
    obtain rfl : ended = true := h
    -- Both are what the same pieces come to, so they are one result.
    rw [run_eq] at result failed
    have ends : Comes p.pieces (m.loading p) (.ok true last) := ⟨rfl, bound, result⟩
    have fails : Comes p.pieces (m.loading p) (.error f m') := ⟨trivial, bound', failed⟩
    cases ends.eq fails

namespace Session.Reached

variable {limits : Limits} {console : Console} {s : Session} {p : Program} {statements : List Stmt}
  {names : Names}

/-- Without a limit on resources, a run of a lowered program comes to a verdict exactly when the
evaluation of its statements does, and then leaves the same world.  The world in which the evaluation
starts is any that stands for the one that the session has got to; there is one. -/
theorem gives_iff (reached : s.Reached limits console)
    (lowered : s.names.lowerProgram statements = .ok (p, names)) (unlimited : Unlimited p s.machine) :
    (∃ w, Represents w s.machine.world) ∧ ∀ w, Represents w s.machine.world →
      ∀ verdict world, (∃ bound, Gives verdict world (Action.run bound p s.machine))
        ↔ ∃ fuel after, (s.names.evaluate statements fuel ⟨w, none⟩).Gives verdict after
            ∧ after.mapBodies Body.code = world := by
  have rested := reached.rested
  refine ⟨World.exists_represents rested.sourced, fun w represents verdict world => ?_⟩
  have idles : Idles ⟨w, none⟩ s.machine := ⟨rested.frames, ⟨represents.same, represents.lowers⟩⟩
  have executes := fun fuel => Names.evaluate_executes lowered fuel idles
  have free := unlimited.not_meetsLimit
  constructor
  -- A bound that lets the run end is fuel enough for the evaluation.
  · rintro ⟨bound, gives⟩
    rw [run_eq] at gives
    have more := executeAll_mono gives.final (Nat.le_succ bound)
    obtain ⟨after, ends, same⟩ := (executes bound).gives free (more.symm ▸ gives)
    exact ⟨bound, after, ends, same⟩
  · rintro ⟨fuel, after, ends, rfl⟩
    obtain ⟨result, ⟨-, bound, executed⟩, gives⟩ := (executes fuel).comes free ends
    exact ⟨bound, by rw [run_eq, executed]; exact gives⟩

theorem gives_iff_bell :
    (Session.new .usual default).Reached .usual default
    ∧ Unlimited bellProgram (.new .usual default)
    ∧ ∃ names, Names.empty.lowerProgram bell = .ok (bellProgram, names)
    ∧ (∃ w, Represents w (Machine.world (.new .usual default)))
    ∧ ∀ w, Represents w (Machine.world (.new .usual default)) →
      ∀ verdict world, (∃ bound, Gives verdict world (Action.run bound bellProgram (.new .usual default)))
        ↔ ∃ fuel after, (Names.empty.evaluate bell fuel ⟨w, none⟩).Gives verdict after
            ∧ after.mapBodies Body.code = world := by
  have unlimited : Unlimited bellProgram (.new .usual default) :=
    .of_succeeded (by decide +kernel : succeeded (Action.run 20 bellProgram (.new .usual default)) = true)
  exact ⟨.new, unlimited, _, rfl, gives_iff .new rfl unlimited⟩

end Session.Reached

end Monogram
