import Monogram.Proofs.Lowering.Trees
import Monogram.Proofs.Machine.Run

/-! # A machine that follows an evaluation

A machine follows an evaluation when it gets to where the evaluation ends: to a machine with the same
scene in which the result lies on top, or one that is about to raise the same value, or one whose next
instruction fails with the same fault.  Where the evaluation does not come to an end within its
bound, the machine runs for as many cycles.

A run that meets a limit on resources follows anything; it is left to the theorems about runs to
exclude those.

* `Site`, `At` — where a machine is, and with which scene.
* `Reaches`, `Follows` — the two kinds of runs.
-/

namespace Monogram

open Monogram.Action

/-! ## Runs up to a limit -/

/-- The machine runs into a limit. -/
def HitsLimit (m : Machine) : Prop :=
  ∃ k mid f m', Steps k m mid ∧ cycle mid = .error f m' ∧ f.isLimit

/-- The machine gets to one with the property, or runs into a limit. -/
def Reaches (m : Machine) (P : Machine → Prop) : Prop :=
  HitsLimit m ∨ ∃ k m', Steps k m m' ∧ P m'

/-- The machine runs for at least `n` cycles, or runs into a limit. -/
def RunsFor (n : Nat) (m : Machine) : Prop :=
  HitsLimit m ∨ ∃ m', Steps n m m'

theorem HitsLimit.prepend {k : Nat} {m m' : Machine} (steps : Steps k m m')
    (hits : HitsLimit m') : HitsLimit m := by
  obtain ⟨k', mid, f, last, others, failed, limit⟩ := hits
  exact ⟨k + k', mid, f, last, steps.trans others, failed, limit⟩

namespace Reaches

variable {m : Machine} {P Q : Machine → Prop}

theorem here (h : P m) : Reaches m P := .inr ⟨0, m, .refl m, h⟩

theorem prepend {k : Nat} {m' : Machine} (steps : Steps k m m') (h : Reaches m' P) :
    Reaches m P := by
  rcases h with hits | ⟨k', last, others, holds⟩
  · exact .inl (hits.prepend steps)
  · exact .inr ⟨k + k', last, steps.trans others, holds⟩

theorem bind (h : Reaches m P) (next : ∀ m', P m' → Reaches m' Q) : Reaches m Q := by
  rcases h with hits | ⟨k, m', steps, holds⟩
  · exact .inl hits
  · exact (next m' holds).prepend steps

theorem mono (h : Reaches m P) (weaker : ∀ m', P m' → Q m') : Reaches m Q :=
  h.bind fun m' holds => here (weaker m' holds)

end Reaches

namespace RunsFor

variable {m : Machine} {n : Nat}

theorem zero (m : Machine) : RunsFor 0 m := .inr ⟨m, .refl m⟩

theorem mono {n' : Nat} (h : RunsFor n m) (fewer : n' ≤ n) : RunsFor n' m :=
  h.imp id fun ⟨_, steps⟩ => steps.front fewer

theorem prepend {k : Nat} {m' : Machine} (steps : Steps k m m') (h : RunsFor n m') :
    RunsFor (k + n) m := by
  rcases h with hits | ⟨last, others⟩
  · exact .inl (hits.prepend steps)
  · exact .inr ⟨last, steps.trans others⟩

end RunsFor

/-! ## Places -/

/-- Where a machine is, the address and the meaning of `this` aside: the code that runs, its kind and
its handlers, the frames below and the operands below. -/
structure Site where
  code : Code
  kind : FrameKind
  handlers : List Handler
  below : List Frame
  base : List Value

namespace Site

/-- The frame that runs at a site. -/
def frame (site : Site) (next : Nat) (this : Option Value) : Frame :=
  ⟨site.code, next, this, site.handlers, site.kind⟩

/-- The site with more operands. -/
def above (site : Site) (items : List Value) : Site :=
  { site with base := items ++ site.base }

theorem above_above (site : Site) (first second : List Value) :
    (site.above first).above second = site.above (second ++ first) := by
  simp only [above, List.append_assoc]

/-- The site inside a protected block whose handler starts at `target`. -/
def guarded (site : Site) (target : Nat) : Site :=
  { site with handlers := ⟨target, site.base.length⟩ :: site.handlers }

end Site

/-- The machine shows the scene of trees as a scene of code. -/
structure Shows (scene : Scene Body) (m : Machine) : Prop where
  world : m.world = scene.toWorld.mapBodies Body.code
  lowers : scene.All (ClassImage.All Body.Lowers)

/-- The machine is at a site and an address, with a scene. -/
structure At (site : Site) (next : Nat) (scene : Scene Body) (m : Machine) : Prop where
  frames : m.frames = site.frame next scene.this :: site.below
  operands : m.operands = ⟨site.base⟩
  shows : Shows scene m

theorem At.scene_eq {site : Site} {next : Nat} {scene : Scene Body} {m : Machine}
    (here : At site next scene m) : m.scene = scene.mapBodies Body.code := by
  have this : m.this = scene.this := by
    simp only [Machine.this, here.frames]
    rfl
  simp only [Machine.scene, here.shows.world, this]
  rfl

/-- The machine is about to raise a value that no frame above the site handles. -/
def Raises (site : Site) (v : Value) (scene : Scene Body) (m : Machine) : Prop :=
  ∃ m₀ gone next junk, cycle m = closing (goingOn (raiseValue v) m₀)
    ∧ m₀.frames = gone ++ site.frame next scene.this :: site.below
    ∧ (∀ frame ∈ gone, frame.handlers = []) ∧ m₀.operands = ⟨junk ++ site.base⟩ ∧ Shows scene m₀

/-- The next instruction fails with a fault. -/
def Faults (f : Fault) (scene : Scene Body) (m : Machine) : Prop :=
  ∃ m', cycle m = .error (.fault f) m' ∧ Shows scene m'

/-- The machine gets to where an evaluation ends. -/
def Follows {α : Type} (site : Site) (n : Nat) (m : Machine) (good : α → Scene Body → Machine → Prop) :
    Ending Body α → Prop
  | .done a scene => Reaches m (good a scene)
  | .raised v scene => Reaches m (Raises site v scene)
  | .faulted f scene => Reaches m (Faults f scene)
  | .unfinished => RunsFor n m

theorem Raises.of_above {site : Site} {items : List Value} {v : Value} {scene : Scene Body}
    {m : Machine} (h : Raises (site.above items) v scene m) : Raises site v scene m := by
  obtain ⟨m₀, gone, next, junk, raising, frames, bare, operands, shows⟩ := h
  refine ⟨m₀, gone, next, junk ++ items, raising, frames, bare, ?_, shows⟩
  rw [operands, List.append_assoc]
  rfl

namespace Follows

variable {α γ : Type} {site : Site} {n : Nat} {m : Machine}
  {good : α → Scene Body → Machine → Prop}

theorem prepend {k : Nat} {m' : Machine} {e : Ending Body α} (steps : Steps k m m')
    (h : Follows site n m' good e) : Follows site n m good e := by
  cases e with
  | done a scene => exact Reaches.prepend steps h
  | raised v scene => exact Reaches.prepend steps h
  | faulted f scene => exact Reaches.prepend steps h
  | unfinished => exact (RunsFor.prepend steps h).mono (Nat.le_add_left n k)

theorem prepend_reaches {P : Machine → Prop} {e : Ending Body α} (front : Reaches m P)
    (next : ∀ m', P m' → Follows site n m' good e) : Follows site n m good e := by
  rcases front with hits | ⟨k, m', steps, holds⟩
  · cases e <;> exact .inl hits
  · exact (next m' holds).prepend steps

theorem bind {p : Eval Body α} {q : α → Eval Body γ} {scene : Scene Body}
    {good' : γ → Scene Body → Machine → Prop} (first : Follows site n m good (p scene))
    (second : ∀ a scene m', good a scene m' → Follows site n m' good' (q a scene)) :
    Follows site n m good' ((p >>= q) scene) := by
  rw [Eval.bind_apply]
  cases ending : p scene with
  | done a scene =>
    rw [ending] at first
    exact prepend_reaches first (second a scene)
  | raised v scene => rw [ending] at first; exact first
  | faulted f scene => rw [ending] at first; exact first
  | unfinished => rw [ending] at first; exact first

/-- Where an evaluation has given a value, the machine may go on. -/
theorem onward {good' : α → Scene Body → Machine → Prop} {e : Ending Body α}
    (h : Follows site n m good e) (next : ∀ a scene m', good a scene m' → Reaches m' (good' a scene)) :
    Follows site n m good' e := by
  cases e with
  | done a scene => exact Reaches.bind h (next a scene)
  | raised v scene => exact h
  | faulted f scene => exact h
  | unfinished => exact h

theorem of_above {items : List Value} {e : Ending Body α}
    (h : Follows (site.above items) n m good e) : Follows site n m good e := by
  cases e with
  | done a scene => exact h
  | raised v scene => exact Reaches.mono h fun _ => Raises.of_above
  | faulted f scene => exact h
  | unfinished => exact h

theorem fewer {n' : Nat} {e : Ending Body α} (h : Follows site n m good e) (smaller : n' ≤ n) :
    Follows site n' m good e := by
  cases e with
  | unfinished => exact RunsFor.mono h smaller
  | _ => exact h

end Follows

end Monogram
