import Monogram.Proofs.Correctness.Following
import Monogram.Proofs.Evaluation.Tame

/-! # One instruction of an evaluation

What a machine at a site does with the instructions that code is made of, told by the scene of trees
that it shows.

* `Seg` — instructions that stand at an address of some code.
* `At.plain`, `At.call` — the instructions that leave a value.
-/

namespace Monogram

open Monogram.Action

/-! ## Parts of code -/

/-- The instructions stand in the code from an address on. -/
def Seg (code : Code) (address : Nat) (part : List Instruction) : Prop :=
  ∀ k i, part[k]? = some i → code.instructions[address + k]? = some i

namespace Seg

variable {code : Code} {address : Nat} {part rest : List Instruction} {i : Instruction}

theorem left (seg : Seg code address (part ++ rest)) : Seg code address part := by
  intro k i found
  have inside : k < part.length := (List.getElem?_eq_some_iff.1 found).1
  exact seg k i ((List.getElem?_append_left inside).trans found)

theorem right (seg : Seg code address (part ++ rest)) : Seg code (address + part.length) rest := by
  intro k i found
  rw [Nat.add_assoc]
  refine seg (part.length + k) i ?_
  rw [List.getElem?_append_right (Nat.le_add_right _ _), Nat.add_sub_cancel_left]
  exact found

theorem head (seg : Seg code address (i :: rest)) : code.instructions[address]? = some i :=
  seg 0 i rfl

theorem tail (seg : Seg code address (i :: rest)) : Seg code (address + 1) rest := by
  have split : Seg code address ([i] ++ rest) := seg
  exact split.right

theorem moved {address' : Nat} (seg : Seg code address part) (same : address = address') :
    Seg code address' part := same ▸ seg

theorem whole (instructions : List Instruction) :
    Seg (Code.ofInstructions instructions) 0 instructions := by
  intro k i found
  simpa [Code.ofInstructions] using found

end Seg

/-! ## One cycle -/

theorem Follows.of_hits {α : Type} {site : Site} {n : Nat} {m : Machine}
    {good : α → Scene Body → Machine → Prop} {e : Ending Body α} (hits : HitsLimit m) :
    Follows site n m good e := by
  cases e <;> exact .inl hits

/-- An instruction is carried out unless a limit has been met. -/
theorem hits_or_cycles {m : Machine} {frame : Frame} {below : List Frame} {i : Instruction}
    (running : m.frames = frame :: below)
    (here : frame.code.instructions[frame.next]? = some i) :
    HitsLimit m ∨ cycle m = closing (step i (fetched m frame below)) := by
  rcases cycle_cases running here with ⟨-, carried⟩ | ⟨limit, spent⟩
  · exact .inr carried
  · exact .inl ⟨0, m, _, _, .refl m, spent, rfl⟩

namespace At

variable {site : Site} {next n : Nat} {scene : Scene Body} {m : Machine}

theorem moved {stop : Nat} (here : At site next scene m) (same : next = stop) :
    At site stop scene m := same ▸ here

/-- The machine with the instruction fetched. -/
theorem fetched_scene (here : At site next scene m) :
    (fetched m (site.frame next scene.this) site.below).scene = scene.mapBodies Body.code := by
  rw [← here.scene_eq]
  have this : m.this = scene.this := by
    simp only [Machine.this, here.frames]
    rfl
  simp only [Machine.scene, this]
  rfl

/-- A machine that makes something of an ending follows that ending. -/
theorem carried {e : Ending Body Value} (this : Option Value)
    (cycled : cycle m
      = closing (carry (fetched m (site.frame next this) site.below) site.base
          (e.mapBodies Body.code)))
    (all : e.All (ClassImage.All Body.Lowers)) (finished : e ≠ .unfinished) :
    Follows site n m (fun v => At (site.above [v]) (next + 1)) e := by
  cases e with
  | done v after =>
    refine .inr ⟨1, _, .one cycled, ⟨?_, rfl, ⟨rfl, all⟩⟩⟩
    rfl
  | raised v after =>
    exact Reaches.here
      ⟨_, [], next + 1, [], cycled, rfl, (fun _ member => by cases member), rfl, ⟨rfl, all⟩⟩
  | faulted f after => exact Reaches.here ⟨_, cycled, ⟨rfl, all⟩⟩
  | unfinished => exact absurd rfl finished

/-- A plain instruction, which does what the evaluation `p` does. -/
theorem plain {i : Instruction} {p : Eval Body Value} {place stop : Nat} (args : List Value)
    (here : At (site.above args.reverse) place scene m)
    (found : site.code.instructions[next]? = some i) (operates : i.operate args = p)
    (plain : i.isPlain) (count : args.length = i.pops) (start : place = next)
    (behind : next + 1 = stop) :
    Follows site n m (fun v => At (site.above [v]) stop) (p scene) := by
  subst operates start behind
  rcases hits_or_cycles here.frames found with hits | cycled
  · exact .of_hits hits
  · refine carried scene.this ?_ (Instruction.keeps_operate i args scene here.shows.lowers)
      (Instruction.tame_operate plain count scene).finished
    -- The machine operates on a scene of code and the evaluation on one of trees; the images agree.
    let machine := fetched m (site.frame place scene.this) site.below
    have carried : step i machine = carry machine site.base (i.operate args machine.scene) :=
      step_operate plain rfl here.operands count
    have shown : machine.scene = _ := here.fetched_scene
    rw [shown, Instruction.commutes_operate Body.code_default] at carried
    rw [← carried]
    exact cycled

end At

/-! ## Calls -/

/-- Entering a body is followed by the frame that a call starts, and the caller gets the value. -/
def EnterFollows (n : Nat) (enter : Enter) : Prop :=
  ∀ (body : Body) (this : Option Value) (site : Site) (next : Nat) (scene : Scene Body)
    (m : Machine), body.Lowers →
    m.frames = .start body.code (calledKind this) this :: site.frame next scene.this :: site.below →
    m.operands = ⟨site.base⟩ → Shows scene m →
    Follows site n m (fun v => At (site.above [v]) next) (enter body this scene)

theorem Follows.step {α : Type} {site : Site} {n : Nat} {m m' : Machine}
    {good : α → Scene Body → Machine → Prop} {e : Ending Body α} (first : cycle m = .ok true m')
    (h : Follows site n m' good e) : Follows site (n + 1) m good e := by
  cases e with
  | done a scene => exact Reaches.prepend (.one first) h
  | raised v scene => exact Reaches.prepend (.one first) h
  | faulted f scene => exact Reaches.prepend (.one first) h
  | unfinished => exact (RunsFor.prepend (.one first) h).mono (by omega)

/-- A call. -/
theorem At.call {site : Site} {place next stop n : Nat} {scene : Scene Body} {m : Machine}
    {enter : Enter} {method : String} {receiver : Value} {values : List Value}
    (entering : EnterFollows n enter)
    (here : At (site.above (values.reverse ++ [receiver])) place scene m)
    (found : site.code.instructions[next]? = some (.call method values.length))
    (start : place = next) (behind : next + 1 = stop) :
    Follows site (n + 1) m (fun v => At (site.above [v]) stop)
      (Eval.invoke enter method receiver values scene) := by
  subst start behind
  rcases hits_or_cycles here.frames found with hits | cycled
  · exact .of_hits hits
  let machine := fetched m (site.frame place scene.this) site.below
  have operands : machine.operands = ⟨values.reverse ++ receiver :: site.base⟩ := by
    simp [machine, fetched, here.operands, Site.above]
  have called : step (.call method values.length) machine
      = follow machine site.base (Eval.callee method receiver values machine.scene) :=
    step_call rfl method receiver values operands
  have shown : machine.scene = _ := here.fetched_scene
  rw [shown, Eval.callee_mapBodies Body.code_default] at called
  simp only [Eval.invoke]
  cases callee : Eval.callee method receiver values scene with
  | ending e =>
    rw [callee] at called
    exact At.carried scene.this (cycled.trans (congrArg closing called))
      (Eval.keeps_callee here.shows.lowers callee) (Eval.callee_finished callee)
  | body b this =>
    rw [callee] at called
    have lowers := Eval.all_of_callee here.shows.lowers callee
    simp only [Eval.Callee.mapBodies, follow, goingOn, bind_apply, pushFrame_apply] at called
    -- A frame too many is a limit that is met, which the evaluation knows nothing of.
    by_cases full : m.limits.maxDepth ≤ site.below.length + 1
    · rw [if_pos (by exact full)] at called
      have failed := cycled.trans (congrArg closing called)
      exact .of_hits ⟨0, m, _, _, .refl m, failed, rfl⟩
    · rw [if_neg (by exact full)] at called
      exact Follows.step (cycled.trans (congrArg closing called))
        (entering b this site (place + 1) scene _ lowers rfl rfl ⟨here.shows.world, here.shows.lowers⟩)

/-! ## Control -/

/-- The next cycle leads to a machine with the property, or the run meets a limit. -/
def Advances (m : Machine) (P : Machine → Prop) : Prop :=
  HitsLimit m ∨ ∃ m', cycle m = .ok true m' ∧ P m'

theorem Advances.reaches {m : Machine} {P : Machine → Prop} (h : Advances m P) : Reaches m P :=
  h.imp id fun ⟨m', first, holds⟩ => ⟨1, m', .one first, holds⟩

/-- What an instruction leads to, when it is known to be carried out. -/
theorem advances_of_step {m m' : Machine} {frame : Frame} {below : List Frame} {i : Instruction}
    {P : Machine → Prop} (running : m.frames = frame :: below)
    (here : frame.code.instructions[frame.next]? = some i)
    (stepped : step i (fetched m frame below) = .ok .next m') (holds : P m') : Advances m P := by
  rcases hits_or_cycles running here with hits | cycled
  · exact .inl hits
  · exact .inr ⟨m', cycled.trans (congrArg closing stepped), holds⟩

namespace At

variable {site : Site} {next : Nat} {scene : Scene Body} {m : Machine}

theorem truthy_eq (here : At site next scene m) (v : Value) :
    m.heap.truthy v = scene.heap.truthy v := by
  have heap : m.heap = scene.heap.mapBodies Body.code := congrArg World.heap here.shows.world
  rw [heap, Heap.truthy_mapBodies]

theorem pop {v : Value} (here : At (site.above [v]) next scene m)
    (found : site.code.instructions[next]? = some .pop) :
    Advances m (At site (next + 1) scene) :=
  advances_of_step here.frames found (step_pop v here.operands)
    ⟨rfl, rfl, ⟨here.shows.world, here.shows.lowers⟩⟩

/-- A plain instruction whose value is dropped. -/
theorem dropping {n place stop : Nat} {i : Instruction} {rest : List Instruction}
    {p : Eval Body Value} (args : List Value) (here : At (site.above args.reverse) place scene m)
    (seg : Seg site.code next (i :: .pop :: rest)) (operates : i.operate args = p)
    (plain : i.isPlain) (count : args.length = i.pops) (start : place = next)
    (behind : next + 2 = stop) : Follows site n m (fun _ => At site stop) (p scene) := by
  have left := here.plain (n := n) args seg.head operates plain count start rfl
  refine left.onward fun v scene m here => ?_
  exact (here.pop seg.tail.head).reaches.mono fun m here => here.moved behind

theorem jump {target : Nat} (here : At site next scene m)
    (found : site.code.instructions[next]? = some (.jump target)) :
    Advances m (At site target scene) :=
  advances_of_step here.frames found (step_jump rfl target)
    ⟨rfl, here.operands, ⟨here.shows.world, here.shows.lowers⟩⟩

theorem jumpIfFalse {target : Nat} {condition : Value} (here : At (site.above [condition]) next scene m)
    (found : site.code.instructions[next]? = some (.jumpIfFalse target)) :
    Advances m (At site (if scene.heap.truthy condition then next + 1 else target) scene) := by
  refine advances_of_step here.frames found (step_jumpIfFalse rfl target condition here.operands)
    ⟨?_, rfl, ⟨here.shows.world, here.shows.lowers⟩⟩
  rw [← here.truthy_eq]
  rfl

theorem openHandler {target : Nat} (here : At site next scene m)
    (found : site.code.instructions[next]? = some (.openHandler target)) :
    Advances m (At (site.guarded target) (next + 1) scene) := by
  refine advances_of_step here.frames found (step_openHandler rfl target)
    ⟨?_, here.operands, ⟨here.shows.world, here.shows.lowers⟩⟩
  simp only [fetched, here.operands]
  rfl

theorem closeHandler {target : Nat} (here : At (site.guarded target) next scene m)
    (found : site.code.instructions[next]? = some .closeHandler) :
    Advances m (At site (next + 1) scene) :=
  advances_of_step here.frames found (step_closeHandler rfl)
    ⟨rfl, here.operands, ⟨here.shows.world, here.shows.lowers⟩⟩

end At

theorem findHandler_append {gone : List Frame} (bare : ∀ frame ∈ gone, frame.handlers = [])
    (others : List Frame) : findHandler (gone ++ others) = findHandler others := by
  induction gone with
  | nil => rfl
  | cons frame rest ih =>
    have none : frame.handlers = [] := bare frame (List.mem_cons_self ..)
    rw [List.cons_append, findHandler, none]
    exact ih fun other member => bare other (List.mem_cons_of_mem _ member)

/-- What is raised in a protected block is on top where the handler starts. -/
theorem Raises.caught {site : Site} {target : Nat} {v : Value} {scene : Scene Body} {m : Machine}
    (raises : Raises (site.guarded target) v scene m) :
    Advances m (At (site.above [v]) target scene) := by
  obtain ⟨m₀, gone, next, junk, raising, frames, bare, operands, shows⟩ := raises
  have found : findHandler m₀.frames
      = some (⟨target, site.base.length⟩, site.frame next scene.this, site.below) := by
    rw [frames, findHandler_append bare]
    rfl
  -- Whatever the block has left on the operands is cut off.
  have kept : m₀.operands.truncate site.base.length = ⟨site.base⟩ := by
    rw [operands]
    exact truncate_append junk site.base
  rw [goingOn, bind_apply, raiseValue_of_handler found, kept] at raising
  exact .inr ⟨_, raising, rfl, rfl, ⟨shows.world, shows.lowers⟩⟩

/-- A protected block and its handler. -/
theorem Follows.rescue {α : Type} {site : Site} {target n : Nat} {scene : Scene Body} {m : Machine}
    {good good' : α → Scene Body → Machine → Prop} {p : Eval Body α} {handler : Value → Eval Body α}
    (block : Follows (site.guarded target) n m good (p scene))
    (completed : ∀ a scene m, good a scene m → Reaches m (good' a scene))
    (handled : ∀ v scene m, At (site.above [v]) target scene m →
      Follows site n m good' (handler v scene)) :
    Follows site n m good' (Eval.rescue p handler scene) := by
  unfold Eval.rescue
  cases ending : p scene with
  | done a scene =>
    rw [ending] at block
    exact Reaches.bind block (completed a scene)
  | raised v scene =>
    rw [ending] at block
    have caught : Reaches m (At (site.above [v]) target scene) :=
      Reaches.bind block fun m raises => raises.caught.reaches
    exact Follows.prepend_reaches caught (handled v scene)
  | faulted f scene => rw [ending] at block; exact block
  | unfinished => rw [ending] at block; exact block

end Monogram
