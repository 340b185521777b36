import Monogram.Proofs.Lowering.Mentions
import Monogram.Proofs.Machine.Rest

/-! # Machines refer to loaded classes

A machine holds classes in its world, in its operands and in what `this` stands for, and mentions
them in its code.  If all of them have a name, and all that have a name are loaded, then this is so
behind the next cycle; and if the cycle fails, then not because a number leads to no class.

* `Machine.KnownTo` — everything in a machine refers to classes that are loaded.
* `Sound.resolves` — a cycle keeps that up.
* `Passes.knownTo` — so does a run of pieces.
-/

namespace Monogram

open Monogram.Action

variable {names names' : Names}

/-- The frame mentions only classes that have a name, and `this` refers to none but these. -/
structure Frame.KnownTo (names : Names) (frame : Frame) : Prop where
  code : frame.code.KnownTo names
  this : ∀ v ∈ frame.this, v.KnownTo names

/-- All that the machine mentions or refers to are classes that have a name, and these are loaded. -/
structure Machine.KnownTo (names : Names) (m : Machine) : Prop where
  world : m.world.KnownTo names
  bodies : m.world.All (ClassImage.All (Code.KnownTo names))
  frames : ∀ frame ∈ m.frames, frame.KnownTo names
  operands : ∀ v ∈ m.operands.items, v.KnownTo names

/-- The action leads to such a machine, and a failure is no unknown class. -/
def Resolves {α : Type} (names : Names) : EStateM.Result Failure Machine α → Prop
  | .ok _ m => m.KnownTo names
  | .error f m => m.KnownTo names ∧ ∀ id, f ≠ .fault (.unknownClassId id)

namespace Machine.KnownTo

variable {m : Machine}

theorem withFrames (known : m.KnownTo names) {frames : List Frame}
    (new : ∀ frame ∈ frames, frame.KnownTo names) : Machine.KnownTo names { m with frames } :=
  ⟨known.world, known.bodies, new, known.operands⟩

theorem withOperands (known : m.KnownTo names) {items : List Value}
    (new : ∀ v ∈ items, v.KnownTo names) : Machine.KnownTo names { m with operands := ⟨items⟩ } :=
  ⟨known.world, known.bodies, known.frames, new⟩

/-- The frames that are left, the first of them changed but for its code and its `this`. -/
theorem running {frame : Frame} {below : List Frame}
    (known : ∀ f ∈ frame :: below, f.KnownTo names) (frame' : Frame)
    (code : frame'.code = frame.code) (this : frame'.this = frame.this) :
    ∀ f ∈ frame' :: below, f.KnownTo names := by
  obtain ⟨first, others⟩ := List.forall_mem_cons.1 known
  exact List.forall_mem_cons.2 ⟨⟨code ▸ first.code, this ▸ first.this⟩, others⟩

theorem scene (known : m.KnownTo names) : m.scene.KnownTo names := by
  refine ⟨known.world, fun v own => ?_⟩
  cases running : m.frames with
  | nil => simp [Machine.scene, Machine.this, running] at own
  | cons frame below =>
    simp only [Machine.scene, Machine.this, running] at own
    exact (known.frames frame (by simp [running])).this v own

theorem fetched (known : m.KnownTo names) {frame : Frame} {below : List Frame}
    (running : m.frames = frame :: below) : (fetched m frame below).KnownTo names := by
  have frames := known.frames
  rw [running] at frames
  exact ⟨known.world, known.bodies, Machine.KnownTo.running frames _ rfl rfl, known.operands⟩

theorem truncate (known : m.KnownTo names) (size : Nat) :
    ∀ v ∈ (m.operands.truncate size).items, v.KnownTo names :=
  fun v member => known.operands v (List.mem_of_mem_drop member)

/-- A run that has failed leaves no frame, and the operands that were there before. -/
theorem abandoned (known : m.KnownTo names) (size : Nat) :
    Machine.KnownTo names { m with frames := [], operands := m.operands.truncate size } :=
  ⟨known.world, known.bodies, fun _ => nofun, known.truncate size⟩

end Machine.KnownTo

namespace Resolves

variable {m : Machine} {frame : Frame} {below : List Frame} {rest : List Value}

theorem closing {result : EStateM.Result Failure Machine Flow} (resolves : Resolves names result) :
    Resolves names (closing result) := by
  cases result with
  | ok flow m =>
    cases flow with
    | next => exact resolves
    | halt => exact Machine.KnownTo.withFrames resolves fun _ => nofun
  | error f m => exact resolves

/-- A handler that a raised value finds belongs to one of the frames. -/
theorem of_findHandler {frames : List Frame} (known : ∀ f ∈ frames, f.KnownTo names)
    {handler : Handler} (found : findHandler frames = some (handler, frame, below)) :
    ∀ f ∈ frame :: below, f.KnownTo names := by
  induction frames with
  | nil => cases found
  | cons first others ih =>
    simp only [findHandler] at found
    split at found
    · cases found
      exact Machine.KnownTo.running known _ rfl rfl
    · exact ih (List.forall_mem_cons.1 known).2 found

theorem raise (known : m.KnownTo names) {v : Value} (named : v.KnownTo names) :
    Resolves names (goingOn (raiseValue v) m) := by
  rw [goingOn, bind_apply]
  cases found : findHandler m.frames with
  | none =>
    rw [raiseValue_of_none found]
    refine ⟨known.withFrames (List.forall_mem_nil _), fun id fails => ?_⟩
    cases fails
  | some caught =>
    obtain ⟨handler, frame, below⟩ := caught
    rw [raiseValue_of_handler found]
    refine ⟨known.world, known.bodies, ?_, List.forall_mem_cons.2 ⟨named, known.truncate _⟩⟩
    exact Machine.KnownTo.running (of_findHandler known.frames found) _ rfl rfl

/-- The machine goes on in the scene that an operation has led to. -/
theorem resume (known : m.KnownTo names) (left : ∀ v ∈ rest, v.KnownTo names) {scene : Scene}
    (led : scene.KnownTo names) (bodies : scene.All (ClassImage.All (Code.KnownTo names))) :
    (m.resume scene rest).KnownTo names := by
  refine ⟨led.toKnownTo, bodies, ?_, left⟩
  have frames := known.frames
  simp only [Machine.resume]
  cases running : m.frames with
  | nil => exact fun _ => nofun
  | cons frame below =>
    rw [running] at frames
    obtain ⟨first, others⟩ := List.forall_mem_cons.1 frames
    exact List.forall_mem_cons.2 ⟨⟨first.code, led.this⟩, others⟩

theorem carry (known : m.KnownTo names) (left : ∀ v ∈ rest, v.KnownTo names) {e : Ending Code Value}
    (led : e.KnownTo names (Value.KnownTo names)) (bodies : e.All (ClassImage.All (Code.KnownTo names)))
    (found : ∀ id after, e ≠ .faulted (.unknownClassId id) after) : Resolves names (carry m rest e) := by
  cases e with
  | done v scene => exact resume known (List.forall_mem_cons.2 ⟨led.1, left⟩) led.2 bodies
  | raised v scene => exact .raise (resume known left led.2 bodies) led.1
  | faulted f scene =>
    refine ⟨resume known left led bodies, fun id same => ?_⟩
    cases same
    exact found id scene rfl
  | unfinished => exact known.withOperands left

end Resolves

namespace Sound

variable {m : Machine} {frame : Frame} {below : List Frame} {history : List Activation}

/-- The operands that the next instruction takes lie on top of the others. -/
theorem takes (sound : Sound m history) {i : Instruction} (running : m.frames = frame :: below)
    (here : frame.code.instructions[frame.next]? = some i) :
    ∃ args rest : List Value, m.operands = ⟨args.reverse ++ rest⟩ ∧ args.length = i.pops := by
  obtain ⟨label, a, older, own, base, rfl, items, fits, others⟩ := (running ▸ sound.layout).inv
  obtain ⟨args, kept, rfl, count, -, -, -⟩ := fits.takes here
  refine ⟨args, kept ++ base, congrArg Operands.mk ?_, count⟩
  rw [items, List.append_assoc]

/-- What an instruction does with its operands, and those below. -/
theorem resolves_step (known : m.KnownTo names) {i : Instruction} {args rest : List Value}
    (running : m.frames = frame :: below) (mentions : i.KnownTo names)
    (operands : m.operands = ⟨args.reverse ++ rest⟩) (count : args.length = i.pops) :
    Resolves names (step i m) := by
  have all : ∀ v ∈ args.reverse ++ rest, v.KnownTo names := by
    have held := known.operands
    rw [operands] at held
    exact held
  obtain ⟨taken, left⟩ := List.forall_mem_append.1 all
  have given : ∀ v ∈ args, v.KnownTo names := fun v member => taken v (List.mem_reverse.2 member)
  have frames : ∀ f ∈ frame :: below, f.KnownTo names := running ▸ known.frames
  -- A plain instruction does what the evaluation of its operands does; others move between frames.
  by_cases plain : i.isPlain
  · rw [step_operate plain running operands count]
    exact .carry known left (Instruction.knows_operate mentions given plain count _ known.scene)
      (Instruction.keeps_operate i args _ known.bodies)
      fun id after => Instruction.operate_resolves given plain count known.world.loaded
  cases i with
  | halt => exact known
  | pop =>
    obtain ⟨v, rfl⟩ := List.length_eq_one_iff.1 count
    rw [step_pop v operands]
    exact known.withOperands left
  | jump target =>
    rw [step_jump running]
    exact known.withFrames (Machine.KnownTo.running frames _ rfl rfl)
  | jumpIfFalse target =>
    obtain ⟨v, rfl⟩ := List.length_eq_one_iff.1 count
    rw [step_jumpIfFalse running target v operands]
    exact (known.withOperands left).withFrames (Machine.KnownTo.running frames _ rfl rfl)
  | call method argc =>
    cases args with
    | nil => cases count
    | cons receiver values =>
      obtain rfl : values.length = argc := Nat.succ.inj count
      rw [List.reverse_cons, List.append_assoc] at operands
      rw [step_call running method receiver values operands]
      have named := given receiver (List.mem_cons_self ..)
      cases callee : Eval.callee method receiver values m.scene with
      | ending e =>
        obtain ⟨led, found⟩ := Eval.knows_callee known.scene named callee
        exact .carry known left led (Eval.keeps_callee known.bodies callee) found
      | body code this =>
        have body := Eval.all_of_callee known.bodies callee
        obtain ⟨object, rfl⟩ := Eval.this_of_callee callee
        rw [follow, goingOn, bind_apply, pushFrame_apply]
        by_cases full : m.limits.maxDepth ≤ m.frames.length
        · rw [if_pos (by exact full)]
          refine ⟨known.withOperands left, fun id fails => ?_⟩
          cases fails
        · rw [if_neg (by exact full)]
          refine (known.withOperands left).withFrames (List.forall_mem_cons.2 ⟨⟨body, ?_⟩, known.frames⟩)
          intro v own
          obtain ⟨address, rfl, rfl⟩ := Option.map_eq_some_iff.1 own
          trivial
  | giveBack =>
    obtain ⟨v, rfl⟩ := List.length_eq_one_iff.1 count
    rw [step_giveBack running v operands]
    refine (known.withFrames (List.forall_mem_cons.1 frames).2).withOperands ?_
    split
    · exact left
    · exact all
  | openHandler target =>
    rw [step_openHandler running]
    exact known.withFrames (Machine.KnownTo.running frames _ rfl rfl)
  | closeHandler =>
    rw [step_closeHandler running]
    exact known.withFrames (Machine.KnownTo.running frames _ rfl rfl)
  | raise =>
    obtain ⟨v, rfl⟩ := List.length_eq_one_iff.1 count
    have popped : step .raise m = goingOn (raiseValue v) { m with operands := ⟨rest⟩ } := by
      simp only [step, goingOn, bind_apply, pop_apply, operands]
      rfl
    rw [popped]
    exact .raise (known.withOperands left) (given v (by simp))
  | _ => exact absurd rfl plain

/-- What a cycle of a sound machine does to the classes that it refers to. -/
theorem resolves (sound : Sound m history) (known : m.KnownTo names) : Resolves names (Action.cycle m) := by
  cases running : m.frames with
  | nil =>
    rw [cycle_idle running]
    exact known
  | cons frame below =>
    have frames : ∀ f ∈ frame :: below, f.KnownTo names := running ▸ known.frames
    cases here : frame.code.instructions[frame.next]? with
    | none =>
      rw [cycle_end running here]
      have left := known.withFrames (List.forall_mem_cons.1 frames).2
      by_cases waits : frame.kind.givesValue && !below.isEmpty
      · rw [if_pos waits]
        exact left.withOperands (List.forall_mem_cons.2 ⟨trivial, known.operands⟩)
      · rw [if_neg waits]
        exact left
    | some i =>
      have began := known.fetched running
      have mentions := (frames frame (List.mem_cons_self ..)).code i (Array.mem_of_getElem? here)
      rcases cycle_cases running here with ⟨-, carried⟩ | ⟨limit, spent⟩
      · rw [carried]
        obtain ⟨args, rest, operands, count⟩ := sound.takes running here
        exact (resolves_step began rfl mentions operands count).closing
      · rw [spent]
        exact ⟨began, fun id => nofun⟩

end Sound

/-! ## Runs -/

theorem Names.Under.refl (names : Names) : names.Under names := fun _ => id

/-- A run of pieces comes through such machines only. -/
theorem Passes.knownTo {pieces later : List Frame} {first m : Machine} {history : List Activation}
    (rested : Rested first) (startable : ∀ piece ∈ pieces, piece.Startable)
    (known : first.KnownTo names) (mentions : ∀ piece ∈ pieces, piece.KnownTo names)
    (h : Passes pieces first later m history) :
    m.KnownTo names ∧ ∀ piece ∈ later, piece.KnownTo names := by
  induction h with
  | start => exact ⟨known, mentions⟩
  | enter before idle pushed ih =>
    obtain ⟨known, waiting⟩ := ih
    obtain ⟨next, others⟩ := List.forall_mem_cons.1 waiting
    rw [pushFrame_apply] at pushed
    split at pushed <;> cases pushed
    exact ⟨known.withFrames (List.forall_mem_cons.2 ⟨next, known.frames⟩), others⟩
  | cycle before cycled ih =>
    have resolves := (before.sound rested startable).1.resolves ih.1
    rw [cycled] at resolves
    exact ⟨resolves, ih.2⟩

end Monogram
