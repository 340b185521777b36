import Monogram.Proofs.Machine.Metered
import Monogram.Proofs.Machine.Rewriting

/-! # Slots and names do the same

A machine keeps a declared global in a slot.  One whose code uses the names of globals keeps it among the
named globals, and otherwise the two do the same: whatever the one finds in a slot the other finds under
its name, as long as no code looks up that name for another reason.

* `Mirrors` — a machine that uses names where another one uses slots.
* `Parallel` — the same result on two such machines.
* `Mirrors.step`, `Mirrors.cycle` — what an instruction and a cycle come to.
* `Mirrors.run` — what a program comes to, and the machines in front of its cycles.
-/

namespace Monogram

open Monogram.Action

variable {g : List String} {m m' : Machine} {α : Type}

/-- Names of globals in place of their slots, and globals that are stored in this way. -/
def naming (g : List String) (slots : Array Value) (globals : Table Value) : Rewriting :=
  ⟨Code.named g, Code.named_default g, slots, globals⟩

/-- The second machine uses the names of the globals where the first one uses their slots, and neither
has code that looks up such a name for another reason. -/
structure Mirrors (g : List String) (m m' : Machine) : Prop where
  same : m' = m.rewritten (naming g m'.slots m'.globals)
  named : ∀ slot name, g[slot]? = some name → (m'.global? name).getD .zero = (m.slot? slot).getD .zero
  others : ∀ name, name ∉ g → m'.global? name = m.global? name
  apart : m.AllCode (Code.Emits (Instruction.Apart g))

/-- The same result on two such machines. -/
inductive Parallel (g : List String) :
    EStateM.Result Failure Machine α → EStateM.Result Failure Machine α → Prop where
  | ok (a : α) {m m' : Machine} (mirrors : Mirrors g m m') : Parallel g (.ok a m) (.ok a m')
  | error (f : Failure) {m m' : Machine} (mirrors : Mirrors g m m') :
    Parallel g (.error f m) (.error f m')

/-! ## Stores -/

/-- Behind a store into a slot the others have the values that they had, zero if there was none. -/
theorem getD_stored (slots : Array Value) (slot : Nat) (v : Value) (other : Nat) :
    ((slots ++ Array.replicate (slot + 1 - slots.size) Value.zero).setIfInBounds slot v)[other]?.getD .zero
      = if slot = other then v else slots[other]?.getD .zero := by
  rw [Array.getElem?_setIfInBounds]
  by_cases here : slot = other
  · subst here
    have inside : slot < (slots ++ Array.replicate (slot + 1 - slots.size) Value.zero).size := by
      rw [Array.size_append, Array.size_replicate]
      omega
    rw [if_pos rfl, if_pos inside, if_pos rfl, Option.getD_some]
  · rw [if_neg here, if_neg here, Array.getElem?_append]
    split
    · rfl
    · next beyond =>
      rw [Array.getElem?_eq_none (Nat.le_of_not_lt beyond), Array.getElem?_replicate]
      split <;> rfl

namespace Mirrors

theorem operands (mirrors : Mirrors g m m') : m'.operands = m.operands := by
  rw [mirrors.same]
  rfl

theorem frames (mirrors : Mirrors g m m') :
    m'.frames = m.frames.map (Frame.rewritten (Code.named g)) := by
  rw [mirrors.same]
  rfl

theorem limits (mirrors : Mirrors g m m') : m'.limits = m.limits := by
  rw [mirrors.same]
  rfl

theorem executed (mirrors : Mirrors g m m') : m'.executed = m.executed := by
  rw [mirrors.same]
  rfl

theorem console (mirrors : Mirrors g m m') : m'.console = m.console := by
  rw [mirrors.same]
  rfl

theorem this (mirrors : Mirrors g m m') : m'.this = m.this := by
  unfold Machine.this
  rw [mirrors.frames]
  cases m.frames <;> rfl

/-- The same change of what is neither code of classes nor a global. -/
theorem update (mirrors : Mirrors g m m') {frames frames' : List Frame} {operands operands' : Operands Value}
    {executed executed' : Nat} (apart : ∀ frame ∈ frames, frame.code.Emits (Instruction.Apart g))
    (sameFrames : frames' = frames.map (Frame.rewritten (Code.named g)))
    (sameOperands : operands' = operands) (sameExecuted : executed' = executed) :
    Mirrors g { m with frames, operands, executed }
      { m' with frames := frames', operands := operands', executed := executed' } := by
  subst sameFrames sameOperands sameExecuted
  have classes : m.world.All (ClassImage.All (Code.Emits (Instruction.Apart g))) := mirrors.apart.world
  refine ⟨?_, mirrors.named, mirrors.others, ⟨⟨classes.classes, classes.objects⟩, apart⟩⟩
  exact congrArg (fun base : Machine => { base with
    frames := frames.map (Frame.rewritten (Code.named g)), operands := operands', executed := executed' })
    mirrors.same

/-- An action that leaves globals alone does the same. -/
theorem neutral (mirrors : Mirrors g m m') {a : Action α} (neutral : Neutral a) :
    Parallel g (a m) (a m') := by
  have there := neutral.rewritten (naming g m'.slots m'.globals) m
  have untouched := neutral.untouched m
  rw [← mirrors.same] at there
  rw [there]
  -- The globals of both are those of before.
  have still : Mirrors g (reached (a m)) ((reached (a m)).rewritten (naming g m'.slots m'.globals)) := by
    refine ⟨rfl, fun slot name here => ?_, fun name absent => ?_, untouched.code mirrors.apart⟩
    · rw [Machine.slot?, untouched.slots]
      exact mirrors.named slot name here
    · rw [Machine.global?, Machine.global?, untouched.globals]
      exact mirrors.others name absent
  cases done : a m with
  | ok a m₁ =>
    rw [done] at still
    exact .ok a still
  | error f m₁ =>
    rw [done] at still
    exact .error f still

theorem storeSlot (mirrors : Mirrors g m m') (distinct : g.Nodup) {slot : Nat} {name : String}
    (here : g[slot]? = some name) (v : Value) :
    Mirrors g
      { m with slots := (m.slots ++ Array.replicate (slot + 1 - m.slots.size) Value.zero).setIfInBounds slot v }
      { m' with globals := m'.globals.insert name v } := by
  refine ⟨?_, fun other name' there => ?_, fun name' absent => ?_, ⟨⟨?_, ?_⟩, mirrors.apart.frames⟩⟩
  · exact congrArg (fun base : Machine => { base with globals := m'.globals.insert name v }) mirrors.same
  · show ((m'.globals.insert name v).find? name').getD .zero = _
    rw [Machine.slot?, getD_stored, Table.find?_insert]
    -- Different globals have different slots.
    by_cases same : slot = other
    · subst same
      cases here.symm.trans there
      rw [if_pos rfl, if_pos rfl, Option.getD_some]
    · have differ : name ≠ name' := by
        rintro rfl
        obtain ⟨inside, at_slot⟩ := List.getElem?_eq_some_iff.1 here
        obtain ⟨inside', at_other⟩ := List.getElem?_eq_some_iff.1 there
        exact same (distinct.getElem_inj_iff.1 (at_slot.trans at_other.symm))
      rw [if_neg differ, if_neg same]
      exact mirrors.named other name' there
  · show (m'.globals.insert name v).find? name' = _
    have differ : name ≠ name' := by
      rintro rfl
      exact absent (List.mem_of_getElem? here)
    rw [Table.find?_insert_of_ne _ differ]
    exact mirrors.others name' absent
  · exact mirrors.apart.world.classes
  · exact mirrors.apart.world.objects

theorem storeName (mirrors : Mirrors g m m') {name : String} (absent : name ∉ g) (v : Value) :
    Mirrors g { m with globals := m.globals.insert name v }
      { m' with globals := m'.globals.insert name v } := by
  refine ⟨?_, fun slot name' here => ?_, fun name' absent' => ?_, ⟨⟨?_, ?_⟩, mirrors.apart.frames⟩⟩
  · exact congrArg (fun base : Machine => { base with globals := m'.globals.insert name v }) mirrors.same
  · show ((m'.globals.insert name v).find? name').getD .zero = _
    have differ : name ≠ name' := by
      rintro rfl
      exact absent (List.mem_of_getElem? here)
    rw [Table.find?_insert_of_ne _ differ]
    exact mirrors.named slot name' here
  · show (m'.globals.insert name v).find? name' = (m.globals.insert name v).find? name'
    rw [Table.find?_insert, Table.find?_insert]
    split
    · rfl
    · exact mirrors.others name' absent'
  · exact mirrors.apart.world.classes
  · exact mirrors.apart.world.objects

end Mirrors

namespace Parallel

variable {γ : Type} {p p' : Action α} {q q' : α → Action γ}

theorem bind (first : Parallel g (p m) (p' m'))
    (others : ∀ a {m₁ m₁' : Machine}, Mirrors g m₁ m₁' → Parallel g (q a m₁) (q' a m₁')) :
    Parallel g ((p >>= q) m) ((p' >>= q') m') := by
  rw [bind_apply, bind_apply]
  generalize p m = result, p' m' = result' at first
  cases first with
  | ok a mirrors => exact others a mirrors
  | error f mirrors => exact .error f mirrors

end Parallel

/-! ## Instructions -/

namespace Action

theorem lookup_apply (name : String) (m : Machine) :
    lookup name m
      = .ok (((if name = "this" then m.this else none).or (m.globals.find? name)).getD .zero) m := by
  obtain ⟨limits, console, classes, heap, frames, operands, slots, globals, executed⟩ := m
  cases frames with
  | nil =>
    show _ = EStateM.Result.ok (((if name = "this" then none else none).or (globals.find? name)).getD _) _
    rw [ite_self]
    rfl
  | cons frame below => rfl

theorem assign_this (v : Value) (bound : m.this.isSome) :
    assign "this" v m = modifyFrame (fun frame => { frame with this := some v }) m := by
  obtain ⟨limits, console, classes, heap, frames, operands, slots, globals, executed⟩ := m
  cases frames with
  | nil => cases bound
  | cons frame below =>
    have here : frame.this.isSome := bound
    simp only [assign, modifyFrame, modify_apply, true_and, if_pos here]

theorem assign_global {name : String} (free : ¬ (name = "this" ∧ m.this.isSome)) (v : Value) :
    assign name v m = .ok () { m with globals := m.globals.insert name v } := by
  obtain ⟨limits, console, classes, heap, frames, operands, slots, globals, executed⟩ := m
  cases frames with
  | nil => rfl
  | cons frame below =>
    have here : ¬ (name = "this" ∧ frame.this.isSome) := free
    simp only [assign, modify_apply, if_neg here]

end Action

namespace Mirrors

theorem step_loadSlot (mirrors : Mirrors g m m') (own : "this" ∉ g) {slot : Nat} {name : String}
    (here : g[slot]? = some name) : Parallel g (step (.loadSlot slot) m) (step (.loadName name) m') := by
  have other : name ≠ "this" := by
    rintro rfl
    exact own (List.mem_of_getElem? here)
  have found : m'.global? name = m'.globals.find? name := rfl
  have pushes : step (.loadName name) m' = goingOn (push ((m.slot? slot).getD .zero)) m' := by
    simp only [step, bind_apply, lookup_apply, if_neg other, Option.none_or, ← found,
      mirrors.named slot name here]
    rfl
  have reads : step (.loadSlot slot) m = goingOn (push ((m.slot? slot).getD .zero)) m := by
    simp only [step, bind_apply, get_apply, Array.getD_eq_getD_getElem?]
    rfl
  rw [pushes, reads]
  exact mirrors.neutral (Neutral.composes.leaves (.value _))

theorem step_storeSlot (mirrors : Mirrors g m m') (distinct : g.Nodup) (own : "this" ∉ g) {slot : Nat}
    {name : String} (here : g[slot]? = some name) :
    Parallel g (step (.storeSlot slot) m) (step (.storeName name) m') := by
  have other : name ≠ "this" := by
    rintro rfl
    exact own (List.mem_of_getElem? here)
  refine Parallel.bind (mirrors.neutral Neutral.composes.peek) fun v m₁ m₁' mirrors₁ => ?_
  simp only [bind_apply, assign_global (fun both => other both.1), modify_apply]
  exact .ok Flow.next (mirrors₁.storeSlot distinct here v)

theorem step_loadName (mirrors : Mirrors g m m') {name : String} (absent : name ∉ g) :
    Parallel g (step (.loadName name) m) (step (.loadName name) m') := by
  have same : m'.globals.find? name = m.globals.find? name := mirrors.others name absent
  simp only [step, bind_apply, lookup_apply, mirrors.this, same]
  exact mirrors.neutral (Neutral.composes.leaves (.value _))

theorem assign (mirrors : Mirrors g m m') {name : String} (absent : name ∉ g) (v : Value) :
    Parallel g (assign name v m) (assign name v m') := by
  by_cases bound : name = "this" ∧ m.this.isSome
  · obtain ⟨rfl, bound⟩ := bound
    rw [assign_this v bound, assign_this v (mirrors.this ▸ bound)]
    exact mirrors.neutral (.modifyFrame (fun _ _ => rfl) fun _ => rfl)
  · rw [assign_global bound, assign_global (mirrors.this ▸ bound)]
    exact .ok () (mirrors.storeName absent v)

theorem step_storeName (mirrors : Mirrors g m m') {name : String} (absent : name ∉ g) :
    Parallel g (step (.storeName name) m) (step (.storeName name) m') := by
  refine Parallel.bind (mirrors.neutral Neutral.composes.peek) fun v m₁ m₁' mirrors₁ =>
    Parallel.bind (mirrors₁.assign absent v) fun _ _ _ mirrors₂ => .ok Flow.next mirrors₂

/-- Any instruction does the same as the one with a name in place of its slot. -/
theorem step (mirrors : Mirrors g m m') (distinct : g.Nodup) (own : "this" ∉ g) {i : Instruction}
    (apart : i.Apart g) : Parallel g (Action.step i m) (Action.step (i.named g) m') := by
  cases i with
  | loadSlot slot =>
    obtain ⟨name, here⟩ := apart.within.exists_name rfl
    rw [Instruction.named, here]
    exact mirrors.step_loadSlot own here
  | storeSlot slot =>
    obtain ⟨name, here⟩ := apart.within.exists_name rfl
    rw [Instruction.named, here]
    exact mirrors.step_storeSlot distinct own here
  | loadName name => exact mirrors.step_loadName (apart.clear name rfl)
  | storeName name => exact mirrors.step_storeName (apart.clear name rfl)
  | _ => exact mirrors.neutral (.step rfl rfl)

/-! ## Cycles -/

/-- A machine without frames mirrors one without frames. -/
theorem idle (mirrors : Mirrors g m m') : Mirrors g { m with frames := [] } { m' with frames := [] } :=
  mirrors.update (fun _ => nofun) rfl mirrors.operands mirrors.executed

theorem fetched (mirrors : Mirrors g m m') {frame : Frame} {below : List Frame}
    (running : m.frames = frame :: below) :
    Mirrors g (fetched m frame below)
      (fetched m' (frame.rewritten (Code.named g)) (below.map (Frame.rewritten (Code.named g)))) := by
  have codes := mirrors.apart.frames
  rw [running, List.forall_mem_cons] at codes
  have next : ∀ f ∈ { frame with next := frame.next + 1 } :: below, f.code.Emits (Instruction.Apart g) :=
    List.forall_mem_cons.2 codes
  exact mirrors.update next rfl mirrors.operands (congrArg (· + 1) mirrors.executed)

end Mirrors

theorem Parallel.closing {r r' : EStateM.Result Failure Machine Flow} (parallel : Parallel g r r') :
    Parallel g (closing r) (closing r') := by
  cases parallel with
  | ok flow mirrors =>
    cases flow with
    | next => exact .ok true mirrors
    | halt => exact .ok true mirrors.idle
  | error f mirrors => exact .error f mirrors

namespace Mirrors

/-- A cycle does the same. -/
theorem cycle (mirrors : Mirrors g m m') (distinct : g.Nodup) (own : "this" ∉ g) :
    Parallel g (cycle m) (cycle m') := by
  have frames := mirrors.frames
  cases running : m.frames with
  | nil =>
    rw [running] at frames
    rw [cycle_idle running, cycle_idle frames]
    exact .ok false mirrors
  | cons frame below =>
    rw [running] at frames
    have codes := mirrors.apart.frames
    rw [running, List.forall_mem_cons] at codes
    have fetch : (frame.rewritten (Code.named g)).code.instructions[frame.next]?
        = frame.code.instructions[frame.next]?.map (Instruction.named g) := Code.getElem?_named _
    cases here : frame.code.instructions[frame.next]? with
    | none =>
      rw [here] at fetch
      rw [cycle_end running here, cycle_end frames fetch]
      refine .ok true (mirrors.update codes.2 rfl ?_ mirrors.executed)
      rw [mirrors.operands, List.isEmpty_map]
      rfl
    | some i =>
      rw [here] at fetch
      -- Both have counted as many instructions, so the limit stops both of them or neither.
      by_cases spare : ∀ limit, m.limits.maxInstructions = some limit → m.executed < limit
      · have spare' : ∀ limit, m'.limits.maxInstructions = some limit → m'.executed < limit := by
          rw [mirrors.limits, mirrors.executed]
          exact spare
        rw [cycle_step running here spare, cycle_step frames fetch spare']
        have apart : i.Apart g := codes.1 i (Array.mem_of_getElem? here)
        exact ((mirrors.fetched running).step distinct own apart).closing
      · obtain ⟨limit, reaches⟩ := Classical.not_forall.1 spare
        obtain ⟨limited, reaches⟩ := Classical.not_imp.1 reaches
        have limited' := (congrArg Limits.maxInstructions mirrors.limits).trans limited
        have spent : limit ≤ m.executed := Nat.le_of_not_lt reaches
        rw [cycle_spent running here limited spent,
          cycle_spent frames fetch limited' (mirrors.executed ▸ spent)]
        exact .error _ (mirrors.fetched running)

/-- Cycles do the same, and each of them starts with machines that mirror each other. -/
theorem cycles (distinct : g.Nodup) (own : "this" ∉ g) (bound : Nat) (mirrors : Mirrors g m m') :
    Parallel g (cycles bound m) (cycles bound m')
    ∧ List.Forall₂ (Mirrors g) (cyclesTrace bound m) (cyclesTrace bound m') := by
  induction bound generalizing m m' with
  | zero => exact ⟨.ok false mirrors, .nil⟩
  | succ bound ih =>
    have first := mirrors.cycle distinct own
    simp only [Action.cycles, bind_apply, cyclesTrace]
    generalize Action.cycle m = result, Action.cycle m' = result' at first
    cases first with
    | ok more after =>
      cases more with
      | true => exact ⟨(ih after).1, .cons mirrors (ih after).2⟩
      | false => exact ⟨.ok true after, .cons mirrors .nil⟩
    | error f after => exact ⟨.error f after, .cons mirrors .nil⟩

end Mirrors

/-! ## Runs -/

/-- What a failure leaves of the same result is the same. -/
theorem Parallel.discarding {size size' : Nat} {r r' : EStateM.Result Failure Machine Bool}
    (parallel : Parallel g r r') (same : size' = size) :
    Parallel g (discarding size r) (discarding size' r') := by
  subst same
  cases parallel with
  | ok ended mirrors => exact .ok ended mirrors
  | error f mirrors =>
    exact .error f (mirrors.update (fun _ => nofun) rfl (congrArg (Operands.truncate · _) mirrors.operands)
      mirrors.executed)

/-- The same results of runs, and machines in front of each cycle that mirror each other. -/
structure Alongside (g : List String) (r r' : EStateM.Result Failure Machine Bool)
    (trace trace' : List Machine) : Prop where
  results : Parallel g r r'
  steps : List.Forall₂ (Mirrors g) trace trace'

namespace Mirrors

/-- A piece of code does the same. -/
theorem execute (distinct : g.Nodup) (own : "this" ∉ g) (bound : Nat) (mirrors : Mirrors g m m')
    {frame : Frame} (apart : frame.code.Emits (Instruction.Apart g)) :
    Alongside g (execute bound frame m) (execute bound (frame.rewritten (Code.named g)) m')
      (executeTrace bound frame m) (executeTrace bound (frame.rewritten (Code.named g)) m') := by
  have depth : m'.frames.length = m.frames.length := by rw [mirrors.frames, List.length_map]
  have most : m'.limits.maxDepth = m.limits.maxDepth := congrArg Limits.maxDepth mirrors.limits
  by_cases room : m.frames.length < m.limits.maxDepth
  · have room' : m'.frames.length < m'.limits.maxDepth := by rwa [depth, most]
    have enters : Mirrors g (entered m frame) (entered m' (frame.rewritten (Code.named g))) :=
      mirrors.update (List.forall_mem_cons.2 ⟨apart, mirrors.apart.frames⟩)
        (congrArg (_ :: ·) mirrors.frames) mirrors.operands mirrors.executed
    obtain ⟨ends, trace⟩ := enters.cycles distinct own bound
    obtain ⟨run, steps⟩ := execute_of_room bound frame room
    obtain ⟨run', steps'⟩ := execute_of_room bound (frame.rewritten (Code.named g)) room'
    exact ⟨run ▸ run' ▸ ends.discarding (congrArg Operands.size mirrors.operands),
      steps ▸ steps' ▸ trace⟩
  -- Neither machine has room for the frame.
  · have full : m.limits.maxDepth ≤ m.frames.length := Nat.le_of_not_lt room
    have full' : m'.limits.maxDepth ≤ m'.frames.length := by rwa [depth, most]
    have fails := Parallel.error (α := Bool) (.callDepth (m.frames.length + 1) m.limits.maxDepth) mirrors
    have left := fails.discarding (congrArg Operands.size mirrors.operands)
    refine ⟨?_, ?_⟩
    · rw [execute_of_full bound full, execute_of_full bound full', depth, most]
      exact left
    · rw [executeTrace, executeTrace, pushFrame_apply, pushFrame_apply, if_pos full, if_pos full']
      exact .nil

/-- Pieces of code one after the other do the same. -/
theorem executeAll (distinct : g.Nodup) (own : "this" ∉ g) (bound : Nat) {frames : List Frame}
    (apart : ∀ frame ∈ frames, frame.code.Emits (Instruction.Apart g)) (mirrors : Mirrors g m m') :
    Alongside g (executeAll bound frames m)
      (executeAll bound (frames.map (Frame.rewritten (Code.named g))) m')
      (executeAllTrace bound frames m)
      (executeAllTrace bound (frames.map (Frame.rewritten (Code.named g))) m') := by
  induction frames generalizing m m' with
  | nil => exact ⟨.ok true mirrors, .nil⟩
  | cons frame rest ih =>
    obtain ⟨here, others⟩ := List.forall_mem_cons.1 apart
    have first := mirrors.execute distinct own bound here
    rw [List.map_cons, executeAll_cons, executeAll_cons, executeAllTrace, executeAllTrace]
    have results := first.results
    generalize Action.execute bound frame m = r,
      Action.execute bound (frame.rewritten (Code.named g)) m' = r' at results
    cases results with
    | ok ended after =>
      cases ended with
      | true =>
        have remaining := ih others after
        exact ⟨remaining.results, List.rel_append first.steps remaining.steps⟩
      | false => exact ⟨.ok false after, List.rel_append first.steps .nil⟩
    | error f after => exact ⟨.error f after, List.rel_append first.steps .nil⟩

end Mirrors

theorem Registry.registerAll_mapBodies {β γ : Type} {f : β → γ} (images : List (ClassImage β))
    (r : Registry β) :
    (images.map (ClassImage.mapBodies f)).foldl register (r.mapBodies f)
      = (images.foldl register r).mapBodies f := by
  induction images generalizing r with
  | nil => rfl
  | cons image rest ih =>
    rw [List.map_cons, List.foldl_cons, List.foldl_cons, register_mapBodies]
    exact ih _

theorem Program.pieces_named (g : List String) (p : Program) :
    (p.named g).pieces = p.pieces.map (Frame.rewritten (Code.named g)) := by
  have sizes : (fun image : ClassImage => decide (image.staticInit.size ≠ 0))
      ∘ ClassImage.mapBodies (Code.named g) = fun image => decide (image.staticInit.size ≠ 0) := by
    funext image
    show decide ((image.staticInit.named g).size ≠ 0) = _
    rw [Code.size_named]
  simp only [pieces, named, Table.values_map, List.filter_map, sizes, List.map_append, List.map_map]
  rfl

theorem Program.Emits.pieces {P : Instruction → Prop} {p : Program} (emits : p.Emits P) :
    ∀ piece ∈ p.pieces, piece.code.Emits P := by
  intro piece member
  rcases List.mem_append.1 member with initializer | main
  · obtain ⟨image, known, rfl⟩ := List.mem_map.1 initializer
    exact (emits.classes image (List.mem_of_mem_filter known)).staticInit
  · obtain rfl := List.mem_singleton.1 main
    exact emits.main

namespace Mirrors

/-- The classes of a program are loaded in both machines. -/
theorem loading (mirrors : Mirrors g m m') {p : Program} (apart : p.Emits (Instruction.Apart g)) :
    Mirrors g (m.loading p) (m'.loading (p.named g)) := by
  refine ⟨?_, mirrors.named, mirrors.others, ⟨⟨?_, mirrors.apart.world.objects⟩, mirrors.apart.frames⟩⟩
  · have classes : (p.named g).classes.values.foldl Registry.register m'.classes
        = (p.classes.values.foldl Registry.register m.classes).mapBodies (Code.named g) := by
      rw [mirrors.same]
      simp only [Program.named, Table.values_map]
      exact Registry.registerAll_mapBodies _ _
    rw [Machine.loading, classes, mirrors.same]
    rfl
  · exact Registry.all_registerAll mirrors.apart.world.classes apart.classes

/-- A program does the same. -/
theorem run (distinct : g.Nodup) (own : "this" ∉ g) (bound : Nat) {p : Program}
    (apart : p.Emits (Instruction.Apart g)) (mirrors : Mirrors g m m') :
    Alongside g (run bound p m) (run bound (p.named g) m') (runTrace bound p m)
      (runTrace bound (p.named g) m') := by
  rw [run_eq, run_eq, runTrace, runTrace, Program.pieces_named]
  exact (mirrors.loading apart).executeAll distinct own bound apart.pieces

end Mirrors

end Monogram
