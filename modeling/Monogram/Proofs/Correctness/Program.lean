import Monogram.Proofs.Correctness.Body

/-! # Code of programs follows their evaluation

* `Executes` — pieces that run as an evaluation goes.
* `Names.evaluate_executes` — the pieces of a lowered program run as the evaluation of its statements.
-/

namespace Monogram

open Monogram.Action

/-! ## Runs that go as an evaluation does -/

/-- The run of pieces meets a limit on resources. -/
def MeetsLimit (frames : List Frame) (m : Machine) : Prop :=
  ∃ f m', f.isLimit ∧ Comes frames m (.error f m')

/-- The run of pieces, if it meets no limit, goes as an evaluation does. -/
def Executes (frames : List Frame) (n : Nat) (m : Machine) : Ending Body Unit → Prop
  | .done _ scene => MeetsLimit frames m ∨ ∃ m', Comes frames m (.ok true m') ∧ Idles scene m'
  | .raised v scene =>
    MeetsLimit frames m
      ∨ ∃ m', Comes frames m (.error (.uncaught (scene.heap.display v)) m') ∧ Idles scene m'
  | .faulted f scene =>
    MeetsLimit frames m ∨ ∃ m', Comes frames m (.error (.fault f) m') ∧ Idles scene m'
  | .unfinished => MeetsLimit frames m ∨ ∃ m', executeAll n frames m = .ok false m'

namespace Executes

variable {frame : Frame} {frames : List Frame} {n : Nat} {m : Machine}

theorem of_limit {e : Ending Body Unit} (limit : MeetsLimit frames m) : Executes frames n m e := by
  cases e <;> exact .inl limit

/-- Behind a piece that has ended, the evaluation goes as the later pieces do. -/
theorem after {m' : Machine} {e : Ending Body Unit} (front : Comes [frame] m (.ok true m'))
    (rest : Executes frames n m' e) : Executes (frame :: frames) n m e := by
  have later : MeetsLimit frames m' → MeetsLimit (frame :: frames) m :=
    fun ⟨f, last, limit, comes⟩ => ⟨f, last, limit, front.cons comes⟩
  cases e with
  | done b scene => exact rest.imp later fun ⟨last, comes, idles⟩ => ⟨last, front.cons comes, idles⟩
  | raised v scene => exact rest.imp later fun ⟨last, comes, idles⟩ => ⟨last, front.cons comes, idles⟩
  | faulted f scene =>
    exact rest.imp later fun ⟨last, comes, idles⟩ => ⟨last, front.cons comes, idles⟩
  | unfinished => exact rest.imp later fun ⟨last, running⟩ => front.running running

theorem cons {p : Eval Body Unit} {q : Unit → Eval Body Unit} {scene : Scene Body}
    (first : Executes [frame] n m (p scene))
    (others : ∀ scene m', Idles scene m' → Executes frames n m' (q () scene)) :
    Executes (frame :: frames) n m ((p >>= q) scene) := by
  have limited : MeetsLimit [frame] m → MeetsLimit (frame :: frames) m :=
    fun ⟨f, m', limit, comes⟩ => ⟨f, m', limit, comes.cons_error⟩
  rw [Eval.bind_apply]
  cases ending : p scene with
  | done a scene =>
    rw [ending] at first
    rcases first with limit | ⟨m', comes, idles⟩
    · exact .of_limit (limited limit)
    · exact (others scene m' idles).after comes
  | raised v scene =>
    rw [ending] at first
    exact first.imp limited fun ⟨m', comes, idles⟩ => ⟨m', comes.cons_error, idles⟩
  | faulted f scene =>
    rw [ending] at first
    exact first.imp limited fun ⟨m', comes, idles⟩ => ⟨m', comes.cons_error, idles⟩
  | unfinished =>
    rw [ending] at first
    exact first.imp limited fun ⟨m', running⟩ => ⟨m', executeAll_of_running running frames⟩

end Executes

/-! ## One piece -/

/-- The site of a piece that starts on a machine at rest. -/
def Site.top (code : Code) (kind : FrameKind) (m : Machine) : Site :=
  ⟨code, kind, [], [], m.operands.items⟩

theorem HitsLimit.meets {frame : Frame} {m : Machine} (room : m.frames.length < m.limits.maxDepth)
    (hits : HitsLimit (entered m frame)) : MeetsLimit [frame] m := by
  obtain ⟨k, mid, f, m', steps, failed, limit⟩ := hits
  exact ⟨f, _, limit, .of_failure room steps failed⟩

/-- A piece runs as an evaluation that its frame follows to the end. -/
theorem Follows.executes {α : Type} {code : Code} {kind : FrameKind} {n : Nat} {m : Machine}
    {scene : Scene Body} {p : Eval Body α}
    (follows : Follows (.top code kind m) n (entered m (.start code kind none))
      (fun _ => Idles) (p { scene with this := none })) :
    Executes [.start code kind none] n m
      ((do let _ ← Eval.within none p; return () : Eval Body Unit) scene) := by
  by_cases full : m.limits.maxDepth ≤ m.frames.length
  · exact .of_limit ⟨_, _, rfl, .of_execute (execute_of_full 0 full) trivial⟩
  have room : m.frames.length < m.limits.maxDepth := Nat.not_le.1 full
  rw [Eval.bind_apply]
  unfold Eval.within
  cases ending : p { scene with this := none } with
  | done a after =>
    rw [ending] at follows
    rcases follows with hits | ⟨k, m', steps, idles⟩
    · exact .of_limit (hits.meets room)
    · exact .inr ⟨m', .of_idle room steps idles.1, idles.1, ⟨idles.2.world, idles.2.lowers⟩⟩
  | raised v after =>
    rw [ending] at follows
    rcases follows with hits | ⟨k, m', steps, m₀, gone, next, junk, raising, frames, bare, -, shows⟩
    · exact .of_limit (hits.meets room)
    -- No frame above the piece has a handler, and neither has the piece, so the value goes uncaught.
    · have unhandled : findHandler m₀.frames = none := by
        rw [frames, findHandler_append bare]
        rfl
      rw [goingOn, bind_apply, raiseValue_of_none unhandled] at raising
      have heap : m₀.heap = after.heap.mapBodies Body.code := congrArg World.heap shows.world
      have shown : m₀.heap.display v = after.heap.display v := by
        rw [heap, Heap.display_mapBodies Body.code_default]
      rw [shown] at raising
      exact .inr ⟨_, .of_failure room steps raising, rfl, ⟨shows.world, shows.lowers⟩⟩
  | faulted f after =>
    rw [ending] at follows
    rcases follows with hits | ⟨k, m', steps, last, failed, shows⟩
    · exact .of_limit (hits.meets room)
    · exact .inr ⟨_, .of_failure room steps failed, rfl, ⟨shows.world, shows.lowers⟩⟩
  | unfinished =>
    rw [ending] at follows
    rcases follows with hits | ⟨m', steps⟩
    · exact .of_limit (hits.meets room)
    · have running : cycles n (entered m (.start code kind none)) = .ok false m' := by
        have counted := steps.cycles_eq 0
        exact counted
      refine .inr ⟨m', ?_⟩
      rw [executeAll_cons, execute_of_ok room running]

/-! ## Static initializers -/

theorem evalStatics_of_empty (enter : Enter) (names : Names) (id : ClassId) :
    ∀ fields : List VarDecl, lowerStaticInit names id fields = .ok [] →
      evalStatics enter names id fields = pure ()
  | [], _ => rfl
  | d :: rest, lowered => by
    simp only [lowerStaticInit] at lowered
    simp only [evalStatics]
    cases isStatic : d.isStatic with
    | false =>
      rw [isStatic] at lowered
      exact evalStatics_of_empty enter names id rest lowered
    | true =>
      cases initializer : d.initializer with
      | none =>
        rw [isStatic, initializer] at lowered
        exact evalStatics_of_empty enter names id rest lowered
      | some e =>
        rw [isStatic, initializer] at lowered
        obtain ⟨value, -, lowered⟩ := Except.bind_eq_ok lowered
        obtain ⟨others, -, lowered⟩ := Except.bind_eq_ok lowered
        cases lowered

/-- A body without instructions does nothing. -/
theorem Body.value_of_empty {b : Body} (lowers : b.Lowers) (empty : b.code.size = 0) (enter : Enter)
    (rounds : Nat) : b.value enter rounds = pure .nil := by
  obtain ⟨instructions, lowered⟩ := lowers
  rw [Body.code_of_lower lowered] at empty
  obtain rfl : instructions = [] := List.eq_nil_of_length_eq_zero empty
  cases b with
  | method names statements =>
    obtain ⟨⟨body, names'⟩, -, lowered⟩ := Except.bind_eq_ok lowered
    -- A method ends in a return, so its code is not empty.
    have none : methodInstructions body = [] := by injection lowered
    unfold methodInstructions at none
    split at none
    · next returns =>
      rw [none] at returns
      cases returns
    · simp [implicitReturn] at none
  | statics names id fields =>
    funext scene
    simp only [Body.value, evalStatics_of_empty enter names id fields lowered]
    rfl

theorem Eval.bind_assoc {β α γ δ : Type} (p : Eval β α) (q : α → Eval β γ) (r : γ → Eval β δ) :
    ((p >>= q) >>= r) = (p >>= fun a => q a >>= r) := by
  funext scene
  simp only [Eval.bind_apply]
  cases p scene <;> rfl

variable {n : Nat} {enter : Enter}

/-- The pieces of classes run as their static initializers, if what comes behind does so. -/
theorem evalInitializers_executes (entering : EnterFollows n enter) {frames : List Frame}
    {q : Eval Body Unit}
    (behind : ∀ scene m, Idles scene m → Executes frames (n + 1) m (q scene)) :
    ∀ (images : List (ClassImage Body)), (∀ c ∈ images, c.staticInit.Lowers) →
      ∀ scene m, Idles scene m →
      Executes (((images.map (ClassImage.mapBodies Body.code)).filter
          fun image => image.staticInit.size ≠ 0).map
            (fun image => .start image.staticInit .staticInit none) ++ frames) (n + 1) m
        ((evalInitializers enter (n + 1) images >>= fun _ => q) scene)
  | [], _, scene, m, idles => behind scene m idles
  | c :: rest, lower, scene, m, idles => by
    have others := evalInitializers_executes entering behind rest
      fun c member => lower c (List.mem_cons_of_mem _ member)
    have lowers := lower c (List.mem_cons_self ..)
    simp only [evalInitializers, Eval.bind_assoc]
    -- An initializer without code is no piece; then its evaluation does nothing.
    by_cases empty : c.staticInit.code.size = 0
    · have skipped : ((c.mapBodies Body.code).staticInit.size ≠ 0) = False := by
        simpa [ClassImage.mapBodies] using empty
      simp only [List.map_cons, List.filter_cons, skipped, decide_false, Bool.false_eq_true, if_false,
        Body.value_of_empty lowers empty]
      exact others scene m idles
    · have kept : ((c.mapBodies Body.code).staticInit.size ≠ 0) = True := by
        simpa [ClassImage.mapBodies] using empty
      simp only [List.map_cons, List.filter_cons, kept, decide_true, if_true, List.cons_append]
      have here : At (.top c.staticInit.code .staticInit m) 0 { scene with this := none }
          (entered m (.start c.staticInit.code .staticInit none)) :=
        ⟨congrArg (_ :: ·) idles.1, rfl, ⟨idles.2.world, idles.2.lowers⟩⟩
      have follows := (Body.value_follows entering (Nat.le_refl _) lowers rfl here).onward
        fun v scene m concludes => (concludes.idles rfl).reaches
      have first : Executes [.start c.staticInit.code .staticInit none] (n + 1) m
          ((do let _ ← Eval.within none (c.staticInit.value enter (n + 1)); return () : Eval Body Unit)
            scene) := follows.executes
      -- The piece of this class runs first, and what it leaves is what the others start on.
      have both := first.cons (q := fun _ => evalInitializers enter (n + 1) rest >>= fun _ => q) others
      rw [Eval.bind_assoc] at both
      exact both

/-! ## Statements at the top -/

theorem execTop_follows (entering : EnterFollows n enter) :
    ∀ (statements : List Stmt) {classes : Table ClassImage} {names names' : Names} {top : TopCode}
      {site : Site} {place address : Nat} {scene : Scene Body} {m : Machine},
      lowerTop statements classes address names = .ok (top, names') →
      At site place scene m → Seg site.code address top.code → place = address →
      Follows site (n + 1) m (Completes site (address + top.code.length))
        (execTop enter (n + 1) statements names scene)
  | [], _, _, _, _, _, _, _, _, _, lowered, here, _, start => by
    cases lowered
    exact Reaches.here (here.moved start)
  | s :: rest, classes, names, names', top, site, place, address, scene, m, lowered, here, seg,
      start => by
    cases s with
    | classDecl d =>
      simp only [lowerTop] at lowered
      simp only [execTop]
      cases kind : d.isInterface with
      | true =>
        rw [kind, if_pos rfl] at lowered
        exact execTop_follows entering rest lowered here seg start
      | false =>
        rw [kind, if_neg Bool.false_ne_true] at lowered
        obtain ⟨⟨image, names₁⟩, first, lowered⟩ := Except.bind_eq_ok lowered
        obtain ⟨-, -, rfl⟩ := ClassDecl.lower_eq first
        exact execTop_follows entering rest lowered here seg start
    | _ =>
      obtain ⟨⟨code, names₁⟩, first, lowered⟩ := Except.bind_eq_ok lowered
      obtain ⟨⟨others, names₂⟩, second, lowered⟩ := Except.bind_eq_ok lowered
      cases lowered
      -- The names behind the statement are the same for the code and for the evaluation.
      have known := Stmt.lower_names _ first
      refine (Stmt.follows entering (Nat.le_refl _) _ first here seg.left start).bind
        fun completion scene m completes => ?_
      cases completion with
      | normal =>
        have done := execTop_follows entering rest (known ▸ second) completes seg.right rfl
        exact done.moved (by simp; omega)
      | returned v => exact Reaches.here completes

/-! ## Programs -/

theorem register_images (images : List (ClassImage Body)) {trees : Registry Body}
    {classes : Registry} (same : classes = trees.mapBodies Body.code) :
    (images.map (ClassImage.mapBodies Body.code)).foldl Registry.register classes
      = (images.foldl Registry.register trees).mapBodies Body.code := by
  induction images generalizing trees classes with
  | nil => exact same
  | cons c rest ih => exact ih (by rw [same, Registry.register_mapBodies])

/-- The classes of a lowered program are the images of the trees of its classes. -/
theorem Names.lowerProgram_trees {names names' : Names} {statements : List Stmt} {p : Program}
    (lowered : names.lowerProgram statements = .ok (p, names')) :
    p.classes.values
        = (classTrees statements ∅ (names.addClasses statements)).values.map
            (ClassImage.mapBodies Body.code)
      ∧ ∀ c ∈ (classTrees statements ∅ (names.addClasses statements)).values, c.All Body.Lowers := by
  obtain ⟨⟨top, names₁⟩, first, lowered⟩ := Except.bind_eq_ok lowered
  cases lowered
  obtain ⟨images, lower⟩ := lowerTop_classes statements .empty first
  exact ⟨(congrArg Table.values images).trans (Table.values_map ..), lower⟩

/-- A machine on which a program is loaded, and the scene in which its classes are. -/
theorem Idles.loading {names names' : Names} {statements : List Stmt} {p : Program}
    (lowered : names.lowerProgram statements = .ok (p, names')) {scene : Scene Body} {m : Machine}
    (idles : Idles scene m) :
    Idles { scene with
      classes := (classTrees statements ∅ (names.addClasses statements)).values.foldl
        Registry.register scene.classes } (m.loading p) := by
  obtain ⟨images, lower⟩ := Names.lowerProgram_trees lowered
  have classes : m.classes = scene.classes.mapBodies Body.code :=
    congrArg World.classes idles.2.world
  refine ⟨idles.1, ?_, Registry.all_registerAll idles.2.lowers.classes lower, idles.2.lowers.objects⟩
  have world := idles.2.world
  have registered := register_images
    (classTrees statements ∅ (names.addClasses statements)).values classes
  rw [← images] at registered
  exact (congrArg (fun classes => { m.world with classes }) registered).trans (by rw [world])

/-- The pieces of a lowered program run as the evaluation of its statements. -/
theorem Names.evaluate_executes {names names' : Names} {statements : List Stmt} {p : Program}
    (lowered : names.lowerProgram statements = .ok (p, names')) (bound : Nat) {scene : Scene Body}
    {m : Machine} (idles : Idles scene m) :
    Executes p.pieces (bound + 1) (m.loading p) (names.evaluate statements bound scene) := by
  have loaded := idles.loading lowered
  obtain ⟨images, lower⟩ := lowerProgram_trees lowered
  obtain ⟨⟨top, names₁⟩, first, lowered⟩ := Except.bind_eq_ok lowered
  cases lowered
  have entering := Body.enter_follows bound
  have main : ∀ scene m, Idles scene m →
      Executes [.start (Code.ofInstructions (top.code ++ [.halt])) .main none] (bound + 1) m
        ((do let _ ← Eval.within none (execTop (Body.enter bound) (bound + 1) statements
              (names.addClasses statements)); return () : Eval Body Unit) scene) := by
    intro scene m idles
    let site := Site.top (Code.ofInstructions (top.code ++ [.halt])) .main m
    have seg : Seg site.code 0 (top.code ++ [.halt]) := Seg.whole _
    have here : At site 0 { scene with this := none } (entered m (.start site.code .main none)) :=
      ⟨congrArg (_ :: ·) idles.1, rfl, ⟨idles.2.world, idles.2.lowers⟩⟩
    refine Follows.executes
      ((execTop_follows entering statements first here seg.left rfl).onward ?_)
    intro completion scene m completes
    cases completion with
    -- Statements that complete come to the halt; a return at the top ends the frame before it.
    | normal =>
      have stopped : At site _ scene m := completes
      rcases hits_or_cycles stopped.frames seg.right.head with hits | cycled
      · exact .inl hits
      · exact .inr ⟨1, _, .one cycled, rfl, ⟨stopped.shows.world, stopped.shows.lowers⟩⟩
    | returned v => exact (Concludes.idles (.inl completes) rfl).reaches
  have all := evalInitializers_executes entering main
    (classTrees statements ∅ (names.addClasses statements)).values
    (fun c member => (lower c member).staticInit) _ _ loaded
  rw [← images] at all
  exact all

end Monogram
