import Monogram.Proofs.Correctness.Statement

/-! # Code of bodies follows their evaluation

* `Leaves` — where a machine is when a frame has given its value to the frame below.
* `Body.enter_follows` — entering a body is followed by the frame that starts with its code.
-/

namespace Monogram

open Monogram.Action

variable {enter : Enter} {n rounds : Nat}

/-! ## The end of a frame -/

/-- The machine is about to end the frame at the site, whose value is `v`. -/
def Concludes (site : Site) (v : Value) (scene : Scene Body) (m : Machine) : Prop :=
  GivesBack site v scene m
    ∨ v = .nil ∧ ∃ next, At site next scene m ∧ site.code.instructions[next]? = none

/-- The frame at the site has ended, and its caller has got a value. -/
def Leaves (site : Site) (v : Value) (scene : Scene Body) (m : Machine) : Prop :=
  m.frames = site.below ∧ m.operands = ⟨v :: site.base⟩ ∧ Shows scene m

/-- No frame is left. -/
def Idles (scene : Scene Body) (m : Machine) : Prop :=
  m.frames = [] ∧ Shows scene m

namespace Concludes

variable {site : Site} {v : Value} {scene : Scene Body} {m : Machine}

theorem leaves (h : Concludes site v scene m) (called : site.below ≠ [])
    (value : site.kind.givesValue) : Advances m (Leaves site v scene) := by
  rcases h with ⟨next, handlers, frames, found, operands, shows⟩ | ⟨rfl, next, here, ended⟩
  · refine advances_of_step frames found (step_giveBack rfl v operands)
      ⟨rfl, ?_, ⟨shows.world, shows.lowers⟩⟩
    simp [called]
  · refine .inr ⟨_, cycle_end here.frames ended, rfl, ?_, ⟨here.shows.world, here.shows.lowers⟩⟩
    have given : site.kind.givesValue && !site.below.isEmpty := by simp [value, called]
    change (if site.kind.givesValue && !site.below.isEmpty then _ else _) = _
    rw [if_pos given, here.operands]
    rfl

theorem idles (h : Concludes site v scene m) (top : site.below = []) :
    Advances m (Idles scene) := by
  rcases h with ⟨next, handlers, frames, found, operands, shows⟩ | ⟨rfl, next, here, ended⟩
  · exact advances_of_step frames found (step_giveBack rfl v operands)
      ⟨top, ⟨shows.world, shows.lowers⟩⟩
  · exact .inr ⟨_, cycle_end here.frames ended, top, ⟨here.shows.world, here.shows.lowers⟩⟩

end Concludes

/-- A method that does not end in a return gives nil back, on every path that gets to its end. -/
theorem At.concludes_method {site : Site} {body : List Instruction} {scene : Scene Body}
    {m : Machine} (code : site.code = Code.ofInstructions (methodInstructions body))
    (here : At site body.length scene m) : Reaches m (Concludes site .nil scene) := by
  unfold methodInstructions at code
  -- Code that ends in a return has no instruction behind it, so the frame ends by running off it.
  by_cases returns : endsWithReturn body
  · rw [if_pos returns] at code
    refine Reaches.here (.inr ⟨rfl, _, here, ?_⟩)
    rw [code]
    simp [Code.ofInstructions]
  · rw [if_neg returns] at code
    have seg : Seg site.code 0 (body ++ implicitReturn) := code ▸ Seg.whole _
    have pushed : Follows site 0 m _ ((pure .nil : Eval Body Value) scene) :=
      here.plain [] seg.right.head rfl rfl rfl (Nat.zero_add _).symm rfl
    exact Reaches.mono pushed fun m here => .inl
      ⟨_, site.handlers, here.frames, seg.right.tail.head, here.operands, here.shows⟩

/-! ## Static fields -/

theorem evalStatics_follows (entering : EnterFollows n enter) (names : Names) (id : ClassId) :
    ∀ (fields : List VarDecl) {code : List Instruction} {site : Site} {place next : Nat}
      {scene : Scene Body} {m : Machine}, lowerStaticInit names id fields = .ok code →
      At site place scene m → Seg site.code next code → place = next →
      Follows site (n + 1) m (fun _ => At site (next + code.length))
        (evalStatics enter names id fields scene)
  | [], _, _, _, _, _, _, lowered, here, _, start => by
    cases lowered
    exact Reaches.here (here.moved start)
  | d :: rest, code, site, place, next, scene, m, lowered, here, seg, start => by
    simp only [lowerStaticInit] at lowered
    simp only [evalStatics]
    cases isStatic : d.isStatic with
    | false =>
      rw [isStatic] at lowered
      exact evalStatics_follows entering names id rest lowered here seg start
    | true =>
      cases initializer : d.initializer with
      | none =>
        rw [isStatic, initializer] at lowered
        exact evalStatics_follows entering names id rest lowered here seg start
      | some e =>
        rw [isStatic, initializer] at lowered
        obtain ⟨value, first, lowered⟩ := Except.bind_eq_ok lowered
        obtain ⟨others, second, lowered⟩ := Except.bind_eq_ok lowered
        cases lowered
        have owner : Follows site (n + 1) m _ ((pure (.classRef id) : Eval Body Value) scene) :=
          here.plain [] seg.left.left.head rfl rfl rfl start rfl
        refine owner.bind (q := fun c => e.eval enter names >>= fun v =>
          Eval.storeStatic c d.name v >>= fun _ => evalStatics enter names id rest)
          fun c scene m here => ?_
        refine (e.follows entering names first here seg.left.left.tail rfl).of_above.bind
          fun v scene m here => ?_
        have stored : Follows site (n + 1) m _ (Eval.storeStatic c d.name v scene) :=
          here.dropping [c, v] seg.left.right rfl rfl rfl (by simp; omega) rfl
        refine stored.bind fun _ scene m here => ?_
        have done := evalStatics_follows entering names id rest second here seg.right
          (by simp; omega)
        refine done.onward fun _ scene m here => Reaches.here (here.moved (by simp; omega))

/-! ## Bodies -/

/-- The code of a body gets to the end of its frame. -/
theorem Body.value_follows (entering : EnterFollows n enter) (enough : n + 1 ≤ rounds) {b : Body}
    (lowers : b.Lowers) {site : Site} {scene : Scene Body} {m : Machine} (code : site.code = b.code)
    (here : At site 0 scene m) : Follows site (n + 1) m (Concludes site) (b.value enter rounds scene) := by
  obtain ⟨instructions, lowered⟩ := lowers
  have same := code.trans (Body.code_of_lower lowered)
  cases b with
  | method names statements =>
    obtain ⟨⟨body, names'⟩, first, lowered⟩ := Except.bind_eq_ok lowered
    cases lowered
    have seg : Seg site.code 0 body := by
      rw [same]
      unfold methodInstructions
      split
      · exact Seg.whole body
      · exact (Seg.whole _).left
    refine (execBlock_follows entering enough statements first here seg rfl).bind
      fun completion scene m completes => ?_
    cases completion with
    | normal => exact At.concludes_method same (completes.moved (Nat.zero_add _))
    | returned v => exact Reaches.here (.inl completes)
  | statics names id fields =>
    have seg : Seg site.code 0 instructions := same ▸ Seg.whole instructions
    refine (evalStatics_follows entering names id fields lowered here seg rfl).bind
      fun _ scene m here => ?_
    refine Reaches.here (.inr ⟨rfl, _, here, ?_⟩)
    rw [same]
    simp [Code.ofInstructions]

/-- The site of a frame that a call starts, where the caller goes on at `next`. -/
def Site.called (site : Site) (next : Nat) (caller : Option Value) (code : Code)
    (this : Option Value) : Site :=
  ⟨code, calledKind this, [], site.frame next caller :: site.below, site.base⟩

/-- What happens in a frame that a call has started, seen from the caller. -/
theorem Follows.within {site : Site} {next : Nat} {this : Option Value} {scene : Scene Body}
    {m : Machine} {p : Eval Body Value} (code : Code)
    (inner : Follows (site.called next scene.this code this) n m
      (Leaves (site.called next scene.this code this)) (p { scene with this })) :
    Follows site n m (fun v => At (site.above [v]) next) (Eval.within this p scene) := by
  unfold Eval.within
  cases ending : p { scene with this } with
  | done v after =>
    rw [ending] at inner
    exact Reaches.mono inner fun m ⟨frames, operands, shows⟩ =>
      ⟨frames, operands, ⟨shows.world, shows.lowers⟩⟩
  -- The frame that was called has no handler left, so it is one more to pass over.
  | raised v after =>
    rw [ending] at inner
    refine Reaches.mono inner fun m raises => ?_
    obtain ⟨m₀, gone, inside, junk, raising, frames, bare, operands, shows⟩ := raises
    refine ⟨m₀, gone ++ [⟨code, inside, after.this, [], calledKind this⟩], next, junk, raising, ?_, ?_,
      operands, ⟨shows.world, shows.lowers⟩⟩
    · rw [frames, List.append_assoc]
      rfl
    · intro frame member
      rcases List.mem_append.1 member with member | member
      · exact bare frame member
      · rw [List.mem_singleton.1 member]
  | faulted f after =>
    rw [ending] at inner
    exact Reaches.mono inner fun m ⟨m', failed, shows⟩ =>
      ⟨m', failed, ⟨shows.world, shows.lowers⟩⟩
  | unfinished =>
    rw [ending] at inner
    exact inner

theorem Body.enter_follows : ∀ depth, EnterFollows depth (Body.enter depth)
  | 0 => fun _ _ _ _ _ m _ _ _ _ => RunsFor.zero m
  | depth + 1 => by
    intro b this site next scene m lowers frames operands shows
    refine Follows.within b.code ?_
    have here : At (site.called next scene.this b.code this) 0 { scene with this } m :=
      ⟨frames, operands, ⟨shows.world, shows.lowers⟩⟩
    -- The body enters others with one level of depth less, which is where the recursion goes.
    have follows := Body.value_follows (Body.enter_follows depth) (Nat.le_refl _) lowers rfl here
    refine follows.onward fun v scene m concludes => ?_
    refine (concludes.leaves (List.cons_ne_nil _ _) ?_).reaches
    cases this <;> rfl

end Monogram
