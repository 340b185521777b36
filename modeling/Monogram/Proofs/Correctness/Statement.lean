import Monogram.Proofs.Correctness.Expression

/-! # Code of statements follows their execution

* `Completes` — where a machine is when a statement has completed.
* `Stmt.follows`, `execBlock_follows` — a statement's code completes as the statement does.
-/

namespace Monogram

open Monogram.Action

/-- The machine is about to give a value back to the frame below the site. -/
def GivesBack (site : Site) (v : Value) (scene : Scene Body) (m : Machine) : Prop :=
  ∃ next handlers, m.frames = { site.frame next scene.this with handlers } :: site.below
    ∧ site.code.instructions[next]? = some .giveBack ∧ m.operands = ⟨v :: site.base⟩ ∧ Shows scene m

/-- Where the machine is when a statement whose code ends at `stop` has completed. -/
def Completes (site : Site) (stop : Nat) : Completion → Scene Body → Machine → Prop
  | .normal => At site stop
  | .returned v => GivesBack site v

theorem GivesBack.of_guarded {site : Site} {target : Nat} {v : Value} {scene : Scene Body}
    {m : Machine} (h : GivesBack (site.guarded target) v scene m) : GivesBack site v scene m := h

theorem Completes.moved {site : Site} {stop stop' : Nat} {completion : Completion}
    {scene : Scene Body} {m : Machine} (h : Completes site stop completion scene m)
    (same : stop = stop') : Completes site stop' completion scene m := same ▸ h

theorem Follows.moved {site : Site} {n stop stop' : Nat} {m : Machine} {e : Ending Body Completion}
    (h : Follows site n m (Completes site stop) e) (same : stop = stop') :
    Follows site n m (Completes site stop') e := same ▸ h

variable {enter : Enter} {n rounds : Nat}

theorem evalOptional_follows (entering : EnterFollows n enter) (names : Names) (value : Option Expr)
    {code : List Instruction} {site : Site} {next : Nat} {scene : Scene Body} {m : Machine}
    (lowered : lowerOptional names value = .ok code) (here : At site next scene m)
    (seg : Seg site.code next code) :
    Follows site (n + 1) m (fun v => At (site.above [v]) (next + code.length))
      (evalOptional enter names value scene) := by
  cases value with
  | some e => exact e.follows entering names lowered here seg rfl
  | none =>
    cases lowered
    exact here.plain [] seg.head rfl rfl rfl rfl rfl

/-- A choice by the truth of a value that lies on top. -/
theorem At.branch {α : Type} {site : Site} {next target : Nat} {scene : Scene Body} {m : Machine}
    {condition : Value} {good : α → Scene Body → Machine → Prop} {yes no : Eval Body α}
    (here : At (site.above [condition]) next scene m)
    (found : site.code.instructions[next]? = some (.jumpIfFalse target))
    (holds : ∀ m, At site (next + 1) scene m → Follows site n m good (yes scene))
    (fails : ∀ m, At site target scene m → Follows site n m good (no scene)) :
    Follows site n m good
      ((do if ← Eval.truthy condition then yes else no : Eval Body α) scene) := by
  have chosen : (do if ← Eval.truthy condition then yes else no : Eval Body α) scene
      = if scene.heap.truthy condition then yes scene else no scene := by
    change (if scene.heap.truthy condition then yes else no) scene = _
    split <;> rfl
  rw [chosen]
  refine Follows.prepend_reaches (here.jumpIfFalse found).reaches fun m here => ?_
  split
  · next truth =>
    rw [if_pos truth] at here
    exact holds m here
  · next truth =>
    rw [if_neg truth] at here
    exact fails m here

/-- Rounds of a loop: each of them, unless it completes the loop, gets to the jump back. -/
theorem repeatUntil_follows {site : Site} {start again stop : Nat}
    {once : Eval Body (Option Completion)}
    (back : site.code.instructions[again]? = some (.jump start))
    (round : ∀ scene m, At site start scene m →
      Follows site n m (fun result scene m => match result with
        | none => At site again scene m
        | some completion => Completes site stop completion scene m) (once scene))
    (rounds : Nat) {scene : Scene Body} {m : Machine} (here : At site start scene m) :
    Follows site (min n rounds) m (Completes site stop) (Eval.repeatUntil once rounds scene) := by
  -- The jump back is one cycle, so every round that the evaluation has begun takes one cycle at least.
  induction rounds generalizing scene m with
  | zero => exact (RunsFor.zero m).mono (by omega)
  | succ rounds ih =>
    refine ((round scene m here).fewer (Nat.min_le_left n (rounds + 1))).bind
      fun result scene m reached => ?_
    cases result with
    | some completion => exact Reaches.here reached
    | none =>
      rcases reached.jump back with hits | ⟨m', first, here⟩
      · exact .of_hits hits
      · exact (Follows.step first (ih here)).fewer (by omega)

mutual

theorem Stmt.follows (entering : EnterFollows n enter) (enough : n + 1 ≤ rounds) :
    ∀ (s : Stmt) {names names' : Names} {code : List Instruction} {site : Site} {place next : Nat}
      {scene : Scene Body} {m : Machine}, s.lower next names = .ok (code, names') →
      At site place scene m → Seg site.code next code → place = next →
      Follows site (n + 1) m (Completes site (next + code.length))
        (s.exec enter rounds names scene)
  | .expression e, names, _, _, site, place, next, scene, m, lowered, here, seg, start => by
    obtain ⟨code, first, lowered⟩ := Except.bind_eq_ok lowered
    cases lowered
    refine (e.follows entering names first here seg.left start).bind fun v scene m here => ?_
    refine Follows.prepend_reaches (here.pop seg.right.head).reaches fun m here => ?_
    exact Reaches.here (here.moved (by simp; omega))
  | .declare decl, names, _, _, site, place, next, scene, m, lowered, here, seg, start => by
    subst start
    obtain ⟨code, first, lowered⟩ := Except.bind_eq_ok lowered
    obtain ⟨⟨slot, names₁⟩, second, lowered⟩ := Except.bind_eq_ok lowered
    cases lowered
    obtain ⟨rfl, -⟩ := Names.declare_eq second
    refine (evalOptional_follows entering names decl.initializer first here seg.left).bind
      fun v scene m here => ?_
    have stored : Follows site (n + 1) m _ (Eval.writeSlot _ v scene) :=
      here.dropping [v] seg.right rfl rfl rfl rfl rfl
    refine stored.bind fun _ scene m here => ?_
    exact Reaches.here (here.moved (by simp; omega))
  | .block body, names, _, _, site, place, next, scene, m, lowered, here, seg, start =>
    execBlock_follows entering enough body lowered here seg start
  | .ifThen condition yes, names, _, _, site, place, next, scene, m, lowered, here, seg, start => by
    obtain ⟨test, first, lowered⟩ := Except.bind_eq_ok lowered
    obtain ⟨⟨yesCode, names₁⟩, second, lowered⟩ := Except.bind_eq_ok lowered
    cases lowered
    refine (condition.follows entering names first here seg.left start).bind
      fun v scene m here => ?_
    -- Where the condition fails the machine is behind the statement at once.
    refine here.branch seg.right.head (fun m here => ?_) fun m here => ?_
    · exact (yes.follows entering enough second here seg.right.tail rfl).moved (by simp; omega)
    · exact Reaches.here (here.moved (by simp; omega))
  | .ifElse condition yes no, names, _, _, site, place, next, scene, m, lowered, here, seg, start => by
    obtain ⟨test, first, lowered⟩ := Except.bind_eq_ok lowered
    obtain ⟨⟨yesCode, names₁⟩, second, lowered⟩ := Except.bind_eq_ok lowered
    obtain ⟨⟨noCode, names₂⟩, third, lowered⟩ := Except.bind_eq_ok lowered
    cases lowered
    obtain rfl := yes.lower_names second
    refine (condition.follows entering names first here seg.left.left start).bind
      fun v scene m here => ?_
    refine here.branch seg.left.right.head (fun m here => ?_) fun m here => ?_
    · have done := yes.follows entering enough second here seg.left.right.tail rfl
      refine done.onward fun completion scene m completes => ?_
      cases completion with
      | normal =>
        have behind : next + test.length + 1 + yesCode.length
            = next + (test ++ .jumpIfFalse (next + test.length + 1 + yesCode.length + 1)
                :: yesCode).length := by
          simp; omega
        exact ((completes.moved behind).jump seg.right.head).reaches.mono
          fun m here => here.moved (by simp; omega)
      | returned v => exact Reaches.here completes
    · have done := no.follows entering enough third here
        (seg.right.tail.moved (by simp; omega)) rfl
      exact done.moved (by simp; omega)
  | .loop condition body, names, _, _, site, place, next, scene, m, lowered, here, seg, start => by
    subst start
    obtain ⟨test, first, lowered⟩ := Except.bind_eq_ok lowered
    obtain ⟨⟨bodyCode, names₁⟩, second, lowered⟩ := Except.bind_eq_ok lowered
    cases lowered
    let stop := place + test.length + 1 + bodyCode.length + 1
    have round : ∀ scene m, At site place scene m →
        Follows site (n + 1) m (fun result scene m => match result with
          | none => At site (place + (test ++ .jumpIfFalse stop :: bodyCode).length) scene m
          | some completion => Completes site stop completion scene m)
          ((do
            if ← .truthy (← condition.eval enter names) then
              match ← body.exec enter rounds names with
              | .normal => return none
              | .returned v => return some (.returned v)
            else return some .normal : Eval Body (Option Completion)) scene) := by
      intro scene m here
      refine (condition.follows entering names first here seg.left.left rfl).bind
        fun v scene m here => ?_
      refine here.branch seg.left.right.head (fun m here => ?_) fun m here => Reaches.here here
      refine (body.follows entering enough second here seg.left.right.tail rfl).bind
        fun completion scene m completes => ?_
      cases completion with
      | normal => exact Reaches.here (completes.moved (by simp; omega))
      | returned v => exact Reaches.here completes
    have repeats := repeatUntil_follows seg.right.head round rounds here
    exact (repeats.fewer (by omega)).moved (by simp [stop]; omega)
  | .tryHandle body typeCode binding handler, names, _, _, site, place, next, scene, m, lowered, here,
      seg, start => by
    subst start
    obtain ⟨⟨bodyCode, names₁⟩, first, lowered⟩ := Except.bind_eq_ok lowered
    obtain ⟨⟨slot, names₂⟩, second, lowered⟩ := Except.bind_eq_ok lowered
    obtain ⟨⟨handlerCode, names₃⟩, third, lowered⟩ := Except.bind_eq_ok lowered
    cases lowered
    obtain rfl := lowerBlock_names body first
    obtain ⟨rfl, rfl⟩ := Names.declare_eq second
    refine Follows.prepend_reaches (here.openHandler seg.left.left.head).reaches fun m here => ?_
    have block := execBlock_follows entering enough body first here seg.left.left.tail rfl
    refine block.rescue (fun completion scene m completes => ?_) fun v scene m here => ?_
    · cases completion with
      | normal =>
        have behind : place + 1 + bodyCode.length
            = place + (.openHandler (place + 1 + bodyCode.length + 2) :: bodyCode).length := by
          simp; omega
        refine ((completes.moved behind).closeHandler seg.left.right.head).reaches.bind
          fun m here => ?_
        exact (here.jump seg.left.right.tail.head).reaches.mono
          fun m here => here.moved (by simp; omega)
      -- A return leaves the block with its handler still installed, which ends with the frame.
      | returned v => exact Reaches.here completes.of_guarded
    · have stored : Follows site (n + 1) m _ (Eval.writeSlot _ v scene) :=
        here.dropping [v] seg.left.right.tail.tail rfl rfl rfl (by simp; omega) rfl
      refine stored.bind fun _ scene m here => ?_
      have done := execBlock_follows entering enough handler third here
        (seg.right.moved (by simp; omega)) (by simp; omega)
      exact done.moved (by simp; omega)
  | .giveBack value, names, _, _, site, place, next, scene, m, lowered, here, seg, start => by
    subst start
    obtain ⟨code, first, lowered⟩ := Except.bind_eq_ok lowered
    cases lowered
    refine (evalOptional_follows entering names value first here seg.left).bind
      fun v scene m here => ?_
    exact Reaches.here
      ⟨_, site.handlers, here.frames, seg.right.head, here.operands, here.shows⟩
  | .method _, _, _, _, _, _, _, _, _, lowered, _, _, _ => by cases lowered
  | .classDecl _, _, _, _, _, _, _, _, _, lowered, _, _, _ => by cases lowered

theorem execBlock_follows (entering : EnterFollows n enter) (enough : n + 1 ≤ rounds) :
    ∀ (body : List Stmt) {names names' : Names} {code : List Instruction} {site : Site}
      {place next : Nat} {scene : Scene Body} {m : Machine},
      lowerBlock body next names = .ok (code, names') →
      At site place scene m → Seg site.code next code → place = next →
      Follows site (n + 1) m (Completes site (next + code.length))
        (execBlock enter rounds body names scene)
  | [], _, _, _, _, _, _, _, _, lowered, here, seg, start => by
    cases lowered
    exact Reaches.here (here.moved start)
  | s :: rest, names, _, _, site, place, next, scene, m, lowered, here, seg, start => by
    obtain ⟨⟨code, names₁⟩, first, lowered⟩ := Except.bind_eq_ok lowered
    obtain ⟨⟨others, names₂⟩, second, lowered⟩ := Except.bind_eq_ok lowered
    cases lowered
    obtain rfl := s.lower_names first
    refine (s.follows entering enough first here seg.left start).bind
      fun completion scene m completes => ?_
    cases completion with
    | normal =>
      exact (execBlock_follows entering enough rest second completes seg.right rfl).moved
        (by simp; omega)
    | returned v => exact Reaches.here completes

end

end Monogram
