import Monogram.Proofs.Machine.Rest
import Monogram.Session

/-! # Sessions that are reached

A session takes one text after the other, each of them run to its end, whichever end that is.

* `Session.Reached` — the sessions that a new one becomes.
* `Session.Reached.rested` — their machines are at rest.
-/

namespace Monogram

namespace Session

/-- The text comes to an end within the bound, or has no code. -/
def Ends (s : Session) (bound : Nat) (text : String) : Prop :=
  match s.compile text with
  | (.ok compiled, s) => (s.run bound compiled.program).1 ≠ .ok false
  | (.error _, _) => True

theorem ends_of_fails {s : Session} {bound : Nat} {text : String}
    (fails : (s.eval bound text).1.toBool = false) : s.Ends bound text := by
  unfold Ends
  simp only [eval] at fails
  split
  · next compiled s' compiles =>
    simp only [compiles] at fails
    intro unfinished
    rw [unfinished] at fails
    cases fails
  · trivial

/-- What a new session becomes, text after text. -/
inductive Reached (limits : Limits) (console : Console) : Session → Prop where
  | new : Reached limits console (.new limits console)
  | eval {s : Session} {bound : Nat} {text : String} (before : Reached limits console s)
      (ends : s.Ends bound text) : Reached limits console (s.eval bound text).2

theorem lowered_of_compile {names names' : Names} {text : String} {compiled : Compiled}
    (h : names.compile text = .ok (compiled, names')) : compiled.program.Lowered := by
  obtain ⟨⟨p, known⟩, lowered, h⟩ := Except.bind_eq_ok h
  cases h
  exact ⟨names, _, names', lowered⟩

/-- A run to an end leaves the machine at rest. -/
theorem rested_run {s : Session} {p : Program} {bound : Nat} (rested : Rested s.machine)
    (lowered : p.Lowered) (ends : (s.run bound p).1 ≠ .ok false) : Rested (s.run bound p).2.machine := by
  have left := rested.run lowered bound
  simp only [run, act] at ends ⊢
  cases result : Action.run bound p s.machine with
  | ok ended m =>
    simp only [result] at left ends ⊢
    cases ended with
    | true => exact left
    | false => exact absurd rfl ends
  | error f m =>
    simp only [result] at left ⊢
    exact left.1

namespace Reached

variable {limits : Limits} {console : Console} {s : Session}

/-- The machine of a session that is reached is at rest. -/
theorem rested (reached : s.Reached limits console) : Rested s.machine := by
  induction reached with
  | new => exact Rested.new limits console
  | @eval s bound text before ends ih =>
    simp only [Ends, Session.eval, compile] at ends ⊢
    cases compiles : s.names.compile text with
    | error e => exact ih
    | ok result =>
      obtain ⟨compiled, names⟩ := result
      simp only [compiles] at ends ⊢
      exact rested_run (s := { s with names }) ih (lowered_of_compile compiles) ends

end Reached

end Session

/-! ## A program -/

/-- A method of an object raises a value, and the text that called it prints what was raised. -/
def bell : List Stmt :=
  [.classDecl ⟨"Bell", none,
      [⟨"ring", [], [.expression (.call (.member (.variable "z") "t") [])], 0, none, false⟩], [], [],
      false⟩,
    .tryHandle [.expression (.call (.member (.construct "Bell" []) "ring") [])] 0 "e"
      [.expression (.call (.member (.variable "z") "o") [.variable "e"])]]

/-- Its code. -/
def bellProgram : Program :=
  match Names.empty.lowerProgram bell with
  | .ok (p, _) => p
  | .error _ => default

theorem bellProgram_lowered : bellProgram.Lowered := ⟨.empty, bell, _, rfl⟩

end Monogram
