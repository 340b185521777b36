import Monogram.Proofs.Classes.Chain

/-! # Nearest declarations

Along the chain of a class the nearest class that declares a member decides who may use it.

* `Nearest` — the nearest class that declares a member, so many steps away.
* `Nearest.first` — it is the first class of the chain that declares the member.
* `Nearest.caller_of_checkField`, `Nearest.caller_of_resolveMethod` — a hidden one lets its own class
  through and nothing else.
-/

namespace Monogram

/-- A member of an object. -/
inductive Member where
  | field (name : String)
  | method (name : String)
deriving DecidableEq, Repr

/-- How a class itself declares a member. -/
def ClassImage.declared? {β : Type} (c : ClassImage β) : Member → Option Visibility
  | .field name => (c.fields.find? name).map FieldImage.visibility
  | .method name => (c.methods.find? name).map MethodImage.visibility

/-- Along the chain of a class, the nearest class that declares the member is so many steps away, and
declares it so. -/
inductive Nearest {β : Type} (r : Registry β) (member : Member) :
    Nat → ClassImage β → ClassImage β → Visibility → Prop where
  | here {c : ClassImage β} {visibility : Visibility} (declared : c.declared? member = some visibility) :
      Nearest r member 0 c c visibility
  | above {c parent d : ClassImage β} {ancestor : String} {visibility : Visibility} {steps : Nat}
      (silent : c.declared? member = none) (derived : c.superclass = some ancestor)
      (known : r.byName? ancestor = some parent) (others : Nearest r member steps parent d visibility) :
      Nearest r member (steps + 1) c d visibility

namespace Nearest

variable {β : Type} {r : Registry β} {member : Member} {steps : Nat} {c d : ClassImage β}
  {visibility : Visibility}

/-- The nearest class that declares a member is the first one of the chain. -/
theorem first (h : Nearest r member steps c d visibility) :
    r.First (·.declared? member) c d visibility := by
  induction h with
  | here declared => exact ⟨0, rfl, declared, fun _ => nofun⟩
  | above silent derived known _ ih =>
    refine ih.above silent ?_
    rw [Registry.parent?, derived, Option.bind_some, known]

/-- A hidden field lets its own class through. -/
theorem caller_of_checkField {field : String} {caller : Option String}
    (h : Nearest r (.field field) steps c d .hidden) (allowed : r.checkField c field caller = .ok ()) :
    caller = some d.name := by
  obtain ⟨image, first, secret⟩ := h.first.of_map
  rw [Registry.checkField, first.checkFieldIn (Nat.lt_succ_self _)] at allowed
  by_contra other
  rw [if_pos ⟨secret, other⟩] at allowed
  cases allowed

/-- A hidden method lets its own class through. -/
theorem caller_of_resolveMethod {method : String} {caller : Option String} {body : β}
    (h : Nearest r (.method method) steps c d .hidden)
    (found : r.resolveMethod c method caller = .ok body) : caller = some d.name := by
  obtain ⟨image, first, secret⟩ := h.first.of_map
  by_contra other
  have refused : r.resolveMethod c method caller = .error (.privateMethod method) :=
    (Registry.Resolves.refused first secret other).resolveMethodIn (Nat.lt_succ_self _)
  cases refused.symm.trans found

end Nearest

end Monogram
