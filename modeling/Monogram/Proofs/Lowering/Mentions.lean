import Monogram.Proofs.Evaluation.References
import Monogram.Proofs.Lowering.Emission

/-! # Classes that code mentions

Code mentions a class where it reads the name of one and where it uses a static field.  Each time the
number comes from the names under which the code is lowered, and no declaration in the code numbers a
class.

* `Code.KnownTo` — all classes that instructions mention have a name.
* `Names.permits_known` — those of lowered code have one.
-/

namespace Monogram

variable {names known : Names}

/-- Every class of the one has a name among the others. -/
def Names.Under (known names : Names) : Prop := ∀ id, known.HasClass id → names.HasClass id

/-- The instructions of code mention only classes that have a name. -/
def Code.KnownTo (names : Names) (c : Code) : Prop :=
  ∀ i ∈ c.instructions, i.KnownTo names

theorem Code.KnownTo.mono {c : Code} (mentions : c.KnownTo known) (under : known.Under names) :
    c.KnownTo names := by
  intro i member
  have here := mentions i member
  cases i with
  | push constant => exact Value.KnownTo.mono under here
  | _ => trivial

theorem Names.load_known (under : known.Under names) (name : String) :
    (known.load name).KnownTo names := by
  unfold load
  split
  · trivial
  · split
    · trivial
    · next id _ here => exact under id ⟨name, here⟩
    · trivial

theorem Names.store_known (name : String) : (known.store name).KnownTo names := by
  unfold store
  split <;> trivial

/-- What code refers to by a class number is a class that has a name where the code is lowered.  Globals
that are declared in between number no class. -/
theorem Names.permits_known : Permits (·.Under names) (·.KnownTo names) where
  nameless i nameless := by
    cases i with
    | push c => cases c <;> trivial
    | _ => trivial
  ownObject := trivial
  load under := Names.load_known under
  store _ := Names.store_known
  receiver under _ id numbered := under id ⟨_, numbered⟩
  declared _ _ := trivial
  before _ under := under

end Monogram
