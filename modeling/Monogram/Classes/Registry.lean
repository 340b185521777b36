import Monogram.Code.Program
import Monogram.Fault

/-! # Loaded classes

The classes that a machine knows, by name and by number, each with the values of its static fields.
Loading a class whose name is known replaces the class of that name.

* `Registry.register` — loads a class.
* `Registry.resolveMethod` — the method that a call reaches, along the chain of superclasses.
* `Registry.checkField` — whether a field may be used, by the nearest class that declares it.
-/

namespace Monogram

/-- A class and the values of its static fields. -/
structure LoadedClass (β : Type := Code) where
  image : ClassImage β
  statics : Table Value

variable {β : Type}

/-- A class as it is loaded: every declared static field is zero. -/
def LoadedClass.ofImage (image : ClassImage β) : LoadedClass β :=
  ⟨image, Table.ofList (image.staticFields.names.map fun field => (field, Value.zero))⟩

/-- Loaded classes by name, and the name that each number stands for. -/
structure Registry (β : Type := Code) where
  classes : Table (LoadedClass β)
  owners : List (ClassId × String)

namespace Registry

/-- No classes. -/
def empty : Registry β := ⟨∅, []⟩

instance : Inhabited (Registry β) := ⟨empty⟩

/-- How many classes there are. -/
def size (r : Registry β) : Nat := r.classes.size

/-- The owners of all numbers but one. -/
def removeOwner (id : ClassId) (owners : List (ClassId × String)) : List (ClassId × String) :=
  owners.filter fun owner => owner.1 != id

/-- Loads a class.  The number of a class that it replaces is free again. -/
def register (r : Registry β) (image : ClassImage β) : Registry β :=
  let kept :=
    match r.classes.find? image.name with
    | some previous => removeOwner previous.image.id r.owners
    | none => r.owners
  ⟨r.classes.insert image.name (.ofImage image),
    (image.id, image.name) :: removeOwner image.id kept⟩

/-- The loaded class of this name. -/
def byName? (r : Registry β) (name : String) : Option (ClassImage β) :=
  (r.classes.find? name).map LoadedClass.image

/-- The loaded class with this number, with its statics. -/
def loaded? (r : Registry β) (id : ClassId) : Option (LoadedClass β) :=
  (r.owners.lookup id).bind r.classes.find?

/-- The loaded class with this number. -/
def byId? (r : Registry β) (id : ClassId) : Option (ClassImage β) :=
  (r.loaded? id).map LoadedClass.image

/-- The loaded class with this number, which must exist. -/
def loaded (r : Registry β) (id : ClassId) : Except Fault (LoadedClass β) :=
  match r.loaded? id with
  | some c => .ok c
  | none => .error (.unknownClassId id)

/-- A static field, zero before the first store. -/
def getStatic (r : Registry β) (id : ClassId) (field : String) : Except Fault Value :=
  (r.loaded id).map fun c => (c.statics.find? field).getD .zero

/-- Stores into a static field. -/
def setStatic (r : Registry β) (id : ClassId) (field : String) (value : Value) :
    Except Fault (Registry β) :=
  (r.loaded id).map fun c =>
    { r with classes :=
        r.classes.insert c.image.name { c with statics := c.statics.insert field value } }

/-- The method that a call reaches in at most so many classes of the chain. -/
def resolveMethodIn (r : Registry β) (method : String) (caller : Option String) :
    Nat → ClassImage β → Except Fault β
  | 0, _ => .error (.methodNotFound method)
  | steps + 1, c =>
    match c.methods.find? method with
    | some image =>
      if image.visibility = .hidden ∧ caller ≠ some c.name then .error (.privateMethod method)
      else .ok image.code
    | none =>
      match c.superclass with
      | none => .error (.methodNotFound method)
      | some ancestor =>
        match r.byName? ancestor with
        | none => .error (.unknownClass ancestor)
        | some parent => resolveMethodIn r method caller steps parent

/-- The method that a call reaches on an object of class `c`.  A hidden method can be called only
from a frame whose object is of exactly the class that declares it.  In a chain longer than the
number of classes some class comes up again. -/
def resolveMethod (r : Registry β) (c : ClassImage β) (method : String) (caller : Option String) :
    Except Fault β :=
  r.resolveMethodIn method caller (r.size + 1) c

/-- A static method, of the class itself only. -/
def resolveStatic (r : Registry β) (id : ClassId) (method : String) : Except Fault β := do
  let c ← r.loaded id
  match c.image.staticMethods.find? method with
  | some image => return image.code
  | none => throw (.staticMethodNotFound c.image.name method)

/-- Whether a field may be used, looking at no more than so many classes of the chain. -/
def checkFieldIn (r : Registry β) (field : String) (caller : Option String) :
    Nat → ClassImage β → Except Fault Unit
  | 0, _ => .ok ()
  | steps + 1, c =>
    match c.fields.find? field with
    | some image =>
      if image.visibility = .hidden ∧ caller ≠ some c.name then .error (.privateField field)
      else .ok ()
    | none =>
      match c.superclass.bind r.byName? with
      | none => .ok ()
      | some parent => checkFieldIn r field caller steps parent

/-- Whether a field of an object of class `c` may be used.  A field that no class declares may. -/
def checkField (r : Registry β) (c : ClassImage β) (field : String) (caller : Option String) :
    Except Fault Unit :=
  r.checkFieldIn field caller (r.size + 1) c

end Registry

end Monogram
