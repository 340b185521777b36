import Monogram.Code.Program
import Monogram.Value.Dict

/-! # The heap

Lists, maps and objects live in arenas of their own.  Nothing is ever removed; an address beyond
the end of an arena reads as empty.

* `allocList`, `allocMap`, `allocObject` — new contents and their address.
* `modifyList`, `modifyMap`, `modifyObject` — contents changed in place.
* `truthy` — whether a value counts as true.
-/

namespace Monogram

/-- An object: the class it was made of, as that was then, and its fields that have been stored. -/
structure Object (β : Type := Code) where
  image : ClassImage β
  fields : Table Value
deriving Inhabited

variable {β : Type}

/-- The field of an object, zero before the first store. -/
def Object.get (o : Object β) (field : String) : Value :=
  (o.fields.find? field).getD .zero

/-- Stores into a field. -/
def Object.set (o : Object β) (field : String) (value : Value) : Object β :=
  { o with fields := o.fields.insert field value }

/-- The arenas. -/
structure Heap (β : Type := Code) where
  lists : Array (Array Value)
  maps : Array Dict
  objects : Array (Object β)

namespace Heap

/-- Nothing has been made. -/
def empty : Heap β := ⟨#[], #[], #[]⟩

instance : Inhabited (Heap β) := ⟨empty⟩

/-- The elements of a list. -/
def list (h : Heap β) (address : Address) : Array Value :=
  (h.lists[address]?).getD #[]

/-- The contents of a map. -/
def map (h : Heap β) (address : Address) : Dict :=
  (h.maps[address]?).getD .empty

/-- An object. -/
def object [Inhabited β] (h : Heap β) (address : Address) : Object β :=
  (h.objects[address]?).getD default

/-- A new list. -/
def allocList (h : Heap β) (items : Array Value) : Value × Heap β :=
  (.list h.lists.size, { h with lists := h.lists.push items })

/-- A new map. -/
def allocMap (h : Heap β) (contents : Dict) : Value × Heap β :=
  (.map h.maps.size, { h with maps := h.maps.push contents })

/-- A new object. -/
def allocObject (h : Heap β) (o : Object β) : Value × Heap β :=
  (.object h.objects.size, { h with objects := h.objects.push o })

/-- Changes the elements of a list. -/
def modifyList (h : Heap β) (address : Address) (change : Array Value → Array Value) : Heap β :=
  { h with lists := h.lists.modify address change }

/-- Changes the contents of a map. -/
def modifyMap (h : Heap β) (address : Address) (change : Dict → Dict) : Heap β :=
  { h with maps := h.maps.modify address change }

/-- Changes an object. -/
def modifyObject (h : Heap β) (address : Address) (change : Object β → Object β) : Heap β :=
  { h with objects := h.objects.modify address change }

/-- Whether a value counts as true: nil, false, zero and what is empty do not. -/
def truthy (h : Heap β) : Value → Bool
  | .nil => false
  | .number x => !x.isZero
  | .bool b => b
  | .string s => s != ""
  | .list address => (h.list address).size != 0
  | .map address => (h.map address).size != 0
  | .object _ | .classRef _ | .system => true

end Heap

end Monogram
