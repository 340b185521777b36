import Std.Data.HashMap
import Monogram.Fault

/-! # Maps of the language

A map keeps its entries in the order in which their keys were first inserted, and shows each key as
it was inserted first.  An index gives the place of each key.

* `Dict.insert`, `Dict.get` — both fail on a key that is a list or a map.
-/

namespace Monogram

/-- A map: entries in order, and the place of each key. -/
structure Dict where
  entries : Array (Value × Value)
  index : Std.HashMap Key Nat

namespace Dict

/-- No entries. -/
def empty : Dict := ⟨#[], ∅⟩

instance : Inhabited Dict := ⟨empty⟩

/-- How many entries there are. -/
def size (d : Dict) : Nat := d.entries.size

/-- Gives a key, known as `known`, the value: in place when it is there, else behind the others. -/
def insertKey (d : Dict) (known : Key) (key value : Value) : Dict :=
  match d.index[known]? with
  | some place => { d with entries := d.entries.modify place fun entry => (entry.1, value) }
  | none => ⟨d.entries.push (key, value), d.index.insert known d.entries.size⟩

/-- The value at a key that is known as `known`. -/
def getKey? (d : Dict) (known : Key) : Option Value :=
  d.index[known]?.bind fun place => d.entries[place]?.map Prod.snd

/-- The key of a value that may serve as one. -/
def keyOf (v : Value) : Except Fault Key :=
  match v.key? with
  | some known => .ok known
  | none => .error (.unhashableKey v.sort)

/-- Gives `key` the value. -/
def insert (d : Dict) (key value : Value) : Except Fault Dict :=
  (keyOf key).map fun known => d.insertKey known key value

/-- The value at `key`, if there is one. -/
def get (d : Dict) (key : Value) : Except Fault (Option Value) :=
  (keyOf key).map d.getKey?

/-- A map of keys and values given one after the other. -/
def ofEntries (entries : List (Value × Value)) : Except Fault Dict :=
  entries.foldlM (fun d entry => d.insert entry.1 entry.2) empty

end Dict

end Monogram
