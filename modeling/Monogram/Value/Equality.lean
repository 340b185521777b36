import Monogram.Value.Heap

/-! # Equality

Lists are equal when they have equal elements in the same order, maps when they have the same keys
with equal values, objects only when they are the same object, and everything that counts as a
number when the numbers are equal.  Lists and maps may contain themselves: a pair that is being
compared is taken as equal where it comes up again.

* `Heap.equalAt` — the comparison inside others, to a given depth.
* `Heap.equal` — the comparison; its depth is bounded by the number of pairs of containers.
-/

namespace Monogram.Heap

variable {β : Type}

/-- Pairs of containers that are being compared. -/
abbrev Assumed := List (Container × Container)

/-- Whether two values are equal, while the pairs in `assumed` are being compared.  There is no
answer when the comparison goes deeper than the number says. -/
def equalAt (h : Heap β) : Nat → Assumed → Value → Value → Option Bool
  | 0, _, _, _ => none
  | depth + 1, assumed, a, b =>
    match a, b with
    | .nil, .nil => some true
    | .system, .system => some true
    | .string s, .string t => some (s == t)
    | .list x, .list y =>
      let pair := (Container.list x, Container.list y)
      let xs := h.list x
      let ys := h.list y
      if x = y || assumed.contains pair then some true
      else if xs.size != ys.size then some false
      else (xs.toList.zip ys.toList).allM fun (v, w) => equalAt h depth (pair :: assumed) v w
    | .map x, .map y =>
      let pair := (Container.map x, Container.map y)
      let xs := h.map x
      let ys := h.map y
      if x = y || assumed.contains pair then some true
      else if xs.size != ys.size then some false
      else xs.entries.toList.allM fun (key, v) =>
        match ys.get key with
        | .ok (some w) => equalAt h depth (pair :: assumed) v w
        | _ => some false
    | .object x, .object y => some (x == y)
    | a, b =>
      match a.number?, b.number? with
      | some x, some y => some (x.equal y)
      | _, _ => some false

/-- No more pairs than this can be compared inside each other. -/
def equalDepth (h : Heap β) : Nat :=
  h.lists.size * h.lists.size + h.maps.size * h.maps.size + 2

/-- Whether two values are equal. -/
def equal (h : Heap β) (a b : Value) : Bool :=
  (h.equalAt h.equalDepth [] a b).getD false

end Monogram.Heap
