import Monogram.Number.Spelling
import Monogram.Text.Quoted
import Monogram.Value.Heap

/-! # Values as text

Lists and maps may contain themselves: one that is being written is shortened where it comes up
again.

* `Heap.display` — as a program prints it.
* `Heap.debug` — strings in quotes, classes marked as such.
-/

namespace Monogram

/-- How strings and classes are shown. -/
inductive Rendering.Style where
  | display
  | debug
deriving DecidableEq, Repr

/-- A number as text; both zeros look the same. -/
def numberText (x : Number) : String :=
  if x.isZero then "0" else Spelling.plain.write x

variable {β : Type} [Inhabited β]

/-- A value that contains no others as text. -/
def scalarText (style : Rendering.Style) (h : Heap β) : Value → String
  | .nil => "null"
  | .number x => numberText x
  | .bool b => if b then "true" else "false"
  | .string s =>
    match style with
    | .display => s
    | .debug => Quoted.encode s
  | .list _ => "[...]"
  | .map _ => "\x7b...\x7d"
  | .object address =>
    let id := (h.object address).image.id
    s!"Object#{id}"
  | .classRef id =>
    match style with
    | .display => toString id
    | .debug => s!"Class({id})"
  | .system => "<system>"

namespace Heap

/-- A value as text, while the containers in `outer` are being written.  The number bounds the
depth. -/
def renderAt (h : Heap β) (style : Rendering.Style) : Nat → List Container → Value → String
  | 0, _, v => scalarText style h v
  | depth + 1, outer, v =>
    match v with
    | .list address =>
      if outer.contains (.list address) then scalarText style h v
      else
        let inner := renderAt h style depth (.list address :: outer)
        "[" ++ String.intercalate ", " ((h.list address).toList.map inner) ++ "]"
    | .map address =>
      if outer.contains (.map address) then scalarText style h v
      else
        let inner := renderAt h style depth (.map address :: outer)
        let entries := (h.map address).entries.toList.map fun (key, value) =>
          inner key ++ ": " ++ inner value
        "\x7b" ++ String.intercalate ", " entries ++ "\x7d"
    | v => scalarText style h v

/-- No more containers than this can be written inside each other. -/
def renderDepth (h : Heap β) : Nat :=
  h.lists.size + h.maps.size + 1

/-- A value as a program prints it. -/
def display (h : Heap β) (v : Value) : String :=
  h.renderAt .display h.renderDepth [] v

/-- A value with strings in quotes and classes marked. -/
def debug (h : Heap β) (v : Value) : String :=
  h.renderAt .debug h.renderDepth [] v

end Heap

end Monogram
