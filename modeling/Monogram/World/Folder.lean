import Monogram.Fault
import Monogram.Table

/-! # A folder of files

A folder holds files and empty folders by name.  A path is followed name by name from the folder; a
dot stays, two dots go up, and nothing outside can be read.

* `Folder.read` — the contents of the file at a path.
-/

namespace Monogram

/-- What a name in a folder stands for. -/
inductive Folder.Entry where
  | file (bytes : ByteArray)
  | folder

/-- Entries by name. -/
structure Folder where
  entries : Table Folder.Entry

namespace Folder

/-- No entries. -/
def empty : Folder := ⟨∅⟩

/-- Where a path has led so far. -/
inductive Spot where
  | here
  | outside
  | inner
  | file (bytes : ByteArray)

/-- Follows one name of a path. -/
def follow (f : Folder) (spot : Spot) (name : String) : Except IoProblem Spot :=
  match spot with
  | .file _ => .error .notDirectory
  | .here =>
    if name = "" ∨ name = "." then .ok .here
    else if name = ".." then .ok .outside
    else
      match f.entries.find? name with
      | some (.file bytes) => .ok (.file bytes)
      | some .folder => .ok .inner
      | none => .error .notFound
  | .inner =>
    if name = "" ∨ name = "." then .ok .inner
    else if name = ".." then .ok .here
    else .error .notFound
  | .outside =>
    if name = "" ∨ name = "." ∨ name = ".." then .ok .outside
    else .error .notFound

/-- Bytes as text. -/
def decode (bytes : ByteArray) : Except IoProblem String :=
  match String.fromUTF8? bytes with
  | some text => .ok text
  | none => .error .invalidUtf8

/-- The text of the file at `path`. -/
def read (f : Folder) (path : String) : Except IoProblem String := do
  if path.toList.contains '\x00' then throw .nulInName
  if path = "" then throw .notFound
  let start := if path.toList.head? = some '/' then Spot.outside else .here
  match ← (path.splitOn "/").foldlM f.follow start with
  | .file bytes => decode bytes
  | _ => throw .isDirectory

end Folder

end Monogram
