/-! # Positions in a text

A text is a list of characters.  Places in it are counted in bytes of its UTF-8 form, lines from 1.

* `byteCount` — bytes taken by a run of characters.
* `newlineCount` — line breaks in a run of characters.
* `Span` — a half-open stretch of bytes.
* `splitBytes` — a text cut behind so many bytes.
-/

namespace Monogram

/-- Bytes that a run of characters takes in UTF-8. -/
def byteCount : List Char → Nat
  | [] => 0
  | c :: rest => c.utf8Size + byteCount rest

/-- Line breaks in a run of characters. -/
def newlineCount (text : List Char) : Nat :=
  text.count '\n'

/-- The bytes from `start` up to, but not including, `stop`. -/
structure Span where
  start : Nat
  stop : Nat
deriving DecidableEq, Repr, Inhabited

/-- The characters that take the first `count` bytes, and the others.  A character that begins in
front of the cut belongs to the first ones. -/
def splitBytes (count : Nat) : List Char → List Char × List Char
  | [] => ([], [])
  | c :: rest =>
    if count = 0 then ([], c :: rest)
    else
      let (front, back) := splitBytes (count - c.utf8Size) rest
      (c :: front, back)

@[simp] theorem byteCount_nil : byteCount [] = 0 := rfl

@[simp] theorem byteCount_cons (c : Char) (text : List Char) :
    byteCount (c :: text) = c.utf8Size + byteCount text := rfl

@[simp] theorem byteCount_append (front back : List Char) :
    byteCount (front ++ back) = byteCount front + byteCount back := by
  induction front with
  | nil => rw [List.nil_append, byteCount_nil, Nat.zero_add]
  | cons c rest ih => rw [List.cons_append, byteCount_cons, byteCount_cons, ih, Nat.add_assoc]

@[simp] theorem newlineCount_nil : newlineCount [] = 0 := rfl

@[simp] theorem newlineCount_append (front back : List Char) :
    newlineCount (front ++ back) = newlineCount front + newlineCount back := by
  simp [newlineCount]

/-- A cut loses nothing. -/
theorem splitBytes_append (count : Nat) (text : List Char) :
    (splitBytes count text).1 ++ (splitBytes count text).2 = text := by
  induction text generalizing count with
  | nil => rfl
  | cons c rest ih =>
    by_cases h : count = 0
    · simp [splitBytes, h]
    · simp [splitBytes, h, ih]

/-- A cut between two runs of characters gives them back. -/
theorem splitBytes_byteCount (front back : List Char) :
    splitBytes (byteCount front) (front ++ back) = (front, back) := by
  induction front with
  | nil => cases back <;> rfl
  | cons c rest ih =>
    have := c.utf8Size_pos
    have width : c.utf8Size + byteCount rest - c.utf8Size = byteCount rest := by omega
    rw [List.cons_append, byteCount_cons, splitBytes, if_neg (by omega), width, ih]

/-- Every character takes at least one byte. -/
theorem byteCount_pos {text : List Char} (nonempty : text ≠ []) : 0 < byteCount text := by
  cases text with
  | nil => exact absurd rfl nonempty
  | cons c rest => rw [byteCount_cons]; have := c.utf8Size_pos; omega

end Monogram
