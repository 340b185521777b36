/-! # Tables

A table gives a value to each of finitely many names.  Its entries keep the order in which the names
were first inserted; inserting a name again replaces its value in place.

* `find?_insert` — what an insertion changes.
* `names_insert` — the names after an insertion.
-/

namespace Monogram

/-- Values by name, in the order of first insertion. -/
structure Table (α : Type) where
  entries : List (String × α)
deriving Repr, Inhabited

namespace Table

variable {α : Type}

/-- No names. -/
def empty : Table α := ⟨[]⟩

instance : EmptyCollection (Table α) := ⟨empty⟩

/-- The value at `name` in a list of entries. -/
def findIn (name : String) : List (String × α) → Option α
  | [] => none
  | (key, value) :: rest => if key = name then some value else findIn name rest

/-- Entries with `value` at `name`: in place when the name is there, else at the end. -/
def insertIn (name : String) (value : α) : List (String × α) → List (String × α)
  | [] => [(name, value)]
  | (key, old) :: rest =>
    if key = name then (name, value) :: rest else (key, old) :: insertIn name value rest

/-- The value at `name`. -/
def find? (t : Table α) (name : String) : Option α :=
  findIn name t.entries

/-- Gives `name` the value. -/
def insert (t : Table α) (name : String) (value : α) : Table α :=
  ⟨insertIn name value t.entries⟩

/-- Whether `name` has a value. -/
def contains (t : Table α) (name : String) : Bool :=
  (t.find? name).isSome

/-- The names, in order. -/
def names (t : Table α) : List String :=
  t.entries.map Prod.fst

/-- The values, in order of their names. -/
def values (t : Table α) : List α :=
  t.entries.map Prod.snd

/-- How many names there are. -/
def size (t : Table α) : Nat :=
  t.entries.length

/-- A table of entries given one after the other. -/
def ofList (entries : List (String × α)) : Table α :=
  entries.foldl (fun t entry => t.insert entry.1 entry.2) empty

theorem findIn_insertIn (entries : List (String × α)) (name other : String) (value : α) :
    findIn other (insertIn name value entries)
      = if name = other then some value else findIn other entries := by
  induction entries with
  | nil => simp [insertIn, findIn]
  | cons entry rest ih =>
    obtain ⟨key, old⟩ := entry
    by_cases hk : key = name
    · subst hk
      by_cases ho : key = other <;> simp [insertIn, findIn, ho]
    · by_cases ho : key = other
      · subst ho
        simp [insertIn, findIn, hk, Ne.symm hk]
      · simp [insertIn, findIn, hk, ho, ih]

@[simp] theorem find?_empty (name : String) : (empty : Table α).find? name = none := rfl

/-- An insertion changes the value at its name and no other. -/
theorem find?_insert (t : Table α) (name other : String) (value : α) :
    (t.insert name value).find? other = if name = other then some value else t.find? other :=
  findIn_insertIn t.entries name other value

@[simp] theorem find?_insert_self (t : Table α) (name : String) (value : α) :
    (t.insert name value).find? name = some value := by
  simp [find?_insert]

theorem find?_insert_of_ne (t : Table α) {name other : String} (h : name ≠ other) (value : α) :
    (t.insert name value).find? other = t.find? other := by
  simp [find?_insert, h]

theorem map_fst_insertIn (entries : List (String × α)) (name : String) (value : α) :
    (insertIn name value entries).map Prod.fst
      = if name ∈ entries.map Prod.fst then entries.map Prod.fst
        else entries.map Prod.fst ++ [name] := by
  induction entries with
  | nil => simp [insertIn]
  | cons entry rest ih =>
    obtain ⟨key, old⟩ := entry
    by_cases hk : key = name
    · subst hk; simp [insertIn]
    · rw [insertIn, if_neg hk]
      by_cases hm : name ∈ rest.map Prod.fst <;> simp_all [Ne.symm hk]

/-- A name that is there stays where it is; a new one comes last. -/
theorem names_insert (t : Table α) (name : String) (value : α) :
    (t.insert name value).names = if name ∈ t.names then t.names else t.names ++ [name] :=
  map_fst_insertIn t.entries name value

theorem mem_names_iff (t : Table α) (name : String) : name ∈ t.names ↔ t.find? name ≠ none := by
  obtain ⟨entries⟩ := t
  simp only [names, find?]
  induction entries with
  | nil => simp [findIn]
  | cons entry rest ih =>
    obtain ⟨key, value⟩ := entry
    by_cases hk : key = name
    · simp [findIn, hk]
    · simp [findIn, hk, Ne.symm hk, ih]

end Table

end Monogram
