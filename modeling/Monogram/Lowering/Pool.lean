/-! # Pools

A pool numbers names in the order in which they first appear.

* `Pool.index?` — the number of a name.
* `Pool.insert` — adds a name behind the others; one that is there keeps its number.
-/

namespace Monogram

/-- Distinct names; each has its position as its number. -/
structure Pool where
  names : List String
  distinct : names.Nodup

namespace Pool

/-- No names. -/
def empty : Pool := ⟨[], List.nodup_nil⟩

instance : EmptyCollection Pool := ⟨empty⟩

instance : Inhabited Pool := ⟨empty⟩

instance : Membership String Pool := ⟨fun p name => name ∈ p.names⟩

/-- How many names there are. -/
def size (p : Pool) : Nat := p.names.length

/-- The number of a name. -/
def index? (p : Pool) (name : String) : Option Nat := p.names.idxOf? name

/-- Adds a name, unless it is there. -/
def insert (p : Pool) (name : String) : Pool :=
  if h : name ∈ p.names then p
  else
    ⟨p.names ++ [name], by
      rw [List.nodup_append]
      exact ⟨p.distinct, List.nodup_cons.2 ⟨List.not_mem_nil, List.nodup_nil⟩, fun a ha b hb => by
        rw [List.mem_singleton] at hb
        subst hb
        exact fun same => h (same ▸ ha)⟩⟩

theorem names_insert_of_mem {p : Pool} {name : String} (h : name ∈ p.names) :
    p.insert name = p := by
  simp [insert, h]

theorem names_insert_of_not_mem {p : Pool} {name : String} (h : name ∉ p.names) :
    (p.insert name).names = p.names ++ [name] := by
  simp [insert, h]

end Pool

end Monogram
