/-! # Operand stacks

A stack of operands, written with its top first.

* `pop?`, `popMany?` — fail when there are too few.
* `truncate` — keeps what was there at a given size.
-/

namespace Monogram

/-- A stack; the top is the first item. -/
structure Operands (α : Type) where
  items : List α
deriving Repr, Inhabited

namespace Operands

variable {α : Type}

/-- No operands. -/
def empty : Operands α := ⟨[]⟩

/-- How many operands there are. -/
def size (s : Operands α) : Nat := s.items.length

/-- Puts an operand on top. -/
def push (s : Operands α) (a : α) : Operands α := ⟨a :: s.items⟩

/-- The top. -/
def peek? (s : Operands α) : Option α := s.items.head?

/-- The top and the stack below it. -/
def pop? (s : Operands α) : Option (α × Operands α) :=
  match s.items with
  | [] => none
  | a :: rest => some (a, ⟨rest⟩)

/-- The top `n` operands in the order in which they were pushed, and the stack below them. -/
def popMany? (s : Operands α) (n : Nat) : Option (List α × Operands α) :=
  if s.size < n then none else some ((s.items.take n).reverse, ⟨s.items.drop n⟩)

/-- The lowest `n` operands. -/
def truncate (s : Operands α) (n : Nat) : Operands α :=
  ⟨s.items.drop (s.size - n)⟩

@[simp] theorem size_push (s : Operands α) (a : α) : (s.push a).size = s.size + 1 := rfl

@[simp] theorem pop?_push (s : Operands α) (a : α) : (s.push a).pop? = some (a, s) := rfl

end Operands

end Monogram
