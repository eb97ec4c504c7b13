/-!
# Lists that share storage

The cells of a list are a stretch at the start of a block, which may have room for more behind it. Appending writes into that room if
it is enough, and otherwise copies the list to a block of its own. So lists may share cells: one that was taken earlier has
its cells in the block of the list that has grown out of it, and what is written for one list is there for the other.
-/

namespace ModalGraph

/-- Cells in blocks, as far as they have been written. -/
structure Memory (α : Type) where
  blocks : List (List α) := []

/-- A list: the block that its cells are at the start of, how many they are, and how many there may be in its block. -/
structure Stretch where
  block : Nat
  length : Nat
  room : Nat
deriving DecidableEq, Repr

namespace Stretch

/-- The list without cells, and without room for any. -/
def nil : Stretch := ⟨0, 0, 0⟩

/-- The first cells of a list, without room for more. -/
def cut (s : Stretch) (length : Nat) : Stretch :=
  { s with length := length, room := length }

end Stretch

namespace Memory

variable {α : Type}

/-- The cells of a block. -/
def block (m : Memory α) (i : Nat) : List α :=
  m.blocks[i]?.getD []

/-- What is in the cells of a list now. -/
def cells (m : Memory α) (s : Stretch) : List α :=
  (m.block s.block).take s.length

/-- What is in one cell of a list now. -/
def cell? (m : Memory α) (s : Stretch) (k : Nat) : Option α :=
  (m.cells s)[k]?

/-- Writes behind the cells of a list. -/
def write (m : Memory α) (s : Stretch) (xs : List α) : Memory α :=
  ⟨m.blocks.modify s.block fun cells => cells.take s.length ++ xs ++ cells.drop (s.length + xs.length)⟩

/-- A list with more cells, in its block if there is room for them. Otherwise it gets a new block, in which there is as much room as
`grow` says for a list that has outgrown some room and needs some, but enough in any case. -/
def append (grow : Nat → Nat → Nat) (m : Memory α) (s : Stretch) (xs : List α) : Memory α × Stretch :=
  let length := s.length + xs.length
  if length ≤ s.room then (m.write s xs, { s with length := length })
  else (⟨m.blocks ++ [m.cells s ++ xs]⟩, ⟨m.blocks.length, length, max length (grow s.room length)⟩)

/-- A list without one of its cells: those behind it are appended to those before it. -/
def remove (grow : Nat → Nat → Nat) (m : Memory α) (s : Stretch) (k : Nat) : Memory α × Stretch :=
  m.append grow (s.cut k) ((m.cells s).drop (k + 1))

end Memory

end ModalGraph
