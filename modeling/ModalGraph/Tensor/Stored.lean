import ModalGraph.Tensor.Basic

/-!
# Stored tensors

Labels lie in a stretch of memory that may be longer than they are. What is made in one piece has no room behind it; a copy fills
a block of one of a few sizes; and labels that come one by one find their room doubled, later enlarged by a quarter, whenever it
is used up. The room holds zeros. A row may be read from there, though it is not a row of the tensor.
-/

namespace ModalGraph.Tensor

/-! ## Room -/

/-- The sizes of small blocks, counted in labels. -/
def blockSizes : List Nat :=
  [1, 2, 3, 4, 6, 8, 10, 12, 14, 16, 18, 20, 22, 24, 26, 28, 30, 32, 36, 40, 44, 48, 52, 56, 60, 64, 72, 80, 88, 96, 112, 128,
    144, 160, 176, 192, 224, 256, 288, 336, 384, 400, 432, 512, 608, 640, 672, 768, 816, 848, 864, 1024, 1184, 1216, 1280, 1360,
    1536, 1696, 1792, 2048, 2304, 2384, 2560, 2720, 3072, 3408, 3584, 4096]

/-- A large block consists of pages of so many labels. -/
def pageSize : Nat := 1024

/-- The size of the block that holds `n` labels. -/
def blockSize (n : Nat) : Nat :=
  if n = 0 then 0
  else
    match blockSizes.find? fun size => n ≤ size with
    | some size => size
    | none => (n + pageSize - 1) / pageSize * pageSize

/-- The size up to which room is doubled. -/
def doublingLimit : Nat := 256

/-- The room after `room` labels have used it up and one more comes. -/
def enlarged (room : Nat) : Nat :=
  if room = 0 then 1
  else if room < doublingLimit then blockSize (2 * room)
  else blockSize (room + (room + 3 * doublingLimit) / 4)

/-- The room of `n` labels that came one by one, starting with some room. As many steps as labels suffice. -/
def roomFrom (n room : Nat) : Nat → Nat
  | 0 => room
  | steps + 1 => if n ≤ room then room else roomFrom n (enlarged room) steps

/-- A tensor, and how many labels its memory holds with the room behind them. -/
structure Stored where
  tensor : Tensor
  room : Nat
deriving Repr, Inhabited

namespace Stored

/-- A tensor made in one piece. -/
def whole (t : Tensor) : Stored :=
  ⟨t, t.data.size⟩

/-- A copy of a tensor. -/
def copy (t : Tensor) : Stored :=
  ⟨t, blockSize t.data.size⟩

/-- A tensor whose labels came one by one. -/
def gathered (t : Tensor) : Stored :=
  ⟨t, roomFrom t.data.size 0 t.data.size⟩

/-- The labels from `i * cols` to `(i + 1) * cols` places from the start, counted in words, if there is room for so many. -/
def row? (s : Stored) (i : Int) : Option (List Label) :=
  let t := s.tensor
  { t with data := t.data ++ Array.replicate (s.room - t.data.size) Label.zero }.row? i

end Stored

end ModalGraph.Tensor
