import ModalGraph.Tensor.DType

/-!
# Tensors

A tensor is a matrix of labels, stored row by row: one row per node, edge or graph, one column per feature. The operations here
go through its rows: `Tensor.rowList` is the list of rows, and `Tensor.ofRows` builds a tensor from rows of one width.
`Tensor.WellFormed` says that the numbers of rows and columns are what they claim to be; only decoding can yield a tensor for
which this fails.
-/

namespace ModalGraph

/-- A matrix of labels, row by row. -/
structure Tensor where
  rows : Int
  cols : Int
  dtype : DType
  data : Array Label
deriving DecidableEq, Repr, Inhabited

namespace Tensor

/-- The shape holds exactly the labels there are. -/
def WellFormed (t : Tensor) : Prop :=
  0 ≤ t.rows ∧ 0 ≤ t.cols ∧ (t.data.size : Int) = t.rows * t.cols

/-! ## Rows -/

/-- Row `i`. -/
def row (t : Tensor) (i : Nat) : List Label :=
  (t.data.extract (i * t.cols.toNat) ((i + 1) * t.cols.toNat)).toList

/-- Whether every row has its labels. Counting in words, a shape may call for fewer labels than its rows have. -/
def rowsReach (t : Tensor) : Bool :=
  t.rows ≤ 0 || (t.data.size : Int) == t.rows * t.cols

/-- The rows from first to last. -/
def rowList (t : Tensor) : List (List Label) :=
  (List.range t.rows.toNat).map t.row

/-- The tensor of some rows of width `cols`. -/
def ofRows (cols : Int) (dtype : DType) (rows : List (List Label)) : Tensor :=
  ⟨rows.length, cols, dtype, rows.flatten.toArray⟩

/-- A whole number as it is counted in 64 bits with a sign. -/
def word (n : Int) : Int :=
  Int.bmod n (Nat.pow 2 64)

/-- The labels from `i * cols` to `(i + 1) * cols` places from the start, counted in words, if there are so many. -/
def row? (t : Tensor) (i : Int) : Option (List Label) :=
  let low := word (i * t.cols)
  let high := word ((i + 1) * t.cols)
  if 0 ≤ low ∧ low ≤ high ∧ high ≤ t.data.size then some (t.data.extract low.toNat high.toNat).toList else none

/-- The label that stands `i * cols + j` places from the start, counted in words. -/
def at? (t : Tensor) (i j : Int) : Option Label :=
  let k := word (i * t.cols + j)
  if k < 0 then none else t.data[k.toNat]?

/-- The tensor with another label `i * cols + j` places from the start. -/
def set? (t : Tensor) (i j : Int) (v : Label) : Option Tensor :=
  let k := word (i * t.cols + j)
  if 0 ≤ k ∧ k < t.data.size then some { t with data := t.data.setIfInBounds k.toNat (t.dtype.cast v) } else none

/-- Column `j` as truth values: every label but zero is true. More rows than labels are too many. -/
def bools? (t : Tensor) (j : Int) : Option (List Bool) :=
  if t.rows < 0 ∨ (t.data.size : Int) < t.rows then none
  else (List.range t.rows.toNat).mapM fun i : Nat => (t.at? i j).map fun v => !v.isZero

/-! ## Building tensors -/

/-- The most labels that can be stored together. -/
def capacity : Nat := Nat.pow 2 45

/-- How many labels a shape calls for, counted in 64 bits, if so many can be stored. -/
def volume? (rows cols : Int) : Option Nat :=
  let n := word (rows * cols)
  if 0 ≤ n ∧ n ≤ capacity then some n.toNat else none

/-- A tensor of zeros. A shape that calls for more labels than can be stored has none. -/
def zeros (rows cols : Int) (dtype : DType) : Except Failure Tensor :=
  if rows < 0 ∨ cols < 0 then .error (.shapeIn "new" (.negativeShape rows cols))
  else
    match volume? rows cols with
    | none => .error .aborted
    | some n => .ok ⟨rows, cols, dtype, Array.replicate n Label.zero⟩

/-- The rows, if there is room for as many rows of width `cols` and every row has its labels. -/
def rowsInto (t : Tensor) (cols : Int) : Except Failure (List (List Label)) := do
  let _ ← zeros t.rows cols t.dtype
  if t.rowsReach then .ok t.rowList else .error .aborted

/-- The first row whose width is not `cols`, counting from `i`. -/
def ragged? (cols : Nat) (i : Nat) : List (List Label) → Option ShapeFault
  | [] => none
  | r :: rs => if r.length = cols then ragged? cols (i + 1) rs else some (.raggedRow i r.length cols)

/-- The tensor of some rows, every label taken into the domain. The first row sets the width, and there must be room for as many rows of
that width before any other row is looked at. -/
def fromRows (rows : List (List Label)) (dtype : DType) : Except Failure Tensor :=
  let cols := (rows.headD []).length
  if capacity < rows.length * cols then .error .aborted
  else
    match ragged? cols 0 rows with
    | some fault => .error (.shapeIn "from rows" fault)
    | none => .ok (ofRows cols dtype (rows.map fun r => r.map dtype.cast))

/-- One column of truth values. -/
def fromBools (bs : List Bool) : Tensor :=
  ofRows 1 .bool (bs.map fun b => [Label.ofBool b])

/-- One column of labels. -/
def column (dtype : DType) (vs : List Label) : Tensor :=
  ofRows 1 dtype (vs.map fun v => [dtype.cast v])

/-- `n` times the same row. Without labels or below zero nothing is written, and what the shape calls for in 64 bits stays zero. -/
def full (n : Int) (row : List Label) (dtype : DType) : Tensor :=
  if row.isEmpty ∨ n < 0 then ⟨n, row.length, dtype, Array.replicate (word (n * row.length)).toNat Label.zero⟩
  else { ofRows row.length dtype (List.replicate n.toNat (row.map dtype.cast)) with rows := n }

-- Irreducible, as the numbers in it are too large to be counted down where goals are compared.
/-- Whether there is room for rows of width `cols`: what the shape calls for in 64 bits can be stored, and every row has its place there.
Below zero there is no row, and the shape may call for nothing all the same. -/
@[irreducible]
def hasRoom (rows cols : Int) : Bool :=
  (volume? rows cols).any fun k : Nat => rows * cols ≤ k

/-- `n` times the same row, for any number, if there is room. -/
def full? (n : Int) (row : List Label) (dtype : DType) : Option Tensor :=
  if hasRoom n row.length then some (full n row dtype) else none

/-! ## Label by label -/

/-- Every label mapped and taken into a domain. -/
def map (t : Tensor) (dtype : DType) (f : Label → Label) : Tensor :=
  { t with dtype := dtype, data := t.data.map fun v => dtype.cast (f v) }

/-- Every label taken into a domain. -/
def asType (t : Tensor) (dtype : DType) : Tensor :=
  t.map dtype id

/-- Every row folded into one label. -/
def reduceRows (t : Tensor) (dtype : DType) (f : List Label → Label) : Tensor :=
  ofRows 1 dtype (t.rowList.map fun r => [dtype.cast (f r)])

/-- Every row folded into one label, if the number of rows is not negative, there is room for a label of each row, and every row has its
labels. -/
def reduceRows? (t : Tensor) (dtype : DType) (f : List Label → Label) : Option Tensor :=
  if 0 ≤ t.rows ∧ t.rows ≤ capacity ∧ t.rowsReach then some (t.reduceRows dtype f) else none

/-- Two tensors of one shape combined label by label. -/
def zip (a b : Tensor) (dtype : DType) (f : Label → Label → Label) : Except Failure Tensor :=
  if a.rows ≠ b.rows ∨ a.cols ≠ b.cols then .error (.shapeIn "zip" (.unequalShapes a.rows a.cols b.rows b.cols))
  else .ok { a with dtype := dtype, data := a.data.zipWith (fun x y => dtype.cast (f x y)) b.data }

/-- Same shape and equal labels; the domains may differ. -/
def equal (a b : Tensor) : Bool :=
  a.rows == b.rows && a.cols == b.cols && a.data.size == b.data.size &&
    (a.data.toList.zip b.data.toList).all fun (x, y) => x.same y

/-! ## Rows and columns -/

/-- The columns from `low` up to, not including, `high`. -/
def slice (t : Tensor) (low high : Int) : Except Failure Tensor :=
  if low < 0 ∨ t.cols < high ∨ high < low then .error (.shapeIn "slice" (.columnRange low high t.cols))
  else if t.rows < 0 then
    match volume? t.rows (high - low) with
    | none => .error .aborted
    | some n => .ok ⟨t.rows, high - low, t.dtype, Array.replicate n Label.zero⟩
  else if !t.rowsReach then .error .aborted
  else .ok { ofRows (high - low) t.dtype (t.rowList.map fun r => (r.drop low.toNat).take (high - low).toNat) with
    rows := t.rows }

/-- The first of some tensors, counting from `i`, whose number of rows is not `rows`. -/
def rowsFault? (rows : Int) (i : Nat) : List Tensor → Option ShapeFault
  | [] => none
  | t :: ts => if t.rows = rows then rowsFault? rows (i + 1) ts else some (.inputRows i t.rows rows)

/-- The first of some tensors, counting from `i`, whose width is not `cols`. -/
def widthFault? (cols : Int) (i : Nat) : List Tensor → Option ShapeFault
  | [] => none
  | t :: ts => if t.cols = cols then widthFault? cols (i + 1) ts else some (.inputWidth i t.cols cols)

/-- Row by row the labels of the first list, then those of the second. -/
def sideBySide (as bs : List (List Label)) : List (List Label) :=
  as.zipWith (· ++ ·) bs

/-- Tensors with one number of rows side by side. Their widths are added up in 64 bits; the rows must find room all the same. -/
def concat (ts : List Tensor) : Except Failure Tensor :=
  match ts with
  | [] => .error (.shapeIn "concat" .noInputs)
  | t :: rest =>
    match rowsFault? t.rows 0 ts with
    | some fault => .error (.shapeIn "concat" fault)
    | none =>
      let width := ts.foldr (fun u n => u.cols + n) 0
      let cols := word width
      let dtype := t.dtype.join (rest.map Tensor.dtype)
      match volume? t.rows cols with
      | none => .error .aborted
      | some n =>
        if t.rows < 0 then .ok ⟨t.rows, cols, dtype, Array.replicate n Label.zero⟩
        else if ts.all rowsReach ∧ t.rows * width ≤ n then
          .ok { ofRows cols dtype (rest.foldl (fun rows u => sideBySide rows u.rowList) t.rowList) with rows := t.rows }
        else .error .aborted

/-- Tensors of one width below each other. -/
def stack (ts : List Tensor) : Except Failure Tensor :=
  match ts with
  | [] => .error (.shapeIn "stack" .noInputs)
  | t :: rest =>
    match widthFault? t.cols 0 ts with
    | some fault => .error (.shapeIn "stack" fault)
    | none =>
      let rows := word (ts.foldr (fun u n => u.rows + n) 0)
      match volume? rows t.cols with
      | none => .error .aborted
      | some n =>
        let labels := ts.flatMap fun u => u.data.toList
        if n < labels.length then .error .aborted
        else .ok ⟨rows, t.cols, t.dtype.join (rest.map Tensor.dtype),
          (labels ++ List.replicate (n - labels.length) Label.zero).toArray⟩

/-- The row at an index. -/
def rowAt (t : Tensor) (i : Int) : Except Failure (List Label) :=
  if i < 0 ∨ t.rows ≤ i then .error (.shapeIn "gather" (.indexRange i t.rows))
  else
    match t.row? i with
    | some r => .ok r
    | none => .error .aborted

/-- The rows at some indices, in that order. They must find room where their number was counted in 64 bits. -/
def gather (t : Tensor) (idx : List Int) : Except Failure Tensor :=
  match volume? idx.length t.cols with
  | none => .error .aborted
  | some n => do
    let rows ← idx.mapM t.rowAt
    if idx.length * t.cols ≤ n then return ofRows t.cols t.dtype rows
    else throw .aborted

/-- Every row as often as its count says. -/
def repeatRows (t : Tensor) (counts : List Int) : Except Failure Tensor :=
  if (counts.length : Int) ≠ t.rows then .error (.shapeIn "repeat" (.countPerRow counts.length t.rows))
  else
    match counts.find? (· < 0) with
    | some c => .error (.shapeIn "repeat" (.negativeCount c))
    | none =>
      let total := counts.foldr (· + ·) 0
      if total = 0 || (t.rowsReach && (volume? (word total) t.cols).isSome) then
        .ok (ofRows t.cols t.dtype ((counts.zip t.rowList).flatMap fun (c, r) => List.replicate c.toNat r))
      else .error .aborted

end Tensor

end ModalGraph
