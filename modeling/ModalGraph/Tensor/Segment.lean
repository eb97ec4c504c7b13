import ModalGraph.Tensor.Basic

/-!
# Folding rows together

Rows are folded into fewer rows in two ways: by the runs of equal values in a graph index that never decreases, and by a target
given for each row. A fold starts from an initial label in every column, takes the rows in order, and casts at the end.
-/

namespace ModalGraph.Tensor

/-- The lengths of the runs of equal values in a list, the first run starting with `v` and already `n` long. The list must not
decrease; `i` is the place of its first entry. -/
def runLengths (v : Int) (n i : Nat) : List Int → Except Failure (List Nat)
  | [] => .ok [n]
  | w :: rest =>
    if w = v then runLengths v (n + 1) (i + 1) rest
    else if w < v then .error (.shapeIn "segment counts" (.indexDecreases i w v))
    else do
      let more ← runLengths w 1 (i + 1) rest
      return n :: more

/-- The number of nodes of every graph in a graph index. -/
def segmentCounts : List Int → Except Failure (List Nat)
  | [] => .ok []
  | v :: rest => runLengths v 1 1 rest

/-- A row with the same label in every column. -/
def constantRow (cols : Nat) (v : Label) : List Label :=
  List.replicate cols v

/-- Rows folded column by column from an initial label. -/
def foldRows (f : Label → Label → Label) (init : Label) (cols : Nat) (rows : List (List Label)) : List Label :=
  rows.foldl (fun acc r => acc.zipWith f r) (constantRow cols init)

/-- A list cut into pieces of given lengths. -/
def pieces {α : Type} : List Nat → List α → List (List α)
  | [], _ => []
  | n :: ns, xs => xs.take n :: pieces ns (xs.drop n)

/-- The rows of every run of a graph index folded into one row. -/
def segmentReduce (t : Tensor) (index : List Int) (dtype : DType) (init : Label) (f : Label → Label → Label) :
    Except Failure Tensor :=
  if (index.length : Int) ≠ t.rows then .error (.shapeIn "segment reduce" (.indexLength index.length t.rows))
  else do
    let counts ← segmentCounts index
    if !t.rowsReach then throw .aborted
    return ofRows t.cols dtype
      ((pieces counts t.rowList).map fun rows => (foldRows f init t.cols.toNat rows).map dtype.cast)

/-- For each of `n` places, the rows sent there, in order. -/
def arrivals (n : Nat) (target : List Int) (rows : List (List Label)) : Array (List (List Label)) :=
  (target.zip rows).foldr (fun (d, r) acc => acc.modify d.toNat (r :: ·)) (Array.replicate n [])

/-- The row of a place that rows were sent to: their fold, or the empty label in every column if there are none. -/
def arrivalRow (f : Label → Label → Label) (init empty : Label) (cols : Nat) (rows : List (List Label)) : List Label :=
  if rows.isEmpty then constantRow cols empty else foldRows f init cols rows

/-- The most places that rows can be sent to. -/
def seats : Int := Nat.pow 2 48

/-- The fault of a target that is not among `n` places. -/
def targetFault (n d : Int) : Option ShapeFault :=
  if d < 0 || n ≤ d then some (.targetRange d n) else none

/-- Every row folded into the row that its target names. -/
def scatterReduce (t : Tensor) (target : List Int) (n : Int) (dtype : DType) (init empty : Label)
    (f : Label → Label → Label) : Except Failure Tensor :=
  if (target.length : Int) ≠ t.rows then .error (.shapeIn "scatter reduce" (.targetPerRow target.length t.rows))
  else if n < 0 ∨ seats < n ∨ (volume? n t.cols).isNone then .error .aborted
  else
    match (if t.rowsReach then target else target.take 1).findSome? (targetFault n) with
    | some fault => .error (.shapeIn "scatter reduce" fault)
    | none =>
      if !t.rowsReach ∨ (0 < n ∧ (t.cols < 0 ∨ word (n * t.cols) ≠ n * t.cols)) then .error .aborted
      else .ok (ofRows t.cols dtype
        ((arrivals n.toNat target t.rowList).toList.map fun rows =>
          (arrivalRow f init empty t.cols.toNat rows).map dtype.cast))

end ModalGraph.Tensor
