import ModalGraph.Label.Numeral
import ModalGraph.Operator.Registry

/-!
# Builtin operators

The operators every compiler starts with: tests of single bits, constants, the boolean connectives, differences and pooling
among the psi; disjunction, conjunction, sum, maximum and minimum among the sigma; the ends of an edge, its label, and the
test for a zero edge label among the phi.
-/

namespace ModalGraph.Builtin

/-! ## Psi -/

/-- Whether bit `k` of the whole part of a label is set, out of 64 bits. -/
def hasBit (k : Nat) (v : Label) : Bool :=
  k < 64 && v.toSigned 64 / Nat.pow 2 k % 2 == 1

/-- The test of bit `k`. -/
def bit (k : Nat) : Psi :=
  .total Width.same fun x => x.map .bool fun v => Label.ofBool (hasBit k v)

/-- The test of the bit whose place is the argument, from 0 to 62. -/
def makeBit : Constructor Psi
  | none => .error (.argument .missingBit)
  | some text =>
    match Numeral.int64? (Bytes.toText (Text.trim text)).toList with
    | some k => if 0 ≤ k ∧ k ≤ 62 then .ok (bit k.toNat) else .error (.argument (.invalidBit text))
    | none => .error (.argument (.invalidBit text))

/-- The same label for every node. -/
def constant (dtype : DType) (v : Label) : Psi :=
  .stored (Width.fixed 1) fun x => Tensor.full? x.rows [v] dtype

/-- The constant that the argument spells: a truth value or a number. -/
def makeConstant : Constructor Psi
  | none => .error (.argument .missingConstant)
  | some text =>
    let word := Text.lower (Text.trim text)
    if word == Bytes.ofString "true" then .ok (constant .bool Label.one)
    else if word == Bytes.ofString "false" then .ok (constant .bool Label.zero)
    else
      match Numeral.label? (Bytes.toText word).toList with
      | some v => .ok (constant .float64 v)
      | none => .error (.argument (.invalidConstant text))

/-- Every feature is true. -/
def conjunction : Psi :=
  .stored (Width.fixed 1) fun x => x.reduceRows? .bool fun r => Label.ofBool (r.all fun v => !v.isZero)

/-- Some feature is true. -/
def disjunction : Psi :=
  .stored (Width.fixed 1) fun x => x.reduceRows? .bool fun r => Label.ofBool (r.any fun v => !v.isZero)

/-- Every feature negated. -/
def negation : Psi :=
  .total Width.same fun x => x.map .bool fun v => Label.ofBool v.isZero

/-- The labels as they are. -/
def identity : Psi :=
  .pointwise Width.same .ok

/-- One in every feature. -/
def ones : Psi :=
  .total Width.same fun x => x.map x.dtype fun _ => Label.one

/-- The differences of the first label of a row and the others. -/
def rowDifferences (dtype : DType) : List Label → List Label
  | [] => []
  | v :: rest => rest.map fun w => dtype.cast (v.sub w)

/-- The first feature less each of the others; there must be others. -/
def differences (x : Tensor) : Except Failure Labels :=
  if x.cols < 2 then .error (.shapeIn "min" (.tooFewFeatures x.cols))
  else do
    let rows ← x.rowsInto (x.cols - 1)
    return some (Tensor.ofRows (x.cols - 1) x.dtype (rows.map (rowDifferences x.dtype)))

/-- One feature less; fewer than two have no result. -/
def differencesWidth (width : Int) : Int :=
  if width < 2 then unknownWidth else width - 1

def difference : Psi :=
  .pointwise differencesWidth fun x => x.required >>= differences

/-- The row that all rows are folded into; no row at all gives zeros. -/
def pooledRow (init : Label) (f : Label → Label → Label) (x : Tensor) : List Label :=
  if x.rows = 0 then Tensor.constantRow x.cols.toNat Label.zero
  else (Tensor.foldRows f init x.cols.toNat x.rowList).map x.dtype.cast

/-- All rows folded into one, if there is room for it and every row has its labels. -/
def poolAll (init : Label) (f : Label → Label → Label) (x : Tensor) : Except Failure Tensor :=
  if x.cols < 0 ∨ Tensor.capacity < x.cols ∨ !x.rowsReach then .error .aborted
  else .ok (Tensor.ofRows x.cols x.dtype [pooledRow init f x])

/-- Pooling by a fold over the rows of a graph. -/
def pool (name : String) (init : Label) (f : Label → Label → Label) : Psi :=
  .pooling (Bytes.ofString name) (some fun x => x.required >>= poolAll init f)
    (some fun x index => do
      let x ← x.required
      x.segmentReduce index x.dtype init f)
    Width.same

/-- The builtin psi. -/
def psi : Registry Psi :=
  let constructors : List (String × Constructor Psi) := [("bit", makeBit), ("const", makeConstant)]
  let operators : List (String × Psi) :=
    [("a", bit 0), ("b", bit 1), ("c", bit 2), ("true", constant .bool Label.one), ("false", constant .bool Label.zero),
      ("and", conjunction), ("or", disjunction), ("not", negation), ("id", identity), ("one", ones), ("min", difference),
      ("sub", difference), ("gsum", pool "gsum" Label.zero Label.add), ("gmax", pool "gmax" Label.negInf Label.max)]
  operators.foldl (fun r (name, op) => r.register (Bytes.ofString name) op)
    (constructors.foldl (fun r (name, make) => r.insert (Bytes.ofString name) make) (.empty .psi))

/-! ## Sigma -/

/-- Messages folded at their targets into a domain, or into that of the messages. -/
def gather (dtype : Option DType) (init empty : Label) (f : Label → Label → Label) : Sigma where
  aggregate m targets n _ := do
    let m ← m.required
    some <$> m.scatterReduce targets n (dtype.getD m.dtype) init empty f
  width := Width.same

/-- One once a label is not zero. -/
def anyTrue (acc v : Label) : Label :=
  if v.isZero then acc else Label.one

/-- Zero once a label is zero. -/
def allTrue (acc v : Label) : Label :=
  if v.isZero then Label.zero else acc

/-- The builtin sigma. Without messages `and` is true and all others are zero. -/
def sigma : Registry Sigma :=
  let any := gather (some .bool) Label.zero Label.zero anyTrue
  let operators : List (String × Sigma) :=
    [("or", any), ("uor", any), ("and", gather (some .bool) Label.one Label.one allTrue),
      ("sum", gather none Label.zero Label.zero Label.add), ("max", gather none Label.negInf Label.zero Label.max),
      ("min", gather none Label.posInf Label.zero Label.min)]
  operators.foldl (fun r (name, op) => r.register (Bytes.ofString name) op) (.empty .sigma)

/-! ## Phi -/

/-- Row `i` of the target labels, true where the label is true and that of the edge is zero. -/
def zeroEdgeRow (edge : Tensor) (i : Nat) (row : List Label) : Except Failure (List Label) :=
  row.zipIdx.mapM fun (v, j) =>
    if v.isZero then .ok Label.zero
    else
      match edge.at? i (if 1 < edge.cols then (j : Int) else 0) with
      | none => .error .aborted
      | some e => .ok (Label.ofBool e.isZero)

/-- The target labels at edges whose label is zero. Edge labels of width one go for every feature. -/
def zeroEdge (edge target : Labels) : Except Failure Labels :=
  match edge with
  | none => .error (.shapeIn "z" .edgeLabelsRequired)
  | some e => do
    let target ← target.required
    if e.cols ≠ 1 ∧ e.cols ≠ target.cols then throw (.shapeIn "z" (.edgeWidth e.cols target.cols))
    let rows ← target.rowsInto target.cols
    let rows ← rows.zipIdx.mapM fun (row, i) => zeroEdgeRow e i row
    return some (Tensor.ofRows target.cols .bool rows)

/-- The labels of the edges. -/
def edgeLabels (edge : Labels) : Except Failure Labels :=
  match edge with
  | none => .error (.shapeIn "edge" .edgeLabelsRequired)
  | some e => .ok (some e)

/-- The builtin phi. -/
def phi : Registry Phi :=
  let operators : List (String × Phi) :=
    [("z", ⟨fun _ e t => zeroEdge e t, Width.same⟩), ("src", ⟨fun s _ _ => .ok s, Width.same⟩),
      ("tgt", ⟨fun _ _ t => .ok t, Width.same⟩), ("edge", ⟨fun _ e _ => edgeLabels e, Width.unknown⟩)]
  operators.foldl (fun r (name, op) => r.register (Bytes.ofString name) op) (.empty .phi)

/-- The builtin registries. -/
def registries : Registries :=
  ⟨psi, sigma, phi⟩

end ModalGraph.Builtin
