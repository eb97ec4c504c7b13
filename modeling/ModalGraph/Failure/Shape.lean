import ModalGraph.Text.Quoted

/-!
# Shapes that do not fit

Every way in which the numbers of rows, columns, edges or graphs can disagree, with its wording. A `ShapeError` names the
operation that noticed.
-/

namespace ModalGraph

/-- Why shapes do not fit. -/
inductive ShapeFault where
  | negativeShape (rows cols : Int)
  | raggedRow (row got want : Nat)
  | columnRange (low high width : Int)
  | noInputs
  | inputRows (input : Nat) (got want : Int)
  | inputWidth (input : Nat) (got want : Int)
  | indexRange (index rows : Int)
  | countPerRow (counts : Nat) (rows : Int)
  | negativeCount (count : Int)
  | unequalShapes (rows cols rows' cols' : Int)
  | indexDecreases (position : Nat) (value previous : Int)
  | indexLength (entries : Nat) (rows : Int)
  | targetPerRow (targets : Nat) (rows : Int)
  | targetRange (target rows : Int)
  | valueCount (values rows cols : Nat)
  | pooledRows (rows : Int)
  | pooledGraphs (rows : Int) (graphs : Nat)
  | tooFewFeatures (width : Int)
  | edgeLabelsRequired
  | edgeWidth (edge label : Int)
  | initialValues (which : String) (values : Nat) (width : Int)
  | bodyWidth (got : Int) (base : Bytes) (want : Int)
  | producedRows (rows nodes : Int)
  | producedMessages (messages : Int) (edges : Nat)
  | bodyShape (rows cols : Int) (base : Bytes) (nodes width : Int)
  | nodeLabelWidth (got want : Int)
  | graphIndexLength (entries : Nat) (nodes : Int)
  | edgeEnds (sources targets : Nat)
  | edgeLabelWidth (got want : Int)
  | stated (message : String)
deriving DecidableEq, Repr

/-- The wording of a fault. -/
def ShapeFault.message : ShapeFault → String
  | .negativeShape r c => s!"negative shape {r}x{c}"
  | .raggedRow i got want => s!"row {i} has {got} values, want {want}"
  | .columnRange lo hi w => s!"columns [{lo},{hi}) out of range for width {w}"
  | .noInputs => "no inputs"
  | .inputRows i got want => s!"input {i} has {got} rows, want {want}"
  | .inputWidth i got want => s!"input {i} has width {got}, want {want}"
  | .indexRange i rows => s!"index {i} out of range for {rows} rows"
  | .countPerRow n rows => s!"{n} counts for {rows} rows"
  | .negativeCount c => s!"negative count {c}"
  | .unequalShapes r c r' c' => s!"{r}x{c} vs " ++ toString r' ++ "x" ++ toString c'
  | .indexDecreases i v p => s!"index decreases at position {i} ({v} after {p})"
  | .indexLength n rows => s!"index has {n} entries for {rows} rows"
  | .targetPerRow n rows => s!"{n} targets for {rows} rows"
  | .targetRange t rows => s!"target {t} out of range for {rows} rows"
  | .valueCount n r c => s!"{n} values for a {r}x{c} tensor"
  | .pooledRows r => s!"pooling produced {r} rows, want 1"
  | .pooledGraphs r g => s!"pooling produced {r} rows for {g} graphs"
  | .tooFewFeatures w => s!"need at least 2 features, got {w}"
  | .edgeLabelsRequired => "edge labels required"
  | .edgeWidth e w => s!"edge width {e} does not match label width {w}"
  | .initialValues which n w => s!"{which} has {n} values for width {w}"
  | .bodyWidth got base want => s!"body has width {got}, {base.toText} declares {want}"
  | .producedRows r n => s!"produced {r} rows for {n} nodes"
  | .producedMessages m e => s!"produced {m} messages for {e} edges"
  | .bodyShape r c base n w => s!"body produced {r}x{c} labels, {base.toText} declares {n}x{w}"
  | .nodeLabelWidth got want => s!"node labels have width {got}, configured {want}"
  | .graphIndexLength n nodes => s!"graph index has {n} entries for {nodes} nodes"
  | .edgeEnds s t => s!"{s} edge sources for {t} targets"
  | .edgeLabelWidth got want => s!"edge labels have width {got}, configured {want}"
  | .stated m => m

/-- Shapes that do not fit, and the operation that noticed (empty if none is named). -/
structure ShapeError where
  op : Bytes
  fault : ShapeFault
deriving DecidableEq, Repr

/-- The wording of a shape error. -/
def ShapeError.message (e : ShapeError) : String :=
  if e.op.isEmpty then s!"shape error: {e.fault.message}" else s!"shape error in {e.op.toText}: {e.fault.message}"

end ModalGraph
