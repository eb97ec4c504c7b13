import ModalGraph.Graph.Basic
import ModalGraph.Model.Spec

/-!
# Inputs that go with a model

A model is compiled for inputs of one shape. `InputSpec.prepare` turns graphs into an input for it, and `InputSpec.check` says
whether an input has that shape: the batching mode, the widths of labels, the graph index and the edges.
-/

namespace ModalGraph.InputSpec

/-- The input of some graphs: a batch, or the one graph there is. -/
def prepare (s : InputSpec) (gs : List Graph) : Except Failure Input :=
  if s.batched then Graph.batch gs
  else
    match gs with
    | [g] => g.single
    | gs =>
      .error (.modeMismatch (Bytes.ofString "input") false s!"single-graph model evaluated on {gs.length} graphs")

/-- The failure of an input in the other batching mode. -/
def wrongMode (s : InputSpec) : Failure :=
  .modeMismatch (Bytes.ofString "input") s.batched
    (if s.batched then "model compiled for batches received no graph index"
      else "model compiled for a single graph received a graph index")

/-- The graph index has one entry per node and never decreases. -/
def checkIndex (input : Input) : Except Failure Unit :=
  match input.index with
  | none => .ok ()
  | some index => do
    if (index.length : Int) ≠ input.nodes then
      throw (.shapeIn "input" (.graphIndexLength index.length input.nodes))
    let _ ← Tensor.segmentCounts index
    return ()

/-- The edge labels are there if they must be, one row per edge and of the right width. -/
def checkEdgeLabels (s : InputSpec) (input : Input) : Except Failure Unit :=
  match s.edge, input.e with
  | none, _ => .ok ()
  | some _, none => .error (.edgeLabels "model compiled with edge labels received none")
  | some edge, some e =>
    if e.rows ≠ input.sources.length then
      .error (.edgeLabels s!"{e.rows} label rows for {input.sources.length} edges")
    else if e.cols ≠ edge.width then .error (.shapeIn "input" (.edgeLabelWidth e.cols edge.width))
    else .ok ()

/-- Every edge has two ends among the nodes, and labels as they must be. -/
def checkEdges (s : InputSpec) (input : Input) : Except Failure Unit := do
  if input.sources.length ≠ input.targets.length then
    throw (.shapeIn "input" (.edgeEnds input.sources.length input.targets.length))
  match strayEdge? input.nodes 0 (input.sources.zip input.targets) with
  | some f => throw f
  | none => s.checkEdgeLabels input

/-- The input, if it has the shape that a model is compiled for. -/
def check (s : InputSpec) (input? : Option Input) : Except Failure Input :=
  match input? with
  | none => .error .noNodeLabels
  | some input => do
    if s.batched != input.isBatched then throw s.wrongMode
    if input.x.cols ≠ s.node.width then throw (.shapeIn "input" (.nodeLabelWidth input.x.cols s.node.width))
    checkIndex input
    if s.adjacency then s.checkEdges input
    return input

end ModalGraph.InputSpec
