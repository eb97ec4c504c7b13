import ModalGraph.Tensor.DType

/-!
# What a model is compiled for

The labels of nodes and edges, whether there are edges at all, and whether graphs come in batches. The mode is written with one
letter for each part that is present.
-/

namespace ModalGraph

/-- The domain and the width of labels. -/
structure LabelSpec where
  dtype : DType
  width : Int
deriving DecidableEq, Repr, Inhabited

/-- The shape of the inputs of a model. -/
structure InputSpec where
  node : LabelSpec
  edge : Option LabelSpec := none
  adjacency : Bool := false
  batched : Bool := false
deriving DecidableEq, Repr, Inhabited

namespace InputSpec

/-- The number of inputs: node labels, and adjacency, edge labels and graph index as far as present. -/
def inputs (s : InputSpec) : Nat :=
  1 + s.adjacency.toNat + s.edge.isSome.toNat + s.batched.toNat

/-- The name of the mode. -/
def mode (s : InputSpec) : String :=
  "x" ++ (if s.adjacency then "a" else "") ++ (if s.edge.isSome then "e" else "") ++ (if s.batched then "i" else "")

/-- What is wrong with the edge labels of a shape. -/
def edgeFaults (s : InputSpec) : List Failure :=
  match s.edge with
  | none => []
  | some edge =>
    (if s.adjacency then [] else [.setting .edgeWithoutAdjacency]) ++
      (if edge.width ≤ 0 then [.setting (.edgeWidth edge.width)] else [])

/-- Everything that is wrong with a shape. -/
def faults (s : InputSpec) : List Failure :=
  (if s.node.width ≤ 0 then [.setting (.nodeWidth s.node.width)] else []) ++ s.edgeFaults

end InputSpec

end ModalGraph
