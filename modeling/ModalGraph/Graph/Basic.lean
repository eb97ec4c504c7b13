import ModalGraph.Operator.Family

/-!
# Graphs

A graph has labelled nodes, directed edges between node positions, and labels on the edges if it wants. An evaluation works on
an `Input`: one graph (`Graph.single`), or several put side by side (`Graph.batch`), where edge ends are shifted by the nodes of
the graphs before and a graph index tells the graph of every node.
-/

namespace ModalGraph

/-- A labelled directed graph. -/
structure Graph where
  /-- One row per node. -/
  x : Option Tensor
  /-- Source and target of every edge. -/
  edges : List (Int × Int)
  /-- One row per edge. -/
  e : Option Tensor

/-- What an evaluation works on. -/
structure Input where
  x : Tensor
  sources : List Int
  targets : List Int
  e : Option Tensor
  index : GraphIndex

/-- Whether the input is a batch. -/
def Input.isBatched (input : Input) : Bool :=
  input.index.isSome

/-- The number of nodes. -/
def Input.nodes (input : Input) : Int :=
  input.x.rows

/-- An edge end outside the graph. -/
def isOutside (nodes : Int) (i : Int) : Bool :=
  i < 0 || nodes ≤ i

/-- The first edge with an end outside the graph, counting from `i`. -/
def strayEdge? (nodes : Int) (i : Nat) : List (Int × Int) → Option Failure
  | [] => none
  | (s, t) :: rest =>
    if isOutside nodes s || isOutside nodes t then some (.edgeOutOfRange i s t nodes) else strayEdge? nodes (i + 1) rest

namespace Graph

/-- The node labels of a graph whose parts go together. -/
def validate (g : Graph) : Except Failure Tensor :=
  match g.x with
  | none => .error .noNodeLabels
  | some x =>
    match strayEdge? x.rows 0 g.edges with
    | some f => .error f
    | none =>
      match g.e with
      | none => .ok x
      | some e =>
        if e.rows ≠ g.edges.length then
          .error (.edgeLabels s!"{e.rows} label rows for {g.edges.length} edges")
        else .ok x

/-- One graph as an input, without a graph index. -/
def single (g : Graph) : Except Failure Input := do
  let x ← g.validate
  return ⟨x, g.edges.map Prod.fst, g.edges.map Prod.snd, g.e, none⟩

/-- Graphs put together: node labels, edges, edge labels and graph numbers, in the order of the graphs. -/
structure Union where
  xs : List Tensor := []
  edges : List (Int × Int) := []
  es : List Tensor := []
  index : List Int := []

/-- A graph with its node labels put before others: it has number `i`, and `offset` nodes come before its own. -/
def Union.after (u : Union) (i : Nat) (offset : Int) (g : Graph) (x : Tensor) : Union where
  xs := x :: u.xs
  edges := (g.edges.map fun (s, t) => (s + offset, t + offset)) ++ u.edges
  es := g.e.toList ++ u.es
  index := List.replicate x.rows.toNat (i : Int) ++ u.index

/-- Some graphs put together, numbered from `i`, with `offset` nodes before theirs. All of them have edge labels, or none has. -/
def unite (labelled : Bool) (i : Nat) (offset : Int) : List Graph → Except Failure Union
  | [] => .ok {}
  | g :: gs => do
    let x ← inPlace s!"graph {i}" g.validate
    if g.e.isSome != labelled then
      throw (.within s!"graph {i}" (.edgeLabels "edge labels must be present in all graphs or none"))
    let u ← unite labelled (i + 1) (offset + x.rows) gs
    return u.after i offset g x

/-- The edge labels of a batch: none, or all of them below each other. -/
def stackEdgeLabels : List Tensor → Except Failure (Option Tensor)
  | [] => .ok none
  | es => inPlace "stack edge labels" (some <$> Tensor.stack es)

/-- Several graphs side by side. All of them have edge labels, or none has. -/
def batch (gs : List Graph) : Except Failure Input :=
  match gs with
  | [] => .error .emptyBatch
  | g :: _ => do
    let u ← unite g.e.isSome 0 0 gs
    let x ← inPlace "stack node labels" (Tensor.stack u.xs)
    let e ← stackEdgeLabels u.es
    return ⟨x, u.edges.map Prod.fst, u.edges.map Prod.snd, e, some u.index⟩

end Graph

end ModalGraph
