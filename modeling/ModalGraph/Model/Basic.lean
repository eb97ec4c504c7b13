import ModalGraph.Model.Node
import ModalGraph.Model.Spec

/-!
# Models

A model is a compiled formula: the nodes that its output needs, each after the nodes it reads from. Layers count the inputs and
the computation nodes that are reached without going into the body of a fixpoint.
-/

namespace ModalGraph

/-- Where the nodes of a computation are found by number. -/
abbrev NodeTable := Nat → Option Node

/-- The state of a walk: the numbers that have been seen, and the nodes that are done, the last one first. -/
structure Walk where
  seen : List Nat := []
  done : List Node := []

/-- Walks to a node: first to the nodes that `next` names, then the node itself. A node is entered once. No walk is deeper than
there are nodes, so that much fuel suffices. -/
def Walk.visit (table : NodeTable) (next : Node → List Nat) : Nat → Walk → Nat → Walk
  | 0, w, _ => w
  | fuel + 1, w, id =>
    if w.seen.contains id then w
    else
      match table id with
      | none => w
      | some n =>
        let w := (next n).foldl (Walk.visit table next fuel) { w with seen := id :: w.seen }
        { w with done := n :: w.done }

/-- The nodes reached from a node along `next`, each after the nodes that `next` names, among at most `size` nodes. -/
def reached (table : NodeTable) (next : Node → List Nat) (size : Nat) (out : Nat) : List Node :=
  (Walk.visit table next (size + 1) {} out).done.reverse

/-- A compiled formula. -/
structure Model where
  formula : Bytes
  spec : InputSpec
  output : Nat
  /-- Every node that the output needs, dependencies first. -/
  nodes : List Node

namespace Model

/-- The model of an output among the nodes of a table. -/
def ofTable (formula : Bytes) (spec : InputSpec) (table : NodeTable) (size : Nat) (out : Nat) : Model :=
  ⟨formula, spec, out, reached table Node.deps size out⟩

/-- The node of a number. -/
def node? (m : Model) (id : Nat) : Option Node :=
  m.nodes.find? fun n => n.id == id

/-- The same computation with another of its nodes as the output. -/
def focus (m : Model) (id : Nat) : Model :=
  ofTable m.formula m.spec m.node? m.nodes.length id

/-- The width of the output. -/
def width (m : Model) : Int :=
  ((m.node? m.output).map Node.width).getD unknownWidth

/-- The number of inputs and of computation nodes reached without going into a fixpoint. -/
def layers (m : Model) : Nat :=
  m.spec.inputs + (reached m.node? Node.inputs m.nodes.length m.output).countP fun n => n.kind != .input

/-- A text filled up with blanks to a width. -/
def pad (width : Nat) (s : String) : String :=
  s ++ String.ofList (List.replicate (width - s.length) ' ')

/-- A width in words. -/
def widthText (w : Int) : String :=
  if 0 ≤ w then toString w else "?"

/-- The line of a node. -/
def line? (m : Model) (n : Node) : Option String :=
  n.describe?.map fun words =>
    "  " ++ pad 28 n.name ++ " " ++ pad 8 n.kind.name ++ " width=" ++ pad 2 (widthText n.width) ++ " " ++ words ++
      (if n.id == m.output then "  <- output" else "") ++ "\n"

/-- Whether the output and every node that a node reads from are there. -/
def isComplete (m : Model) : Bool :=
  (m.node? m.output).isSome && m.nodes.all fun n => n.deps.all fun d => (m.node? d).isSome

/-- The model in words: formula, mode, and one line for each node. There are none if a node is missing. -/
def summary? (m : Model) : Option String := do
  if !m.isComplete then none
  let lines ← m.nodes.mapM m.line?
  return s!"formula: {m.formula.toText}\nmode: {m.spec.mode}  layers: {m.layers}  nodes: {m.nodes.length}\n" ++
    String.join lines

end Model

end ModalGraph
