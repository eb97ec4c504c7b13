import ModalGraph.Formula.Expr
import ModalGraph.Operator.Family
import ModalGraph.Text.Fingerprint

/-!
# Computation nodes

A node is one step of a computation: the input, an operator on the labels of another node, several results side by side, one
step of message passing, a variable, or a fixpoint. Nodes name each other by number. A node's key spells out what it computes,
and its name is short for the key.
-/

namespace ModalGraph

export Formula (Direction)

/-- The kinds of node. A code of no kind is kept as it is. -/
inductive NodeKind where
  | input
  | psi
  | concat
  | diamond
  | variable
  | fixpoint
  | other (code : Int)
deriving DecidableEq, Repr, Inhabited

/-- The kind of a code. -/
def NodeKind.ofCode : Int → NodeKind
  | 0 => .input
  | 1 => .psi
  | 2 => .concat
  | 3 => .diamond
  | 4 => .variable
  | 5 => .fixpoint
  | n => .other n

/-- The name of a kind. -/
def NodeKind.name : NodeKind → String
  | .input => "input"
  | .psi => "psi"
  | .concat => "concat"
  | .diamond => "diamond"
  | .variable => "variable"
  | .fixpoint => "fixpoint"
  | .other n => s!"kind({n})"

/-- The direction of a node. A code of no direction is kept as it is; it counts as forward. -/
inductive NodeDirection where
  | forward
  | backward
  | other (code : Int)
deriving DecidableEq, Repr, Inhabited

namespace NodeDirection

/-- The direction of a code. -/
def ofCode : Int → NodeDirection
  | 0 => .forward
  | 1 => .backward
  | n => .other n

/-- A direction as a node keeps it. -/
def ofDirection : Direction → NodeDirection
  | .forward => .forward
  | .backward => .backward

/-- The direction that counts. -/
def sense : NodeDirection → Direction
  | .backward => .backward
  | _ => .forward

/-- The name of a direction. -/
def name : NodeDirection → String
  | .backward => "backward"
  | _ => "forward"

end NodeDirection

/-- The variable of a fixpoint: its name, the key of its node, the base that declares its labels, and the row it starts from. -/
structure Binder where
  least : Bool
  name : Bytes
  var : Bytes
  base : Bytes
  init : Option (List Label)
  dtype : DType
deriving Repr, Inhabited

/-- The operators that a node uses. -/
inductive NodeOperators where
  | none
  | psi (op : Psi)
  | diamond (phi : Option Phi) (sigma : Sigma)

/-- A computation node. -/
structure Node where
  id : Nat
  key : Bytes
  kind : NodeKind
  /-- The nodes whose labels it reads. -/
  inputs : List Nat := []
  /-- The key of its operator; of a diamond that of the aggregation. -/
  opName : Bytes := []
  /-- The key of the message operator of a diamond. -/
  phiName : Bytes := []
  operators : NodeOperators := .none
  direction : NodeDirection := .forward
  binder : Option Binder := none
  /-- The body of a fixpoint. -/
  body : Option Nat := none
  width : Int := 0
  /-- The keys of the variables it depends on that are not bound inside, in order. -/
  free : List Bytes := []

namespace Node

/-- A short name. -/
def name (n : Node) : String :=
  n.kind.name ++ "_" ++ Fingerprint.text n.key

/-- Whether a node depends on no variable. -/
def isClosed (n : Node) : Bool :=
  n.free.isEmpty

/-- The nodes it reads from, the body of a fixpoint last. -/
def deps (n : Node) : List Nat :=
  n.inputs ++ n.body.toList

/-- Numbers of nodes in a list. -/
def refs (ids : List Nat) : String :=
  ",".intercalate (ids.map fun i => s!"#{i}")

/-- The word that opens a fixpoint. -/
def binderWord (least : Bool) : String :=
  if least then "mu" else "nu"

/-- A node in words. A variable needs its binder, a fixpoint also its body; a negative code is not even the code of another
kind. -/
def describe? (n : Node) : Option String :=
  match n.kind with
  | .input => some s!"#{n.id} x"
  | .psi => some s!"#{n.id} {n.opName.toText}({refs n.inputs})"
  | .concat => some s!"#{n.id} concat({refs n.inputs})"
  | .diamond =>
    some s!"#{n.id} {n.direction.name} {n.phiName.toText}/{n.opName.toText}({refs n.inputs})"
  | .variable => n.binder.map fun b => s!"#{n.id} {b.name.toText}"
  | .fixpoint => do
    let b ← n.binder
    let body ← n.body
    return s!"#{n.id} {binderWord b.least} {b.name.toText},{b.base.toText} body=#{body}"
  | .other code => if code < 0 then none else some s!"#{n.id}"

end Node

end ModalGraph
