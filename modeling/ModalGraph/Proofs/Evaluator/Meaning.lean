import Mathlib.Logic.Relation
import ModalGraph.Compiler.Basic
import ModalGraph.Evaluator.Basic
import ModalGraph.Proofs.Step

/-!
# What a formula means

The meaning of a formula on an input, by recursion on the formula and without nodes, keys or kept labels. An operand is a result that
may be a failure: it counts only where an operator consumes it. A variable has the labels that its innermost binder assigns to its
name. A fixpoint applies its body to its own assignment, from the row that its base declares, until two assignments in a row are
equal; the number of applications is limited.
-/

namespace ModalGraph

open Formula

/-- What the meaning of a formula depends on: the operators, the settings, the input, and the limit that is set on iterations. -/
structure Scene where
  ops : Registries
  settings : Settings
  input : Input
  maxIterations : Int

/-- Applies a body to labels until they do not change, at most `remaining` times more out of `limit`. -/
def settle (limit : Nat) (body : Tensor → Except Failure Tensor) : Nat → Tensor → Except Failure Tensor
  | 0, _ => .error (.nonTermination [] limit)
  | remaining + 1, current => do
    let next ← body current
    if next.equal current then return current else settle limit body remaining next

/-- An assignment at which a body settles is reached by turns of the body. -/
theorem settle_turns {limit : Nat} {body : Tensor → Except Failure Tensor} {remaining : Nat} {x y : Tensor}
    (h : settle limit body remaining x = .ok y) : Relation.ReflTransGen (fun a b => body a = .ok b) x y := by
  induction remaining generalizing x with
  | zero => cases h
  | succ remaining ih =>
    obtain ⟨next, hnext, h⟩ := bind_ok h
    split at h
    · rw [Except.ok.inj h]
    · exact .head hnext (ih h)

/-- A body is applied at least once before it settles. -/
theorem settle_first {limit : Nat} {body : Tensor → Except Failure Tensor} {remaining : Nat} {x y : Tensor}
    (h : settle limit body remaining x = .ok y) : ∃ next, body x = .ok next := by
  cases remaining with
  | zero => cases h
  | succ remaining =>
    obtain ⟨next, hnext, _⟩ := bind_ok h
    exact ⟨next, hnext⟩

namespace Scene

/-- The number of nodes. -/
def nodes (s : Scene) : Int :=
  s.input.nodes

/-- Labels must be there, one row per node. -/
def rowPerNode (s : Scene) : Labels → Except Failure Tensor
  | none => .error (.noLabels [])
  | some out => if out.rows = s.nodes then .ok out else .error (.shape ⟨[], .producedRows out.rows s.nodes⟩)

theorem rowPerNode_eq {s : Scene} {out : Labels} {y : Tensor} (h : s.rowPerNode out = .ok y) : out = some y := by
  cases out with
  | none => cases h
  | some t =>
    rw [rowPerNode] at h
    split at h
    · rw [Except.ok.inj h]
    · cases h

/-- What an operator makes of the labels of the nodes: on a batch it is told the graph of every node. -/
def atom (s : Scene) (name : Bytes) (arg : Argument) (x : Tensor) : Except Failure Tensor := do
  let psi ← s.ops.psi.get name arg
  let out ← (if s.input.isBatched then psi.multiple (some x) s.input.index else psi.single (some x))
  s.rowPerNode out

/-- The edge ends where messages start and where they go. -/
def ends (s : Scene) : Direction → List Int × List Int
  | .forward => (s.input.sources, s.input.targets)
  | .backward => (s.input.targets, s.input.sources)

/-- The edge labels, where the settings want them. -/
def edgeLabels (s : Scene) : Labels :=
  if s.settings.input.edge.isSome then s.input.e else none

/-- Messages must be there, one for each edge. -/
def messagePerEdge (edges : Nat) : Labels → Except Failure Tensor
  | none => .error (.shape ⟨[], .producedMessages 0 edges⟩)
  | some m => if m.rows = edges then .ok m else .error (.shape ⟨[], .producedMessages m.rows edges⟩)

/-- The messages along the edges: the labels where the edges start, or what a phi makes of the labels at both ends and of the edge
labels. -/
def messages (s : Scene) (direction : Direction) (phiKey : Option Bytes) (x : Tensor) : Except Failure Tensor := do
  let labels ← x.gather (s.ends direction).1
  match phiKey with
  | none => return labels
  | some key =>
    let phi ← s.ops.phi.resolve key
    let targets ← x.gather (s.ends direction).2
    let m ← phi.messages (some labels) s.edgeLabels (some targets)
    messagePerEdge (s.ends direction).2.length m

/-- One step of message passing: messages, and their aggregation where they go. -/
def diamond (s : Scene) (direction : Direction) (phiKey : Option Bytes) (sigmaKey : Bytes) (x : Tensor) : Except Failure Tensor := do
  let sigma ← s.ops.sigma.resolve sigmaKey
  let m ← s.messages direction phiKey x
  let out ← sigma.aggregate (some m) (s.ends direction).2 s.nodes (some x)
  s.rowPerNode out

/-- How often a body is applied at most: as often as is set, or as the lattice of truth values is high and once more, counted in 64 bits,
but not less often than the default. -/
def limit (s : Scene) (width : Nat) : Nat :=
  if 0 < s.maxIterations then s.maxIterations.toNat else max Evaluator.Task.defaultIterations (Tensor.word (s.nodes * width + 1)).toNat

/-- What a fixpoint starts from: the row of its base at every node, for which there must be room. It comes with its width. -/
def opening (s : Scene) (least : Bool) (name : Bytes) : Except Failure (Nat × Tensor) :=
  match s.settings.base? name with
  | none => .error (.unknownOperator "fixpoint" name)
  | some base => do
    let row ← base.init least
    let start ← orAborted (Tensor.full? s.nodes row base.dtype)
    return (row.length, start)

section

variable {s : Scene} {least : Bool} {name : Bytes} {b : Base} {row : List Label}

/-- What a fixpoint over a base that is there starts from, with the row that the base gives. -/
theorem opening_eq (hb : s.settings.base? name = some b) (hrow : b.init least = .ok row) : s.opening least name =
    (orAborted (Tensor.full? s.nodes row b.dtype) >>= fun start => .ok (row.length, start)) := by
  rw [opening, hb]
  dsimp only
  rw [hrow]
  rfl

theorem opening_ok {w : Nat} {x : Tensor} (h : s.opening least name = .ok (w, x)) : ∃ b row, s.settings.base? name = some b ∧
    b.init least = .ok row ∧ row.length = w ∧ Tensor.full? s.nodes row b.dtype = some x := by
  rw [opening] at h
  split at h
  · cases h
  · rename_i b hb
    obtain ⟨row, hrow, h⟩ := bind_ok h
    obtain ⟨start, hstart, h⟩ := bind_ok h
    obtain ⟨rfl, rfl⟩ := Prod.mk.inj (Except.ok.inj h)
    exact ⟨b, row, hb, hrow, rfl, orAborted_ok hstart⟩

end

/-- What a body gives, if it has the shape of an assignment. -/
def assigned (s : Scene) (width : Nat) (body : Tensor → Except Failure Tensor) (current : Tensor) : Except Failure Tensor := do
  let next ← body current
  if next.rows = s.nodes ∧ next.cols = width then return next
  else throw (.shape ⟨[], .bodyShape next.rows next.cols [] s.nodes width⟩)

/-- The assignment at which a body settles, from what the fixpoint starts from. -/
def fixpoint (s : Scene) (least : Bool) (name : Bytes) (body : Tensor → Except Failure Tensor) : Except Failure Tensor := do
  let (width, start) ← s.opening least name
  settle (s.limit width) (s.assigned width body) (s.limit width) start

/-- A fixpoint over a base that is there, with the row that it starts from. -/
theorem fixpoint_eq {s : Scene} {least : Bool} {name : Bytes} {b : Base} {row : List Label} (hb : s.settings.base? name = some b)
    (hrow : b.init least = .ok row) (body : Tensor → Except Failure Tensor) : s.fixpoint least name body =
      (orAborted (Tensor.full? s.nodes row b.dtype) >>=
        settle (s.limit row.length) (s.assigned row.length body) (s.limit row.length)) := by
  rw [fixpoint, opening_eq hb hrow]
  cases orAborted (Tensor.full? s.nodes row b.dtype) with
  | error f => rfl
  | ok start => rfl

/-- A fixpoint whose start there is room for. -/
theorem fixpoint_eq_settle {s : Scene} {least : Bool} {name : Bytes} {b : Base} {row : List Label}
    (hb : s.settings.base? name = some b) (hrow : b.init least = .ok row) {start : Tensor}
    (hstart : Tensor.full? s.nodes row b.dtype = some start) (body : Tensor → Except Failure Tensor) : s.fixpoint least name body =
      settle (s.limit row.length) (s.assigned row.length body) (s.limit row.length) start := by
  rw [fixpoint_eq hb hrow, hstart]
  rfl

end Scene

/-- The labels that the binders around a formula assign to their variables, the innermost one first. -/
abbrev Assignment := List (Bytes × Tensor)

/-- What is kept for each variable, looked up. -/
theorem lookup_map {α β : Type} (f : α → β) (ρ : List (Bytes × α)) (name : Bytes) :
    (ρ.map fun p => (p.1, f p.2)).lookup name = (ρ.lookup name).map f := by
  induction ρ with
  | nil => rfl
  | cons p ρ ih =>
    rw [List.map_cons, List.lookup_cons, List.lookup_cons, ih]
    cases name == p.1 <;> rfl

mutual

/-- The labels that a formula gives on an operand, under an assignment. -/
def meaning (s : Scene) (ρ : Assignment) (operand : Except Failure Tensor) : Expr → Except Failure Tensor
  | .atom _ name arg => operand >>= s.atom name arg
  | .seq _ left right => meaning s ρ (meaning s ρ operand left) right
  | .par _ children => meanings s ρ operand children >>= Tensor.concat
  | .diamond _ direction phi sigma => operand >>= s.diamond direction phi sigma
  | .fix _ least v base body => s.fixpoint least base fun labels => meaning s ((v, labels) :: ρ) operand body
  | .var pos name =>
    match ρ.lookup name with
    | some labels => .ok labels
    | none => .error (.unboundVariable name pos)
  | .hole => .error .missingExpression

/-- The labels that several formulas give on one operand. -/
def meanings (s : Scene) (ρ : Assignment) (operand : Except Failure Tensor) : List Expr → Except Failure (List Tensor)
  | [] => .ok []
  | e :: es => do
    let x ← meaning s ρ operand e
    let xs ← meanings s ρ operand es
    return x :: xs

end

end ModalGraph
