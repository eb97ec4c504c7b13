import ModalGraph.Evaluator.Input
import ModalGraph.Event
import ModalGraph.Model.Basic
import ModalGraph.Patience

/-!
# Evaluating models

A model is evaluated node by node. The labels of a node that depends on no variable are computed once and kept for the whole
evaluation; those of any other node are kept for the iteration of the fixpoint that is going on. A fixpoint binds its variable
to the row it starts from, at every node, and evaluates its body until the labels do not change any more; an iteration limit
stops it if they never settle. Before each iteration it asks whether the caller still waits.
-/

namespace ModalGraph.Evaluator

/-- Labels computed so far, by node number. -/
abbrev Memo := List (Nat × Tensor)

/-- What changes during an evaluation. -/
structure Run where
  /-- Labels of nodes that depend on no variable. -/
  closed : Memo := []
  /-- Labels of other nodes, in the iteration going on. -/
  current : Memo := []
  /-- Reports, the last one first. -/
  events : List Event := []
  /-- How long the caller still waits. -/
  patience : Patience := .endless

/-- A step of an evaluation: it may fail, and what it has changed stays. -/
abbrev Eval := ExceptT Failure (StateM Run)

/-- The labels of the variables in scope, the innermost one first. -/
abbrev Scope := List (Bytes × Tensor)

/-- What stays the same during an evaluation: the model, its input, and the limit that is set on iterations, if any. -/
structure Task where
  model : Model
  input : Input
  maxIterations : Int

namespace Task

/-- The number of nodes. -/
def nodes (t : Task) : Int :=
  t.input.nodes

/-- The edge labels, if the model wants them. -/
def edgeLabels (t : Task) : Option Tensor :=
  if t.model.spec.edge.isSome then t.input.e else none

/-- The least iteration limit that is not set by the caller. -/
def defaultIterations : Nat := 1000

/-- The iteration limit of a fixpoint: the one that is set, or the height of the lattice of truth values and one more, counted in 64
bits, but not less than the default. -/
def limit (t : Task) (width : Nat) : Nat :=
  if 0 < t.maxIterations then t.maxIterations.toNat else max defaultIterations (Tensor.word (t.nodes * width + 1)).toNat

/-- The labels that a fixpoint starts from: the row of its base at every node, if there is room for it. -/
def start (t : Task) (b : Binder) : Except Failure Tensor :=
  orAborted (Tensor.full? t.nodes (b.init.getD []) b.dtype)

end Task

/-! ## Steps -/

/-- Labels must be there, one row per node. -/
def checkRows (t : Task) (n : Node) : Option Tensor → Except Failure Tensor
  | none => .error (.noLabels n.opName)
  | some out =>
    if out.rows ≠ t.nodes then .error (.shape ⟨n.opName, .producedRows out.rows t.nodes⟩) else .ok out

/-- The labels that a psi gives. -/
def applyPsi (t : Task) (n : Node) (psi : Psi) (x : Tensor) : Except Failure Tensor := do
  let out ← inPlace n.opName.toText (if t.input.isBatched then psi.multiple (some x) t.input.index else psi.single (some x))
  checkRows t n out

/-- The edge ends where messages start and where they go. -/
def ends (t : Task) : Direction → List Int × List Int
  | .forward => (t.input.sources, t.input.targets)
  | .backward => (t.input.targets, t.input.sources)

/-- Messages must be there, one for each edge. -/
def checkMessages (n : Node) (edges : Nat) : Option Tensor → Except Failure Tensor
  | none => .error (.shape ⟨n.phiName, .producedMessages 0 edges⟩)
  | some m => if m.rows ≠ edges then .error (.shape ⟨n.phiName, .producedMessages m.rows edges⟩) else .ok m

/-- The messages of a diamond: the labels where the edges start, or what a phi makes of them. -/
def messages (t : Task) (n : Node) (phi : Option Phi) (x : Tensor) : Except Failure Tensor := do
  let (origin, target) := ends t n.direction.sense
  let labels ← x.gather origin
  match phi with
  | none => return labels
  | some phi =>
    let targets ← x.gather target
    let m ← inPlace n.phiName.toText (phi.messages (some labels) t.edgeLabels (some targets))
    checkMessages n target.length m

/-- The labels that one step of message passing gives. -/
def applyDiamond (t : Task) (n : Node) (phi : Option Phi) (sigma : Sigma) (x : Tensor) : Except Failure Tensor := do
  let m ← messages t n phi x
  let out ← inPlace n.opName.toText (sigma.aggregate (some m) (ends t n.direction.sense).2 t.nodes (some x))
  checkRows t n out

/-- Asks the caller, who gets nothing after giving up. -/
def checkLive : Eval Unit := do
  if !(← get).patience.waits then throw .canceled
  modify fun r => { r with patience := r.patience.spent }

/-- The labels of a body must have the shape that the base declares. -/
def checkBody (t : Task) (b : Binder) (width : Nat) (next : Tensor) : Except Failure Unit :=
  if next.rows ≠ t.nodes ∨ next.cols ≠ width then
    .error (.shape ⟨Bytes.ofString "fixpoint " ++ b.name, .bodyShape next.rows next.cols b.base t.nodes width⟩)
  else .ok ()

/-- Iterates a body from some labels until they do not change, at most `remaining` times more: the labels that stayed, and the
number of iterations out of `limit`. -/
def iterate (key : Bytes) (limit : Nat) (body : Tensor → Eval Tensor) : Nat → Tensor → Eval (Tensor × Nat)
  | 0, _ => do
    checkLive
    throw (.nonTermination key limit)
  | remaining + 1, current => do
    checkLive
    let next ← body current
    if next.equal current then return (current, limit - remaining) else iterate key limit body remaining next

/-- Runs a step in an iteration of its own, in which no labels of variables' nodes are known yet. However the step ends, those known in
the iteration around it are known again. -/
def inIteration {α : Type} (step : Eval α) : Eval α := fun r =>
  let (a, r') := step.run { r with current := [] }
  (a, { r' with current := r.current })

theorem run_inIteration {α : Type} (step : Eval α) (r : Run) : (inIteration step).run r =
    ((step.run { r with current := [] }).1, { (step.run { r with current := [] }).2 with current := r.current }) :=
  rfl

/-- The labels of a fixpoint, given the evaluation of its body under a scope. -/
def fixpoint (t : Task) (eval : Scope → Nat → Eval Tensor) (scope : Scope) (n : Node) (b : Binder) (body : Nat) :
    Eval Tensor := do
  let row := b.init.getD []
  let limit := t.limit row.length
  let step := fun current => do
    let next ← inIteration (eval ((b.var, current) :: scope) body)
    liftM (checkBody t b row.length next)
    return next
  let start ← liftM (t.start b)
  let (labels, iterations) ← iterate n.key limit step limit start
  modify fun r => { r with events := .fixpointConverged n.key b.least iterations :: r.events }
  return labels

/-- The labels of a node, given the evaluation of other nodes. -/
def compute (t : Task) (eval : Scope → Nat → Eval Tensor) (scope : Scope) (n : Node) : Eval Tensor :=
  match n.kind with
  | .input => return t.input.x
  | .psi =>
    match n.inputs, n.operators with
    | [i], .psi psi => do
      let x ← eval scope i
      if psi.interrupts then modify fun r => { r with patience := .times 0 }
      liftM (applyPsi t n psi x)
    | _, _ => throw .aborted
  | .concat => do
    let parts ← n.inputs.mapM (eval scope)
    liftM (Tensor.concat parts)
  | .diamond =>
    match n.inputs, n.operators with
    | [i], .diamond phi sigma => do
      let x ← eval scope i
      liftM (applyDiamond t n phi sigma x)
    | _, _ => throw .aborted
  | .variable =>
    match scope.lookup n.key with
    | some v => return v
    | none => throw (.strayVariable ((n.binder.map Binder.name).getD []))
  | .fixpoint =>
    match n.binder, n.body with
    | some b, some body => fixpoint t eval scope n b body
    | _, _ => throw .aborted
  | .other code => throw (.unknownKind (NodeKind.other code).name)

/-- The labels that are kept for a node, if it has been computed. -/
def Run.known (r : Run) (n : Node) : Option Tensor :=
  if n.isClosed then r.closed.lookup n.id else r.current.lookup n.id

/-- The labels of a node kept. -/
def Run.keep (r : Run) (n : Node) (v : Tensor) : Run :=
  if n.isClosed then { r with closed := (n.id, v) :: r.closed } else { r with current := (n.id, v) :: r.current }

/-- The labels of a node, computed once. Nodes read from nodes made before them, so as much fuel as there are nodes suffices. -/
def eval (t : Task) : Nat → Scope → Nat → Eval Tensor
  | 0, _, _ => throw .aborted
  | fuel + 1, scope, id =>
    match t.model.node? id with
    | none => throw .aborted
    | some n => do
      match (← get).known n with
      | some v => return v
      | none =>
        let v ← compute t (eval t fuel) scope n
        modify fun r => r.keep n v
        return v

/-- What an evaluation gives: the labels or a failure, the reports in order, and how long the caller still waits. -/
structure Outcome where
  result : Except Failure Tensor
  events : List Event
  patience : Patience

/-- The number of graphs of an input. -/
def graphs (input : Input) : Nat :=
  match input.index with
  | none => 1
  | some index =>
    match Tensor.segmentCounts index with
    | .ok counts => counts.length
    | .error _ => 0

/-- The labels of a task's model on its input, for a caller of some patience. -/
def runFor (t : Task) (patience : Patience) : Except Failure Tensor × Run :=
  (eval t (t.model.nodes.length + 1) [] t.model.output).run { patience := patience }

/-- The labels of a task's model on its input, for a caller who waits. -/
def run (t : Task) : Except Failure Tensor × Run :=
  runFor t .endless

/-- The labels of a model on an input, for a caller of some patience. A caller who has given up, and an input that does not go with the
model, get nothing. -/
def answer (maxIterations : Int) (patience : Patience) (m : Model) (input? : Option Input) : Outcome :=
  if !patience.waits then ⟨.error .canceled, [], patience⟩
  else
    match m.spec.check input? with
    | .error f => ⟨.error f, [], patience.spent⟩
    | .ok input =>
      let started := Event.evaluateStart m.formula input.nodes (graphs input)
      let (result, r) := runFor ⟨m, input, maxIterations⟩ patience.spent
      let finished := Event.evaluateFinish m.formula input.nodes (graphs input) (Failure.reported result)
      ⟨result, started :: (r.events.reverse ++ [finished]), r.patience⟩

/-- The labels of a model on an input, for a caller who waits to the end or has given up already. -/
def evaluate (maxIterations : Int) (live : Bool) (m : Model) (input? : Option Input) : Outcome :=
  answer maxIterations (.ofLive live) m input?

end ModalGraph.Evaluator
