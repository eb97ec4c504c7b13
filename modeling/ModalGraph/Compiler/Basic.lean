import ModalGraph.Event
import ModalGraph.Formula.Parser
import ModalGraph.Model.Basic
import ModalGraph.Operator.Registry
import ModalGraph.Settings.Basic

/-!
# Compiling formulas

A compiler turns formulas into models over one store of nodes that grows from call to call. A node is found again by its key, so
formulas share the nodes of their common parts, also with formulas compiled before. A bound variable is keyed by the depth of its
binder and its base, so that renaming it changes no key. A call that fails keeps the nodes it has made.
-/

namespace ModalGraph

/-- The nodes of a compiler. The number of a node is its place. -/
structure Store where
  nodes : Array Node

namespace Store

/-- The key of the input node. -/
def inputKey : Bytes := [Bytes.ascii 'x']

/-- The input node. -/
def inputNode (spec : InputSpec) : Node :=
  { id := 0, key := inputKey, kind := .input, width := spec.node.width }

/-- The store that holds the input node alone. -/
def start (spec : InputSpec) : Store :=
  ⟨#[inputNode spec]⟩

/-- The node of a key. -/
def find? (s : Store) (key : Bytes) : Option Node :=
  s.nodes.find? fun n => n.key == key

/-- The node of a number. -/
def node? (s : Store) (id : Nat) : Option Node :=
  s.nodes[id]?

/-- The number of nodes. -/
def size (s : Store) : Nat :=
  s.nodes.size

end Store

/-- A compiler: its registries, its settings, and the nodes made so far. -/
structure Compiler where
  ops : Registries
  settings : Settings
  store : Store

namespace Compiler

/-- A compiler without any formula compiled yet, if its settings make sense. -/
def new (ops : Registries) (settings : Settings) : Except Failure Compiler := do
  inPlace "compiler: invalid config" settings.validate
  return ⟨ops, settings, .start settings.input⟩

/-! ## The walk over a formula -/

/-- A binder in scope: the name of its variable, its base, and the key of its variable. -/
structure Binding where
  name : Bytes
  baseName : Bytes
  key : Bytes
  base : Base

/-- The state of a walk: the nodes, and how many were made and found again. -/
structure Progress where
  store : Store
  created : Nat := 0
  reused : Nat := 0

/-- A step of a walk: it may fail, and what it has made stays. -/
abbrev Build := ExceptT Failure (StateM Progress)

/-- A node that is found under a key, or else made and stored under it with the next number. -/
def intern (key : Bytes) (make : Except Failure Node) : Build Node := do
  let p ← get
  match p.store.find? key with
  | some n =>
    set { p with reused := p.reused + 1 }
    return n
  | none =>
    match make with
    | .error f => throw f
    | .ok n =>
      let n := { n with id := p.store.size, key := key }
      set { p with store := ⟨p.store.nodes.push n⟩, created := p.created + 1 }
      return n

/-- A key followed by another one in parentheses. -/
def applied (op key : Bytes) : Bytes :=
  op ++ Bytes.ascii '(' :: (key ++ [Bytes.ascii ')'])

/-- The keys of children between parentheses, separated by commas. -/
def concatKey (keys : List Bytes) : Bytes :=
  applied (Bytes.ofString "concat") (Bytes.join [Bytes.ascii ','] keys)

/-- The key of a variable: the depth of its binder and the name of its base. -/
def variableKey (depth : Nat) (base : Bytes) : Bytes :=
  Bytes.ofString s!"var:{depth}:" ++ base

/-- The key of a fixpoint. -/
def fixpointKey (least : Bool) (var body : Bytes) : Bytes :=
  Formula.Expr.binderWord least ++ Bytes.ascii ' ' :: (var ++ Bytes.ofString ".\x7b" ++ body ++ Bytes.ofString "\x7d")

/-- A list of names with one more, in order and without repetition. -/
def insertName (name : Bytes) : List Bytes → List Bytes
  | [] => [name]
  | v :: vs =>
    if name == v then v :: vs
    else if Bytes.le name v then name :: v :: vs
    else v :: insertName name vs

/-- The names that are free in one of some nodes, in order and without repetition. -/
def freeUnion (ns : List Node) : List Bytes :=
  ns.foldl (fun vs n => n.free.foldl (fun vs v => insertName v vs) vs) []

/-- Widths side by side: their sum, counted in 64 bits, unknown if one of them is. -/
def sumWidths (ns : List Node) : Int :=
  ns.foldl (fun w n => if w = unknownWidth ∨ n.width = unknownWidth then unknownWidth else Tensor.word (w + n.width)) 0

/-- The node of an operator on the labels of a node. -/
def atomNode (c : Compiler) (name : Bytes) (arg : Argument) (input : Node) : Except Failure Node := do
  let psi ← c.ops.psi.get name arg
  return {
    id := 0, key := [], kind := .psi, inputs := [input.id], opName := Formula.bracketed name arg, operators := .psi psi,
    width := Width.result psi.width input.width, free := input.free }

/-- The node of several results side by side. -/
def concatNode (children : List Node) : Node :=
  { id := 0, key := [], kind := .concat, inputs := children.map Node.id, width := sumWidths children,
    free := freeUnion children }

/-- The message operator of a diamond, if it has one. -/
def phi? (c : Compiler) : Option Bytes → Except Failure (Option Phi)
  | none => .ok none
  | some key => some <$> c.ops.phi.resolve key

/-- The node of one step of message passing. -/
def diamondNode (c : Compiler) (direction : Direction) (phiKey : Option Bytes) (sigmaKey : Bytes) (input : Node) :
    Except Failure Node := do
  let sigma ← c.ops.sigma.resolve sigmaKey
  let phi ← c.phi? phiKey
  let width := match phi with
    | none => input.width
    | some phi => Width.result phi.width input.width
  return {
    id := 0, key := [], kind := .diamond, inputs := [input.id], opName := sigmaKey, phiName := phiKey.getD [],
    operators := .diamond phi sigma, direction := .ofDirection direction, width := Width.result sigma.width width, free := input.free }

/-- The failure of a diamond where there are no edges. -/
def noAdjacency (c : Compiler) (op : Bytes) : Failure :=
  .modeMismatch op c.settings.input.batched "message passing requires adjacency in the compiler configuration"

/-- The node of a variable. -/
def variableNode (b : Binding) (name : Bytes) : Node :=
  { id := 0, key := [], kind := .variable, binder := some ⟨false, name, b.key, b.baseName, none, b.base.dtype⟩,
    width := b.base.width, free := [b.key] }

/-- The node of a fixpoint with its body. -/
def fixpointNode (b : Binding) (least : Bool) (init : List Label) (input body : Node) : Node :=
  { id := 0, key := [], kind := .fixpoint, inputs := [input.id], body := some body.id,
    binder := some ⟨least, b.name, b.key, b.baseName, some init, b.base.dtype⟩, width := b.base.width,
    free := (freeUnion [input, body]).filter fun v => v != b.key }

/-- The binder of a name, the innermost one first. -/
def lookup (scope : List Binding) (name : Bytes) : Option Binding :=
  scope.find? fun b => b.name == name

/-- The base of a fixpoint and the row it starts from. -/
def fixpointBase (c : Compiler) (least : Bool) (name : Bytes) : Except Failure (Base × List Label) :=
  match c.settings.base? name with
  | none => .error (.unknownOperator "fixpoint" name)
  | some base => do
    let init ← inPlace s!"fixpoint {name.toText}" (base.init least)
    return (base, init)

/-- A body as wide as its base says, as far as its width is known. -/
def checkBodyWidth (b : Binding) (body : Node) : Except Failure Unit :=
  if body.width ≠ unknownWidth ∧ body.width ≠ b.base.width then
    .error (.shape ⟨Bytes.ofString "fixpoint " ++ b.name, .bodyWidth body.width b.baseName b.base.width⟩)
  else .ok ()

mutual

/-- The node of a formula on the labels of a node. -/
def expr (c : Compiler) (scope : List Binding) (e : Formula.Expr) (input : Node) : Build Node :=
  match e with
  | .atom _ name arg =>
    intern (applied (Formula.bracketed name arg) input.key) (c.atomNode name arg input)
  | .seq _ left right => do
    let l ← expr c scope left input
    expr c scope right l
  | .par p children =>
    if children.isEmpty then throw (.malformed ⟨p, [], .emptyParallel⟩)
    else do
      let ns ← exprs c scope children input
      intern (concatKey (ns.map Node.key)) (.ok (concatNode ns))
  | .diamond _ direction phi sigma => do
    let op := Formula.Expr.diamondKey direction phi sigma
    if !c.settings.input.adjacency then throw (c.noAdjacency op)
    intern (applied op input.key) (c.diamondNode direction phi sigma input)
  | .var p name =>
    match lookup scope name with
    | none => throw (.unboundVariable name p)
    | some b => intern b.key (.ok (variableNode b name))
  | .fix _ least name baseName body => do
    let (base, init) ← liftM (c.fixpointBase least baseName)
    let b : Binding := ⟨name, baseName, variableKey scope.length baseName, base⟩
    let n ← expr c (b :: scope) body input
    liftM (checkBodyWidth b n)
    intern (fixpointKey least b.key n.key) (.ok (fixpointNode b least init input n))
  | .hole => throw .missingExpression

/-- The nodes of several formulas on the labels of one node. -/
def exprs (c : Compiler) (scope : List Binding) (es : List Formula.Expr) (input : Node) : Build (List Node) :=
  match es with
  | [] => return []
  | e :: es => do
    let n ← expr c scope e input
    let ns ← exprs c scope es input
    return n :: ns

end

/-! ## Compiling -/

/-- What a call gives: the model or a failure, the compiler afterwards, and the reports. -/
structure Outcome where
  result : Except Failure Model
  compiler : Compiler
  events : List Event

/-- The input node of the store. -/
def input (c : Compiler) : Node :=
  (c.store.node? 0).getD (Store.inputNode c.settings.input)

/-- The model of a formula whose text is given. A caller who has given up gets nothing. -/
def compileAs (c : Compiler) (canceled : Bool) (formula : Bytes) (e : Formula.Expr) : Outcome :=
  if canceled then ⟨.error .canceled, c, []⟩
  else
    let mode := c.settings.input.mode
    let (r, p) := (expr c [] e c.input).run { store := c.store }
    let after := { c with store := p.store }
    let started := Event.compileStart formula mode
    match r with
    | .error f => ⟨.error f, after, [started, .compileFinish formula mode p.created p.reused 0 (Failure.reported r)]⟩
    | .ok out =>
      let m := Model.ofTable formula c.settings.input p.store.node? p.store.size out.id
      ⟨.ok m, after, [started, .compileFinish formula mode p.created p.reused m.layers none]⟩

/-- The model of a formula text. -/
def compile (c : Compiler) (canceled : Bool) (formula : Bytes) : Outcome :=
  match Formula.parse formula with
  | .error e => ⟨.error (.malformed e), c, []⟩
  | .ok e => c.compileAs canceled formula e

/-- The model of a formula, under its canonical text. A formula with a missing part has none. -/
def compileExpr (c : Compiler) (canceled : Bool) (e : Formula.Expr) : Outcome :=
  if e.hasHole then ⟨.error .aborted, c, []⟩ else c.compileAs canceled e.key e

end Compiler

end ModalGraph
