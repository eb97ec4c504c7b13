import ModalGraph.Event

/-!
# Spans

A span covers a request, a compilation or an evaluation from its start to its finish. Open spans are found by the run id of
their work, a compilation's also by its formula, so work of several runs may be reported in any order. Spans inside a request
have the request's span as their parent.
-/

namespace ModalGraph

/-- An event in a span: a name and attributes. -/
structure SpanEvent where
  name : String
  attributes : List (String × String)
deriving DecidableEq, Repr

/-- A span. -/
structure Span where
  /-- The number of spans started before it. -/
  id : Nat
  /-- The run id of its work. -/
  run : Nat
  name : String
  /-- The number of the span around it. -/
  parent : Option Nat
  attributes : List (String × String)
  events : List SpanEvent := []
  /-- The message of the failure it ended with. -/
  failure : Option String := none
deriving DecidableEq, Repr

/-- The number of spans started, the open spans by what they are found under, and the ended ones in the order of their
ends. -/
structure Trace where
  started : Nat := 0
  requests : List (Nat × Span) := []
  compiles : List ((Nat × Bytes) × Span) := []
  evaluations : List (Nat × Span) := []
  ended : List Span := []

namespace Span

/-- The most events that a span keeps; it keeps the latest. -/
def maxEvents : Nat := 128

/-- The span with one more event. -/
def addEvent (s : Span) (e : SpanEvent) : Span :=
  let events := s.events ++ [e]
  { s with events := events.drop (events.length - maxEvents) }

/-- The span at its end: a failure leaves an event and its message. -/
def finish (s : Span) : Option Failure → Span
  | none => s
  | some f => { s.addEvent ⟨"exception", [("exception.message", f.message)]⟩ with failure := some f.message }

end Span

namespace Trace

/-- The list with a value for a key in place of an earlier one. -/
def put {κ : Type} [BEq κ] (key : κ) (s : Span) (spans : List (κ × Span)) : List (κ × Span) :=
  (key, s) :: spans.filter fun e => e.1 != key

/-- The list without a key. -/
def drop {κ : Type} [BEq κ] (key : κ) (spans : List (κ × Span)) : List (κ × Span) :=
  spans.filter fun e => e.1 != key

/-- The number of the span around the work of a run. -/
def parent (t : Trace) (run : Nat) : Option Nat :=
  (t.requests.lookup run).map Span.id

/-- A new span of a run. -/
def start (t : Trace) (run : Nat) (name : String) (parent : Option Nat) (attributes : List (String × String)) : Span :=
  { id := t.started, run := run, name := name, parent := parent, attributes := attributes }

/-- A truth value in an attribute. -/
def boolText (b : Bool) : String :=
  if b then "true" else "false"

/-- The trace after a report about a run. -/
def record (t : Trace) (r : Report) : Trace :=
  match r.event with
  | .requestStart method path route =>
    let s := t.start r.run "http.request" none [("http.method", method), ("http.target", path), ("http.route", route)]
    { t with started := t.started + 1, requests := put r.run s t.requests }
  | .requestFinish _ _ _ status =>
    match t.requests.lookup r.run with
    | none => t
    | some s =>
      let s := { s with attributes := s.attributes ++ [("http.status_code", toString status)] }
      { t with requests := drop r.run t.requests, ended := t.ended ++ [s] }
  | .compileStart formula mode =>
    let s := t.start r.run "mgc.compile" (t.parent r.run) [("mgc.formula", formula.toText), ("mgc.mode", mode)]
    { t with started := t.started + 1, compiles := put (r.run, formula) s t.compiles }
  | .compileFinish formula _ created reused layers failure =>
    match t.compiles.lookup (r.run, formula) with
    | none => t
    | some s =>
      let s := { s with attributes := s.attributes ++ [("mgc.nodes.created", toString created),
        ("mgc.nodes.reused", toString reused), ("mgc.layers", toString layers)] }
      { t with compiles := drop (r.run, formula) t.compiles, ended := t.ended ++ [s.finish failure] }
  | .evaluateStart formula nodes graphs =>
    let s := t.start r.run "mgc.evaluate" (t.parent r.run)
      [("mgc.formula", formula.toText), ("mgc.graph.nodes", toString nodes), ("mgc.graphs", toString graphs)]
    { t with started := t.started + 1, evaluations := put r.run s t.evaluations }
  | .fixpointConverged key least iterations =>
    match t.evaluations.lookup r.run with
    | none => t
    | some s =>
      let e : SpanEvent := ⟨"fixpoint.converged", [("mgc.fixpoint", key.toText), ("mgc.fixpoint.least", boolText least),
        ("mgc.fixpoint.iterations", toString iterations)]⟩
      { t with evaluations := put r.run (s.addEvent e) t.evaluations }
  | .evaluateFinish _ _ _ failure =>
    match t.evaluations.lookup r.run with
    | none => t
    | some s => { t with evaluations := drop r.run t.evaluations, ended := t.ended ++ [s.finish failure] }

end Trace

end ModalGraph
