import ModalGraph.Compiler.Basic
import ModalGraph.Evaluator.Basic
import ModalGraph.Graph.Document
import ModalGraph.Service.Message
import ModalGraph.Tensor.Codec
import ModalGraph.Tensor.Render

/-!
# The service

The service compiles and evaluates formulas that come in requests. `Service.handle` answers one request: it reports its start,
refuses what is at fault, compiles, evaluates if graphs are given, and reports its finish with a status. All reports of a request
carry its run id. Work may break off, where labels do not fit into memory; then nothing is written, and the finish is reported with the
status that a request has before anything else is known of it.
-/

namespace ModalGraph

/-- The labels of an evaluation as a JSON object; the graph index is left out if it is empty. -/
def evaluationJson (formula : Bytes) (labels : Tensor) (index : GraphIndex) : Json :=
  let index := index.getD []
  .obj ([("formula", .str formula.toText), ("dtype", .str labels.dtype.name), ("labels", labels.toJson)] ++
    (if index.isEmpty then [] else [("index", .arr (index.map Json.int))]))

/-- How the service answers. -/
structure ServiceOptions where
  /-- Whether JSON is indented. -/
  pretty : Bool := false
  /-- The longest body in bytes. -/
  maxBody : Int := 0
  /-- The origins of web pages that may use the service. -/
  origins : List String := []

/-- The service: its compiler with all that it has compiled, the limit on iterations, and how it answers. -/
structure Service where
  compiler : Compiler
  maxIterations : Int
  options : ServiceOptions

/-- Why a request gets no result. -/
inductive Refusal where
  | fault (f : RequestFault)
  | failed (status : Nat) (f : Failure)
  /-- The work breaks off, so that nothing is written. -/
  | brokenOff

/-- A result. -/
inductive Content where
  | json (j : Json)
  | binary (bs : Bytes)

/-- What came of a request: a result or a refusal, the compiler afterwards, and the reports. -/
structure Work where
  result : Except Refusal Content
  compiler : Compiler
  events : List Event := []

namespace Service

/-- The service of a compiler, if there is one. -/
def new (compiler? : Option Compiler) (maxIterations : Int) (options : ServiceOptions) : Except Failure Service :=
  match compiler? with
  | none => .error .serviceParts
  | some c => .ok ⟨c, maxIterations, options⟩

/-- The paths that the service answers. -/
def routes : List String := ["/compile", "/evaluate"]

/-- The route of a path, empty if there is none. -/
def routeOf (path : String) : String :=
  if routes.contains path then path else ""

/-! ## Failures -/

/-- The status of a response to a failure. -/
def statusOf (f : Failure) : Nat :=
  let r := f.result
  if ["syntax_err", "unknown_op", "unbound_var", "mode_mismatch", "shape_err"].contains r then 400
  else if r == "non_termination" then 422
  else if r == "canceled" then 504
  else 500

/-- A refusal of a failure under a status, unless the work breaks off. -/
def refuseAs (status : Nat) (f : Failure) : Refusal :=
  if f.BreaksOff then .brokenOff else .failed status f

/-- A refusal of a failure under the status that it calls for. -/
def refuse (f : Failure) : Refusal :=
  refuseAs (statusOf f) f

/-- The status of a refusal, if there is a response. -/
def refusalStatus : Refusal → Option Nat
  | .fault f => some f.status
  | .failed status _ => some status
  | .brokenOff => none

/-- An error as a JSON object. -/
def errorJson (message : String) (code : String) : Json :=
  .obj [("error", .obj ([("message", .str message)] ++ if code.isEmpty then [] else [("code", .str code)]))]

/-- The JSON object of a failure that is answered with a status. A failure without a label of its own gets a code only if it is not the
caller's. -/
def failureJson (status : Nat) (f : Failure) : Json :=
  errorJson f.message (if f.result == Failure.genericLabel && status < 500 then "" else f.result)

/-! ## Compiling and evaluating -/

/-- A model as a JSON object. -/
def modelJson (m : Model) (summary : String) : Json :=
  .obj [("formula", .str m.formula.toText), ("mode", .str m.spec.mode), ("width", .int m.width), ("layers", .int m.layers),
    ("nodes", .int m.nodes.length), ("summary", .str summary)]

/-- The result of a model. -/
def modelContent (m : Model) : Except Refusal Content :=
  match m.summary? with
  | none => .error (refuse .aborted)
  | some summary => .ok (.json (modelJson m summary))

/-- Compiles the formula of a body. -/
def compile (s : Service) (patience : Patience) (body : Bytes) : Work :=
  match Query.ofBody body with
  | .error f => ⟨.error (.fault f), s.compiler, []⟩
  | .ok q =>
    let out := s.compiler.compile (!patience.waits) (Bytes.ofString q.formula)
    match out.result with
    | .error f => ⟨.error (refuse f), out.compiler, out.events⟩
    | .ok m => ⟨modelContent m, out.compiler, out.events⟩

/-- Labels in the form that the caller prefers. -/
def labelsContent (accept : String) (m : Model) (labels : Tensor) (index : GraphIndex) : Content :=
  if acceptsBinary accept then .binary labels.encode else .json (evaluationJson m.formula labels index)

/-- Compiles a formula and evaluates it on some graphs. The caller is asked once by the compiler, and then by the evaluator. -/
def evaluateOn (s : Service) (patience : Patience) (accept : String) (formula : Bytes) (gs : List Graph) : Work :=
  let out := s.compiler.compile (!patience.waits) formula
  match out.result with
  | .error f => ⟨.error (refuse f), out.compiler, out.events⟩
  | .ok m =>
    match s.compiler.settings.input.prepare gs with
    | .error f => ⟨.error (refuse f), out.compiler, out.events⟩
    | .ok input =>
      let e := Evaluator.answer s.maxIterations patience.spent m (some input)
      let result := match e.result with
        | .error f => .error (refuse f)
        | .ok labels => .ok (labelsContent accept m labels input.index)
      ⟨result, out.compiler, out.events ++ e.events⟩

/-- Compiles the formula of a body and evaluates it on the graphs of the body. -/
def evaluate (s : Service) (patience : Patience) (accept : String) (body : Bytes) : Work :=
  match Query.ofBody body with
  | .error f => ⟨.error (.fault f), s.compiler, []⟩
  | .ok q =>
    match q.graphs with
    | none => ⟨.error (.fault .graphsMissing), s.compiler, []⟩
    | some j =>
      let spec := s.compiler.settings.input
      match Graph.ofJson (some j) spec.node.dtype (spec.edge.getD spec.node).dtype with
      | .error f => ⟨.error (refuseAs 400 f), s.compiler, []⟩
      | .ok gs => s.evaluateOn patience accept (Bytes.ofString q.formula) gs

/-- What comes of a request that is no question about what is allowed. -/
def work (s : Service) (r : Request) : Work :=
  let route := routeOf r.path
  let refused := fun f : RequestFault => (⟨.error (.fault f), s.compiler, []⟩ : Work)
  if route.isEmpty then refused .unknownPath
  else if r.method != "POST" then refused .wrongMethod
  else
    match r.receive s.options.maxBody with
    | .error f => refused f
    | .ok body =>
      if route == "/compile" then s.compile r.patience body else s.evaluate r.patience (r.header "Accept") body

/-! ## Responses -/

/-- The headers that let web pages of other origins use the service. -/
def originHeaders (options : ServiceOptions) (r : Request) : List (String × String) :=
  let origin := r.header "Origin"
  let any := options.origins.contains "*"
  if origin.isEmpty || !(any || options.origins.contains origin) then []
  else
    let wanted := r.header "Access-Control-Request-Headers"
    (if any then [("Access-Control-Allow-Origin", "*")]
      else [("Access-Control-Allow-Origin", origin), ("Vary", "Origin")]) ++
    if r.method == "OPTIONS" then
      (if wanted.isEmpty then [] else [("Access-Control-Allow-Headers", wanted)]) ++
        [("Access-Control-Allow-Methods", "POST,OPTIONS")]
    else []

/-- A JSON value as a body, with a newline at its end. -/
def jsonBody (pretty : Bool) (j : Json) : Bytes :=
  Bytes.ofString ((if pretty then j.pretty else j.compact) ++ "\n")

/-- The media type of JSON. -/
def jsonMediaType : String := "application/json; charset=utf-8"

/-- The status, the media type and the body that are written for a result or a refusal, if anything is. -/
def render (pretty : Bool) : Except Refusal Content → Option (Nat × String × Bytes)
  | .error (.fault f) => some (f.status, jsonMediaType, jsonBody pretty (errorJson f.message ""))
  | .error (.failed status f) => some (status, jsonMediaType, jsonBody pretty (failureJson status f))
  | .error .brokenOff => none
  | .ok (.json j) => some (200, jsonMediaType, jsonBody pretty j)
  | .ok (.binary bs) => some (200, binaryMediaType, bs)

/-- The status of a request before anything else is known of it. -/
def firstStatus : Nat := 200

/-- The status that is reported of a result or a refusal. -/
def reportedStatus : Except Refusal Content → Nat
  | .error e => (refusalStatus e).getD firstStatus
  | .ok _ => 200

/-- What handling a request gives: the response, unless the work breaks off, the service afterwards, and the reports. -/
structure Served where
  response : Option Response
  service : Service
  reports : List Report

/-- Answers a request whose work has a run id. -/
def handle (s : Service) (run : Nat) (r : Request) : Served :=
  let origins := originHeaders s.options r
  let route := routeOf r.path
  let tag := fun es : List Event => es.map (Report.mk run)
  let started := Event.requestStart r.method r.path route
  if r.method == "OPTIONS" then
    ⟨some ⟨204, origins, [], some run⟩, s, tag [started, .requestFinish r.method r.path route 204]⟩
  else
    let w := s.work r
    let response := (render s.options.pretty w.result).map fun (status, mediaType, body) =>
      ⟨status, origins ++ [("Content-Type", mediaType)], body, some run⟩
    ⟨response, { s with compiler := w.compiler },
      tag (started :: (w.events ++ [.requestFinish r.method r.path route (reportedStatus w.result)]))⟩

end Service

end ModalGraph
