import ModalGraph.Event
import ModalGraph.Label.Decimal

/-!
# Counting reports

Counters of compilations, evaluations, fixpoint iterations and requests, fed from reports. `Metrics.record` counts one report,
and `Metrics.lines` lists the counts that do not depend on the clock, one line for each, with those of one family together.
-/

namespace ModalGraph

/-- How often each key was counted. No key occurs twice. -/
abbrev Tally (κ : Type) := List (κ × Nat)

namespace Tally

variable {κ : Type} [BEq κ]

/-- One more of a key. -/
def count (key : κ) : Tally κ → Tally κ
  | [] => [(key, 1)]
  | (k, n) :: rest => if k == key then (k, n + 1) :: rest else (k, n) :: count key rest

/-- The number of a key. -/
def get (t : Tally κ) (key : κ) : Nat :=
  (t.lookup key).getD 0

/-- The number of all keys together. -/
def total (t : Tally κ) : Nat :=
  t.foldr (fun e n => e.2 + n) 0

/-- The tally of what the keys have in common under a function. -/
def under {μ : Type} [BEq μ] (f : κ → μ) (t : Tally κ) : Tally μ :=
  (t.map fun e => f e.1).eraseDups.map fun m => (m, total (t.filter fun e => f e.1 == m))

end Tally

/-- What has been counted. -/
structure Metrics where
  /-- Compilations by mode and result. -/
  compiles : Tally (String × String) := []
  nodesCreated : Nat := 0
  nodesReused : Nat := 0
  /-- Evaluations by result. -/
  evaluations : Tally String := []
  /-- The iterations that fixpoints took, by the word of the binder. -/
  iterations : List (String × Nat) := []
  /-- Requests by route and status. -/
  requests : Tally (String × Nat) := []

namespace Metrics

/-- The word that opens a fixpoint. -/
def binderWord (least : Bool) : String :=
  if least then "mu" else "nu"

/-- The route that a request is counted under. -/
def routeName (route : String) : String :=
  if route.isEmpty then "other" else route

/-- Counts a report. -/
def record (m : Metrics) : Event → Metrics
  | .compileFinish _ mode created reused _ failure =>
    { m with
      compiles := Tally.count (mode, Failure.outcomeLabel failure) m.compiles
      nodesCreated := m.nodesCreated + created
      nodesReused := m.nodesReused + reused }
  | .evaluateFinish _ _ _ failure => { m with evaluations := Tally.count (Failure.outcomeLabel failure) m.evaluations }
  | .fixpointConverged _ least n => { m with iterations := m.iterations ++ [(binderWord least, n)] }
  | .requestFinish _ _ route status => { m with requests := Tally.count (routeName route, status) m.requests }
  | _ => m

/-! ## Families of counters -/

/-- Counters with one name and different labels. -/
structure Family where
  name : String
  /-- What is counted. -/
  help : String
  /-- Whether the counters are classes of sizes. -/
  isHistogram : Bool
  /-- The lines of the counters. -/
  samples : List String

/-- A line: the name of a counter, its labels, and its number. -/
def line (name : String) (labels : List (String × String)) (n : Nat) : String :=
  let shown := labels.map fun (k, v) => k ++ "=" ++ Text.quoteString v
  name ++ (if labels.isEmpty then "" else "\x7b" ++ ",".intercalate shown ++ "\x7d") ++ " " ++ (Label.ofNat n).text

/-- The family of a counter of events. -/
def counter (name help : String) (samples : List (List (String × String) × Nat)) : Family :=
  ⟨name, help, false, (samples.map fun (labels, n) => line name labels n).mergeSort fun a b => a ≤ b⟩

/-- The family of a measure of times. Of it only the numbers of measurements are shown, because times differ from run to run. -/
def times (name help : String) (samples : List (List (String × String) × Nat)) : Family :=
  ⟨name, help, true, (samples.map fun (labels, n) => line (name ++ "_count") labels n).mergeSort fun a b => a ≤ b⟩

/-- The bounds of the classes in which iterations are counted. -/
def iterationBounds : List Nat :=
  (List.range 12).map fun i => Nat.pow 2 i

/-- The lines of the iterations of one kind of fixpoint: for each bound how many took at most so many, then all of them. -/
def iterationLines (name kind : String) (ns : List Nat) : List String :=
  let bucket := fun (bound : String) (n : Nat) => line (name ++ "_bucket") [("kind", kind), ("le", bound)] n
  (iterationBounds.map fun b => bucket (toString b) (ns.countP fun n => n ≤ b)) ++
    [bucket "+Inf" ns.length, line (name ++ "_sum") [("kind", kind)] (ns.foldr (· + ·) 0),
      line (name ++ "_count") [("kind", kind)] ns.length]

/-- The family of the iterations of fixpoints. -/
def iterationFamily (m : Metrics) : Family :=
  let name := "mgc_executor_fixpoint_iterations"
  let kinds := ((m.iterations.map Prod.fst).eraseDups).mergeSort fun a b => a ≤ b
  ⟨name, "Histogram of iterations fixpoints needed to converge", true,
    kinds.flatMap fun kind => iterationLines name kind ((m.iterations.filter fun e => e.1 == kind).map Prod.snd)⟩

/-- All families in the order of their names. -/
def families (m : Metrics) : List Family :=
  [times "mgc_compiler_compile_duration_seconds" "Histogram of times spent compiling formulas"
      ((Tally.under Prod.fst m.compiles).map fun (mode, n) => ([("mode", mode)], n)),
    counter "mgc_compiler_compiles_total" "Count of formula compilations"
      (m.compiles.map fun ((mode, result), n) => ([("mode", mode), ("result", result)], n)),
    counter "mgc_compiler_nodes_created_total" "Count of computation nodes added to compiler caches" [([], m.nodesCreated)],
    counter "mgc_compiler_nodes_reused_total" "Count of cached computation nodes resolved again" [([], m.nodesReused)],
    times "mgc_executor_evaluate_duration_seconds" "Histogram of times spent evaluating models"
      (m.evaluations.map fun (result, n) => ([("result", result)], n)),
    counter "mgc_executor_evaluations_total" "Count of model evaluations"
      (m.evaluations.map fun (result, n) => ([("result", result)], n)),
    m.iterationFamily,
    times "mgc_http_request_duration_seconds" "Histogram of HTTP request latency"
      ((Tally.under Prod.fst m.requests).map fun (route, n) => ([("route", route)], n)),
    counter "mgc_http_requests_total" "Count of HTTP requests"
      (m.requests.map fun ((route, status), n) => ([("route", route), ("status", toString status)], n))]

/-- A family as lines: what is counted, how, and the counters. A family without counters is not shown. -/
def Family.lines (f : Family) : List String :=
  if f.samples.isEmpty then []
  else ["# HELP " ++ f.name ++ " " ++ f.help, "# TYPE " ++ f.name ++ " " ++ (if f.isHistogram then "histogram" else "counter")] ++
    f.samples

/-- All that has been counted, as lines. -/
def lines (m : Metrics) : List String :=
  m.families.flatMap Family.lines

end Metrics

end ModalGraph
