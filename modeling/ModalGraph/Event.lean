import ModalGraph.Failure.Basic

/-!
# Events

What compilers, evaluators and the service report while they work. Counters and traces are built from these reports.
-/

namespace ModalGraph

/-- A report. -/
inductive Event where
  | compileStart (formula : Bytes) (mode : String)
  | compileFinish (formula : Bytes) (mode : String) (created reused layers : Nat) (failure : Option Failure)
  | evaluateStart (formula : Bytes) (nodes : Int) (graphs : Nat)
  | fixpointConverged (key : Bytes) (least : Bool) (iterations : Nat)
  | evaluateFinish (formula : Bytes) (nodes : Int) (graphs : Nat) (failure : Option Failure)
  | requestStart (method path route : String)
  | requestFinish (method path route : String) (status : Nat)

/-- A report with the run id of the work that it is about. -/
structure Report where
  run : Nat
  event : Event

end ModalGraph
