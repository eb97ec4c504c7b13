import ModalGraph.Model.Spec
import ModalGraph.Tensor.Basic

/-!
# Settings of a compiler

The shape of the inputs, the bases that fixpoints may name, and the limit on iterations. A base says what the labels of a bound
variable look like and where its iteration starts: at the bottom for a least fixpoint, at the top for a greatest one.
-/

namespace ModalGraph

/-- The labels of a bound variable. A value of length one goes for every feature; without a value the binder of that kind is not
available. -/
structure Base where
  width : Int
  dtype : DType
  bottom : Option (List Label)
  top : Option (List Label)
deriving DecidableEq, Repr, Inhabited

namespace Base

/-- The truth values: false everywhere at the bottom, true everywhere at the top. -/
def bool (width : Int) : Base :=
  ⟨width, .bool, some [Label.zero], some [Label.one]⟩

/-- The name of the value that a fixpoint starts from. -/
def startName (least : Bool) : String :=
  if least then "bottom" else "top"

/-- The value that a fixpoint starts from. -/
def start (b : Base) (least : Bool) : Option (List Label) :=
  if least then b.bottom else b.top

/-- Why a fixpoint has no row to start from: no value, a value of another length, or no room for one value at every feature. -/
def initFault? (b : Base) (least : Bool) : Option Failure :=
  match b.start least with
  | none => some (.setting (.noInitialValue (startName least)))
  | some vs =>
    if (vs.length : Int) = b.width then none
    else
      match vs with
      | [_] => if b.width < 0 ∨ Tensor.capacity < b.width then some .aborted else none
      | vs => some (.shapeIn "fixpoint" (.initialValues (startName least) vs.length b.width))

/-- The row of a value: the value itself, or one label at every feature. -/
def rowOf (b : Base) : List Label → List Label
  | [v] => List.replicate b.width.toNat (b.dtype.cast v)
  | vs => vs.map b.dtype.cast

/-- The row that a fixpoint starts from, if there is one. -/
def init (b : Base) (least : Bool) : Except Failure (List Label) :=
  match b.initFault? least with
  | some f => .error f
  | none => .ok (b.rowOf ((b.start least).getD []))

/-- What is wrong with one of the values of a base, if it is set. A value that is right is not written out for every feature. -/
def startFaults (name : Bytes) (b : Base) (least : Bool) : List Failure :=
  if (b.start least).isNone then []
  else (b.initFault? least).toList.map fun f => .within s!"fixpoint {Text.quote name}" f

/-- Everything that is wrong with a base of some name. -/
def faults (name : Bytes) (b : Base) : List Failure :=
  if b.width ≤ 0 then [.setting (.fixpointWidth name b.width)]
  else
    (if b.bottom.isNone && b.top.isNone then [.setting (.fixpointWithoutValues name)] else []) ++
      b.startFaults name true ++ b.startFaults name false

end Base

/-- The settings of a compiler. Zero iterations select the default limit. -/
structure Settings where
  input : InputSpec
  bases : List (Bytes × Base) := []
  maxIterations : Int := 0
deriving Inhabited

namespace Settings

/-- The base of a name. -/
def base? (s : Settings) (name : Bytes) : Option Base :=
  s.bases.lookup name

/-- The settings with a base for a name, in place of an earlier one. -/
def insertBase (s : Settings) (name : Bytes) (b : Base) : Settings :=
  { s with bases := (s.bases.filter fun e => e.1 != name) ++ [(name, b)] }

/-- The bases in the order of their names. -/
def sortedBases (s : Settings) : List (Bytes × Base) :=
  s.bases.mergeSort fun a b => Bytes.le a.1 b.1

/-- Everything that is wrong with the settings. -/
def faults (s : Settings) : List Failure :=
  s.input.faults ++ (s.sortedBases.flatMap fun (name, b) => b.faults name) ++
    (if s.maxIterations < 0 then [.setting (.negativeIterations s.maxIterations)] else [])

/-- The settings if nothing is wrong with them. -/
def validate (s : Settings) : Except Failure Unit :=
  match Failure.ofList s.faults with
  | none => .ok ()
  | some f => .error f

end Settings

end ModalGraph
