import ModalGraph.Failure.Shape
import ModalGraph.Formula.Token

/-!
# Failures

Everything that can go wrong between formula text and labels, as causes. A cause may be wrapped in the words that say where it
arose (`Failure.within`), and several may be reported together (`Failure.joined`). `Failure.message` is the wording,
`Failure.kind` the class of the most telling cause inside, and `Failure.result` the label under which the outcome is counted.
-/

namespace ModalGraph

/-- The three families of operators, in the order in which settings are applied. -/
inductive Role where
  | psi
  | sigma
  | phi
deriving DecidableEq, Repr, Inhabited

/-- The word for a family. -/
def Role.name : Role → String
  | .psi => "psi"
  | .sigma => "sigma"
  | .phi => "phi"

/-- What can be wrong with the binary form of a tensor. -/
inductive WireFault where
  | truncated
  | fieldNumber
  | overflow
  | reserved
  | endGroup
  | nesting
deriving DecidableEq, Repr

/-- The wording of a fault of the binary form. -/
def WireFault.message : WireFault → String
  | .truncated => "unexpected EOF"
  | .fieldNumber => "proto: invalid field number"
  | .overflow => "proto: variable length integer overflow"
  | .reserved => "proto: cannot parse reserved wire type"
  | .endGroup => "proto: mismatching end group marker"
  | .nesting => "proto: parse error"

/-- What can be wrong with an operator's argument. -/
inductive ArgumentFault where
  | missingBit
  | invalidBit (text : Bytes)
  | missingConstant
  | invalidConstant (text : Bytes)
deriving DecidableEq, Repr

/-- The wording of a fault of an argument. -/
def ArgumentFault.message : ArgumentFault → String
  | .missingBit => "missing bit position"
  | .invalidBit t => "invalid bit position " ++ Text.quote t
  | .missingConstant => "missing constant value"
  | .invalidConstant t => "invalid constant " ++ Text.quote t

/-- What can be wrong with the settings of a compiler. -/
inductive SettingFault where
  | registriesMissing
  | nodeWidth (width : Int)
  | edgeWithoutAdjacency
  | edgeWidth (width : Int)
  | fixpointWidth (name : Bytes) (width : Int)
  | fixpointWithoutValues (name : Bytes)
  | noInitialValue (which : String)
  | negativeIterations (n : Int)
  | nodeMissing
  | declaredTwice (name : Bytes)
  | emptyList
  | nullElement
  | notKnown
  | notScalar (typeName : String)
  | numberRange (reason : String)
deriving DecidableEq, Repr

/-- The wording of a fault of the settings. -/
def SettingFault.message : SettingFault → String
  | .registriesMissing => "compiler: psi, sigma and phi registries are required"
  | .nodeWidth w => s!"node label width must be positive, got {w}"
  | .edgeWithoutAdjacency => "edge labels require adjacency"
  | .edgeWidth w => s!"edge label width must be positive, got {w}"
  | .fixpointWidth name w => s!"fixpoint {Text.quote name}: width must be positive, got {w}"
  | .fixpointWithoutValues name => s!"fixpoint {Text.quote name}: neither bottom nor top is set"
  | .noInitialValue which => s!"no {which} value"
  | .negativeIterations n => s!"max iterations must not be negative, got {n}"
  | .nodeMissing => "a node block is required"
  | .declaredTwice name => s!"fixpoint {Text.quote name} declared twice"
  | .emptyList => "empty list"
  | .nullElement => "null element"
  | .notKnown => "value is not known"
  | .notScalar t => s!"expected bool or number, got {t}"
  | .numberRange reason => s!"could not convert number: {reason}"

/-- The stage at which settings text fails to be read. -/
inductive SettingStage where
  | parse
  | decode
  | value
deriving DecidableEq, Repr

/-- A cause of failure. -/
inductive Failure where
  /-- Formula text is malformed. -/
  | malformed (error : Formula.SyntaxError)
  /-- No operator of this name. -/
  | unknownOperator (role : String) (key : Bytes)
  /-- A value that is no operator was offered for registration. -/
  | invalidOperator (role : Role) (name : Bytes) (typeName : String)
  /-- An operator or an input does not go with the batching mode. -/
  | modeMismatch (op : Bytes) (batched : Bool) (reason : String)
  /-- A variable without a binder. -/
  | unboundVariable (name : Bytes) (pos : Formula.Position)
  /-- Shapes do not fit. -/
  | shape (error : ShapeError)
  /-- A fixpoint was still changing at its iteration limit. -/
  | nonTermination (key : Bytes) (iterations : Nat)
  /-- There are no node labels. -/
  | noNodeLabels
  /-- An edge ends outside the graph. -/
  | edgeOutOfRange (edge : Nat) (source target nodes : Int)
  /-- Edge labels do not go with the edges. -/
  | edgeLabels (detail : String)
  /-- There is no graph at all. -/
  | emptyBatch
  /-- The caller gave up. -/
  | canceled
  /-- A graph document is not valid. -/
  | invalidDocument
  /-- Settings text cannot be read. -/
  | settingsText (stage : SettingStage)
  /-- Settings that do not make sense. -/
  | setting (fault : SettingFault)
  /-- No label domain of this name. -/
  | unknownDomain (name : Bytes)
  /-- No label domain of this code. -/
  | unknownDomainCode (code : Nat)
  /-- The binary form of a tensor is broken at a tag, or at the value of a field. -/
  | wire (field : Option Nat) (fault : WireFault)
  /-- An operator's argument is not usable. -/
  | argument (fault : ArgumentFault)
  /-- No operator family of this name. -/
  | unknownRole (name : Bytes)
  /-- A part of a formula is missing. -/
  | missingExpression
  /-- An operator gave no labels. -/
  | noLabels (op : Bytes)
  /-- A variable was evaluated outside its fixpoint. -/
  | strayVariable (name : Bytes)
  /-- A node of no known kind was evaluated. -/
  | unknownKind (name : String)
  /-- The service was built without a compiler. -/
  | serviceParts
  /-- Any other reason, in words. -/
  | stated (message : String)
  /-- An operation was used outside its domain; the run is over. -/
  | aborted
  /-- A cause and the words that say where it arose. -/
  | within (place : String) (cause : Failure)
  /-- Several causes at once. -/
  | joined (causes : List Failure)
deriving Repr

namespace Failure

/-- A shape error of a named operation. -/
def shapeIn (op : String) (fault : ShapeFault) : Failure :=
  .shape ⟨Bytes.ofString op, fault⟩

/-- The batching mode in words. -/
def modeName (batched : Bool) : String :=
  if batched then "batched" else "single-graph"

mutual

/-- The wording of a failure. -/
def message : Failure → String
  | .malformed e => e.message
  | .unknownOperator role key => s!"unknown {role} operator {Text.quote key}"
  | .invalidOperator role name t =>
    s!"invalid {role.name} operator {Text.quote name}: {t} is neither an operator nor a constructor"
  | .modeMismatch op batched reason =>
    if reason.isEmpty then s!"{op.toText}: not available in {modeName batched} mode"
    else s!"{op.toText} ({modeName batched} mode): {reason}"
  | .unboundVariable name pos => s!"unbound variable {name.toText} at {pos.text}"
  | .shape e => e.message
  | .nonTermination key n => s!"fixpoint {key.toText} did not converge after {n} iterations"
  | .noNodeLabels => "graph: node labels are required"
  | .edgeOutOfRange i s t n => s!"graph: edge endpoint out of range: edge {i} ({s}->{t}) with {n} nodes"
  | .edgeLabels detail => s!"graph: edge labels do not match edges: {detail}"
  | .emptyBatch => "graph: empty batch"
  | .canceled => "context canceled"
  | .invalidDocument => "graph: invalid JSON: *"
  | .settingsText .parse => "failed to parse"
  | .settingsText .decode => "failed to decode"
  | .settingsText .value => "value"
  | .setting f => f.message
  | .unknownDomain name => "tensor: unknown dtype " ++ Text.quote name
  | .unknownDomainCode code => s!"tensor: decode: unknown dtype {code}"
  | .wire none f => s!"tensor: decode tag: {f.message}"
  | .wire (some n) f => s!"tensor: decode field {n}: {f.message}"
  | .argument f => f.message
  | .unknownRole name => "operator: unknown role " ++ Text.quote name
  | .missingExpression => "compiler: nil expression"
  | .noLabels op => s!"executor: {op.toText} produced no labels"
  | .strayVariable name => s!"executor: variable {name.toText} evaluated outside its fixpoint"
  | .unknownKind name => s!"executor: unknown node kind {name}"
  | .serviceParts => "server: compiler and executor are required"
  | .stated m => m
  | .aborted => "aborted"
  | .within place cause => s!"{place}: {cause.message}"
  | .joined causes => "; ".intercalate (messages causes)

/-- The wordings of several failures. -/
def messages : List Failure → List String
  | [] => []
  | f :: fs => f.message :: messages fs

end

mutual

/-- The causes inside a failure, without the words around them. -/
def causes : Failure → List Failure
  | .within _ cause => cause.causes
  | .joined fs => causesOf fs
  | f => [f]

/-- The causes inside several failures. -/
def causesOf : List Failure → List Failure
  | [] => []
  | f :: fs => f.causes ++ causesOf fs

end

/-- The classes of failure, the most telling first. -/
inductive Kind where
  | aborted
  | settingsText (stage : SettingStage)
  | invalidDocument
  | malformed
  | unknownOperator
  | invalidOperator
  | modeMismatch
  | unboundVariable
  | shape
  | nonTermination
  | noNodeLabels
  | edgeOutOfRange
  | edgeLabels
  | emptyBatch
  | canceled
  | other
deriving DecidableEq, Repr

/-- All classes, the most telling first. -/
def Kind.all : List Kind :=
  [.aborted, .settingsText .parse, .settingsText .decode, .settingsText .value, .invalidDocument, .malformed,
    .unknownOperator, .invalidOperator, .modeMismatch, .unboundVariable, .shape, .nonTermination, .noNodeLabels,
    .edgeOutOfRange, .edgeLabels, .emptyBatch, .canceled]

/-- The class of a single cause. -/
def causeKind : Failure → Kind
  | .aborted => .aborted
  | .settingsText stage => .settingsText stage
  | .invalidDocument => .invalidDocument
  | .malformed _ => .malformed
  | .unknownOperator .. => .unknownOperator
  | .invalidOperator .. => .invalidOperator
  | .modeMismatch .. => .modeMismatch
  | .unboundVariable .. => .unboundVariable
  | .shape _ => .shape
  | .nonTermination .. => .nonTermination
  | .noNodeLabels => .noNodeLabels
  | .edgeOutOfRange .. => .edgeOutOfRange
  | .edgeLabels _ => .edgeLabels
  | .emptyBatch => .emptyBatch
  | .canceled => .canceled
  | _ => .other

/-- Whether a failure has a cause of a class. -/
def has (f : Failure) (k : Kind) : Bool :=
  f.causes.any fun c => c.causeKind == k

/-- The class of the most telling cause. -/
def kind (f : Failure) : Kind :=
  (Kind.all.find? f.has).getD .other

/-- The labels under which failures are counted, each with the class it stands for; the first that applies is taken. -/
def resultLabels : List (Kind × String) :=
  [(.malformed, "syntax_err"), (.unknownOperator, "unknown_op"), (.unboundVariable, "unbound_var"),
    (.modeMismatch, "mode_mismatch"), (.shape, "shape_err"), (.nonTermination, "non_termination"),
    (.canceled, "canceled")]

/-- The label of every failure that has no label of its own. -/
def genericLabel : String := "generic_err"

/-- The label under which a failure is counted. -/
def result (f : Failure) : String :=
  ((resultLabels.find? fun (k, _) => f.has k).map Prod.snd).getD genericLabel

/-- The label of success. -/
def successLabel : String := "success"

/-- The label under which an outcome is counted. -/
def outcomeLabel : Option Failure → String
  | none => successLabel
  | some f => f.result

/-- Work that fails so does not come to an end: it breaks off and returns nothing, not even the failure. -/
def BreaksOff (f : Failure) : Prop :=
  f.kind = .aborted

instance (f : Failure) : Decidable f.BreaksOff :=
  inferInstanceAs (Decidable (_ = _))

/-- The failure that the finish of some work is reported with. Of work that breaks off the finish is reported as well, but what reports it
has not been told of a failure. -/
def reported {α : Type} : Except Failure α → Option Failure
  | .ok _ => none
  | .error f => if f.BreaksOff then none else some f

/-- A list of complaints as an outcome: none is success, one stands alone, several are joined. -/
def ofList : List Failure → Option Failure
  | [] => none
  | [f] => some f
  | fs => some (.joined fs)

end Failure

/-- What is there; without it work breaks off. -/
def orAborted {α : Type} : Option α → Except Failure α
  | some a => .ok a
  | none => .error .aborted

/-- The same outcome with words on where a failure arose. -/
def inPlace {α : Type} (place : String) : Except Failure α → Except Failure α
  | .ok a => .ok a
  | .error f => .error (.within place f)

end ModalGraph
