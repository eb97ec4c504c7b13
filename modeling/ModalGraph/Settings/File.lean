import ModalGraph.Operator.Builtin
import ModalGraph.Settings.Basic
import ModalGraph.SettingsText.Body
import ModalGraph.SettingsText.Meaning

/-!
# Settings files

A settings file declares the shape of the inputs, the bases of fixpoints, a limit on iterations, and further names for operators.
Reading it has three stages, each with failures of its own: the text must be well-formed, only known attributes and blocks may
occur and with values of the right kind, and the settings must make sense. Complaints of the last stage are collected.
-/

namespace ModalGraph

/-- Another name for the operator that a key names. -/
structure Alias where
  role : Role
  name : Bytes
  use : Bytes
deriving DecidableEq, Repr

/-- A settings file. -/
structure SettingsFile where
  settings : Settings
  aliases : List Alias

namespace SettingsFile

open SettingsText

/-! ## Attributes and blocks -/

/-- A body holds only attributes and blocks of some names. -/
def holdsOnly (attributes kinds : List String) (body : List Item) : Bool :=
  body.all fun
    | .assign name _ => attributes.contains name
    | .block kind .. => kinds.contains kind

/-- The value of a term, brought to a kind; none if something fails on the way. -/
def valueOf? (k : Kind) (t : Term) : Option Value := do
  (← t.value?).convert? k

/-- A truth value that may be left out or null. -/
def flag? (body : List Item) (name : String) : Option (Option Bool) :=
  match assigned? body name with
  | none => some none
  | some t =>
    match valueOf? .bool t with
    | some (.bool b) => some (some b)
    | some (.null _) => some none
    | _ => none

/-- A whole number of 64 bits; zero if it is left out. -/
def int? (body : List Item) (name : String) : Option Int :=
  match assigned? body name with
  | none => some 0
  | some t =>
    match valueOf? .number t with
    | some (.number n) => n.int64?
    | _ => none

/-- A text. -/
def textOf? (t : Term) : Option Bytes :=
  match valueOf? .text t with
  | some (.text s) => some (Bytes.ofString s)
  | _ => none

/-- A text; the empty one if it is left out. -/
def text? (body : List Item) (name : String) : Option Bytes :=
  match assigned? body name with
  | none => some []
  | some t => textOf? t

/-- What a block says of labels: the name of their domain and their width. -/
structure LabelBlock where
  dtype : Bytes
  width : Int

/-- What a block says of a base. Its values stay terms until the base is built. -/
structure BaseBlock where
  name : Bytes
  labels : LabelBlock
  bottom : Option Term
  top : Option Term

/-- What a file says, before it is looked at what it means. -/
structure Draft where
  batched : Option Bool
  adjacency : Option Bool
  maxIterations : Int
  node : Option LabelBlock
  edge : Option LabelBlock
  bases : List BaseBlock
  aliases : List Alias

/-- The domain and the width in a body. -/
def labelPart? (body : List Item) : Option LabelBlock := do
  return ⟨← text? body "dtype", ← int? body "width"⟩

/-- A block about labels. -/
def labelBlock? : List String × List Item → Option LabelBlock
  | ([], body) => if holdsOnly ["dtype", "width"] [] body then labelPart? body else none
  | _ => none

/-- A block about a base. -/
def baseBlock? : List String × List Item → Option BaseBlock
  | ([name], body) =>
    if holdsOnly ["dtype", "width", "bottom", "top"] [] body then do
      return ⟨Bytes.ofString name, ← labelPart? body, assigned? body "bottom", assigned? body "top"⟩
    else none
  | _ => none

/-- A block about another name. -/
def aliasBlock? (role : Role) : List String × List Item → Option Alias
  | ([name], body) =>
    if holdsOnly ["use"] [] body then do
      let t ← assigned? body "use"
      return ⟨role, Bytes.ofString name, ← textOf? t⟩
    else none
  | _ => none

/-- The one block of a kind, if there is one. -/
def single? {α : Type} (read : List String × List Item → Option α) : List (List String × List Item) → Option (Option α)
  | [] => some none
  | [b] => (read b).map some
  | _ => none

/-- The aliases of one family. -/
def aliasBlocks? (body : List Item) (role : Role) : Option (List Alias) :=
  (blocks body role.name).mapM (aliasBlock? role)

/-- What a body says, if it says only what a settings file may say. -/
def draft? (body : List Item) : Option Draft :=
  if holdsOnly ["batched", "adjacency", "max_iterations"] ["node", "edge", "fixpoint", "psi", "sigma", "phi"] body then do
    return {
      batched := ← flag? body "batched"
      adjacency := ← flag? body "adjacency"
      maxIterations := ← int? body "max_iterations"
      node := ← single? labelBlock? (blocks body "node")
      edge := ← single? labelBlock? (blocks body "edge")
      bases := ← (blocks body "fixpoint").mapM baseBlock?
      aliases := (← aliasBlocks? body .psi) ++ (← aliasBlocks? body .sigma) ++ (← aliasBlocks? body .phi) }
  else none

/-! ## What it means -/

/-- The width that a block declares; zero stands for one. -/
def LabelBlock.declaredWidth (b : LabelBlock) : Int :=
  if b.width = 0 then 1 else b.width

/-- The domain that a block declares, or a default. -/
def LabelBlock.declaredDomain (b : LabelBlock) (default : DType) : Except Failure DType :=
  if b.dtype.isEmpty then .ok default else DType.parse b.dtype

/-- The failures of an outcome. -/
def faultsOf {α : Type} : Except Failure α → List Failure
  | .ok _ => []
  | .error f => [f]

/-- The labels that a block declares, and what is wrong with it. -/
def LabelBlock.spec (b : LabelBlock) (kind : String) : LabelSpec × List Failure :=
  let d := inPlace kind (b.declaredDomain .float64)
  (⟨d.toOption.getD .float64, b.declaredWidth⟩, faultsOf d)

/-- The wording of a number that no label is near to. -/
def rangeReason : String :=
  let bound := s!"{(Nat.pow 2 53 - 1) * Nat.pow 2 971}.000000"
  s!"value must be between -{bound} and {bound} inclusive"

/-- The label of a truth value or a number. -/
def scalar : Value → Except Failure Label
  | .null _ => .error (.setting .nullElement)
  | .bool b => .ok (Label.ofBool b)
  | .number n =>
    match n.label? with
    | some v => .ok v
    | none => .error (.setting (.numberRange rangeReason))
  | .unknown .bool => .error .aborted
  | .unknown .number => .error (.setting (.numberRange "value must be known"))
  | v => .error (.setting (.notScalar v.kind.name))

/-- The labels of some items; there must be one at least. -/
def labelsOfItems : List Value → Except Failure (Option (List Label))
  | [] => .error (.setting .emptyList)
  | items => some <$> items.mapM scalar

/-- The labels of a value: none for a null, one for a scalar, and one for each item of a sequence. -/
def labelsOf : Value → Except Failure (Option (List Label))
  | .null _ => .ok none
  | .unknown _ => .error (.setting .notKnown)
  | .tuple items => labelsOfItems items
  | .list _ items => labelsOfItems items
  | v => (fun l => some [l]) <$> scalar v

/-- The labels of a term that may be left out. -/
def labelsOfTerm : Option Term → Except Failure (Option (List Label))
  | none => .ok none
  | some t =>
    match t.value? with
    | none => .error (.settingsText .value)
    | some v => labelsOf v

/-- The base that a block declares, or what is wrong with it. -/
def BaseBlock.base (b : BaseBlock) : Except (List Failure) Base :=
  let place := s!"fixpoint {Text.quote b.name}"
  let d := inPlace place (b.labels.declaredDomain .bool)
  let bottom := inPlace s!"{place} bottom" (labelsOfTerm b.bottom)
  let top := inPlace s!"{place} top" (labelsOfTerm b.top)
  match d, bottom, top with
  | .ok d, .ok bottom, .ok top => .ok ⟨b.labels.declaredWidth, d, bottom, top⟩
  | d, bottom, top => .error (faultsOf d ++ faultsOf bottom ++ faultsOf top)

/-- Settings with one more base, and the complaints so far. A name that is taken is refused. -/
def addBase (acc : Settings × List Failure) (b : BaseBlock) : Settings × List Failure :=
  let (s, fs) := acc
  if (s.base? b.name).isSome then (s, fs ++ [.setting (.declaredTwice b.name)])
  else
    match b.base with
    | .ok base => (s.insertBase b.name base, fs)
    | .error more => (s, fs ++ more)

/-- The labels of nodes that a file declares, and what is wrong with them. -/
def Draft.nodeSpec (d : Draft) : LabelSpec × List Failure :=
  match d.node with
  | none => (⟨.float64, 0⟩, [.setting .nodeMissing])
  | some b => b.spec "node"

/-- The labels of edges that a file declares, and what is wrong with them. -/
def Draft.edgeSpec (d : Draft) : Option LabelSpec × List Failure :=
  match d.edge with
  | none => (none, [])
  | some b =>
    let (spec, fs) := b.spec "edge"
    (some spec, fs)

/-- The settings that a file declares, and what is wrong with its parts. -/
def Draft.settings (d : Draft) : Settings × List Failure :=
  let (node, nodeFaults) := d.nodeSpec
  let (edge, edgeFaults) := d.edgeSpec
  let start : Settings :=
    { input := ⟨node, edge, d.adjacency.getD true, d.batched.getD false⟩, maxIterations := d.maxIterations }
  d.bases.foldl addBase (start, nodeFaults ++ edgeFaults)

/-- The place of a family in the order in which aliases are made. -/
def roleRank : Role → Nat
  | .psi => 0
  | .sigma => 1
  | .phi => 2

/-- The order in which aliases are made: by family, then by name. -/
def aliasLe (a b : Alias) : Bool :=
  roleRank a.role < roleRank b.role || (a.role == b.role && Bytes.le a.name b.name)

/-- The settings of a text; messages name the file. -/
def parse (fileName text : String) : Except Failure SettingsFile :=
  match parse? text with
  | none => .error (.settingsText .parse)
  | some body =>
    match draft? body with
    | none => .error (.settingsText .decode)
    | some d =>
      let (settings, faults) := d.settings
      match Failure.ofList (if faults.isEmpty then settings.faults else faults) with
      | some f => .error (.within s!"invalid configuration {fileName}" f)
      | none => .ok ⟨settings, d.aliases.mergeSort aliasLe⟩

/-! ## Operators -/

/-- Registries with one more alias, and the complaints so far. -/
def addAlias (acc : Registries × List Failure) (a : Alias) : Registries × List Failure :=
  match acc.1.addAlias a.role a.name a.use with
  | .ok rs => (rs, acc.2)
  | .error f => (acc.1, acc.2 ++ [.within s!"{a.role.name} {Text.quote a.name}" f])

/-- The builtin operators with the aliases of a file, made one after the other. -/
def registries (f : SettingsFile) : Except Failure Registries :=
  let (rs, faults) := f.aliases.foldl addAlias (Builtin.registries, [])
  match Failure.ofList faults with
  | none => .ok rs
  | some e => .error e

end SettingsFile

end ModalGraph
