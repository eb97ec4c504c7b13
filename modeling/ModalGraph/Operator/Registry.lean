import ModalGraph.Operator.Family

/-!
# Registries of operators

A registry maps names to operators of one family. Every entry is a constructor that takes the argument in square brackets; a
plain operator is a constructor that ignores it. An alias is the operator that a key names at the time the alias is made.
-/

namespace ModalGraph

/-- The argument of a name, if it has one. -/
abbrev Argument := Option Bytes

/-- How an operator is made from the argument of its name. -/
abbrev Constructor (α : Type) := Argument → Except Failure α

/-- The source form of an argument. -/
def argumentText : Argument → Bytes
  | none => []
  | some a => Bytes.ascii '[' :: (a ++ [Bytes.ascii ']'])

/-- A key taken apart at its first bracket pair: the name, and the argument if there is a bracket. -/
def parseKey (key : Bytes) : Bytes × Argument :=
  match Bytes.cut (Bytes.ascii '[') key with
  | (name, none) => (name, none)
  | (name, some rest) => (name, some (Bytes.cut (Bytes.ascii ']') rest).1)

/-- A registry of one family. No name occurs twice. -/
structure Registry (α : Type) where
  role : Role
  entries : List (Bytes × Constructor α)

/-- Something offered for registration. -/
inductive Offer (α : Type) where
  | operator (op : α)
  | constructor (make : Constructor α)
  | unfit (typeName : String)

namespace Registry

variable {α : Type}

/-- The registry without names. -/
def empty (role : Role) : Registry α :=
  ⟨role, []⟩

/-- The constructor of a name. -/
def find? (r : Registry α) (name : Bytes) : Option (Constructor α) :=
  r.entries.lookup name

/-- Whether a name is registered. -/
def has (r : Registry α) (name : Bytes) : Bool :=
  (r.find? name).isSome

/-- The registry with a constructor for a name, in place of an earlier one. -/
def insert (r : Registry α) (name : Bytes) (make : Constructor α) : Registry α :=
  { r with entries := (name, make) :: r.entries.filter fun e => e.1 != name }

/-- The registry with an operator for a name, whatever the argument. -/
def register (r : Registry α) (name : Bytes) (op : α) : Registry α :=
  r.insert name fun _ => .ok op

/-- The registry with what is offered, if it is an operator or a constructor. -/
def add (r : Registry α) (name : Bytes) : Offer α → Except Failure (Registry α)
  | .operator op => .ok (r.register name op)
  | .constructor make => .ok (r.insert name make)
  | .unfit typeName => .error (.invalidOperator r.role name typeName)

/-- The operator of a name with an argument. -/
def get (r : Registry α) (name : Bytes) (arg : Argument) : Except Failure α :=
  match r.find? name with
  | none => .error (.unknownOperator r.role.name (name ++ argumentText arg))
  | some make => inPlace s!"{r.role.name} operator {(name ++ argumentText arg).toText}" (make arg)

/-- The operator of a key. -/
def resolve (r : Registry α) (key : Bytes) : Except Failure α :=
  r.get (parseKey key).1 (parseKey key).2

/-- The registry with another name for the operator that a key names now. -/
def addAlias (r : Registry α) (name key : Bytes) : Except Failure (Registry α) := do
  let op ← r.resolve key
  return r.register name op

/-- The names in order. -/
def names (r : Registry α) : List Bytes :=
  (r.entries.map Prod.fst).mergeSort Bytes.le

end Registry

/-- The registries of the three families. -/
structure Registries where
  psi : Registry Psi
  sigma : Registry Sigma
  phi : Registry Phi

namespace Registries

/-- Registries without names. -/
def empty : Registries :=
  ⟨.empty .psi, .empty .sigma, .empty .phi⟩

/-- The family of a name. -/
def role? (name : Bytes) : Option Role :=
  [Role.psi, Role.sigma, Role.phi].find? fun r => Bytes.ofString r.name == name

/-- The registries with another name in one family for the operator that a key names now. -/
def addAlias (rs : Registries) (role : Role) (name key : Bytes) : Except Failure Registries :=
  match role with
  | .psi => do return { rs with psi := ← rs.psi.addAlias name key }
  | .sigma => do return { rs with sigma := ← rs.sigma.addAlias name key }
  | .phi => do return { rs with phi := ← rs.phi.addAlias name key }

/-- The names of one family in order. -/
def names (rs : Registries) : Role → List Bytes
  | .psi => rs.psi.names
  | .sigma => rs.sigma.names
  | .phi => rs.phi.names

/-- Whether a name is registered in one family. -/
def has (rs : Registries) (name : Bytes) : Role → Bool
  | .psi => rs.psi.has name
  | .sigma => rs.sigma.has name
  | .phi => rs.phi.has name

end Registries

end ModalGraph
