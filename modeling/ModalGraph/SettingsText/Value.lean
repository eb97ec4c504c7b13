import ModalGraph.SettingsText.Kind
import ModalGraph.Text.Composed

/-!
# Values of settings text

A value has a kind, also when it is null and when it is not known. `convert?` brings a value to another kind: a text that spells
a truth value or a number counts as one, a truth value or a number as its text, and tuples and objects as lists and maps.
`equal?` compares two values as far as they are known; values of different kinds differ, and all nulls are equal.
-/

namespace ModalGraph.SettingsText

/-- A value. -/
inductive Value where
  | null (kind : Kind)
  | unknown (kind : Kind)
  | bool (b : Bool)
  | number (n : Number)
  | text (s : String)
  | tuple (items : List Value)
  /-- Members in the order of their names. -/
  | object (members : List (String × Value))
  /-- Items of one kind. -/
  | list (kind : Kind) (items : List Value)
  /-- Members of one kind, in the order of their names. -/
  | map (kind : Kind) (members : List (String × Value))
deriving Repr, Inhabited

namespace Value

/-- The value of a text: its composed spelling. -/
def ofText (s : String) : Value :=
  .text (Text.composed s)

/-- Members in the order of their names; of members with one name the last counts. -/
def sortedMembers {α : Type} (ms : List (String × α)) : List (String × α) :=
  (ms.foldl (fun ms (k, v) => (ms.filter fun m => m.1 != k) ++ [(k, v)]) []).mergeSort fun a b => a.1 ≤ b.1

/-! ## Kinds -/

mutual

/-- The kind of a value. -/
def kind : Value → Kind
  | .null k => k
  | .unknown k => k
  | .bool _ => .bool
  | .number _ => .number
  | .text _ => .text
  | .tuple vs => .tuple (kinds vs)
  | .object ms => .object (memberKinds ms)
  | .list k _ => .list k
  | .map k _ => .map k

/-- The kinds of some values. -/
def kinds : List Value → List Kind
  | [] => []
  | v :: vs => v.kind :: kinds vs

/-- The kinds of some members. -/
def memberKinds : List (String × Value) → List (String × Kind)
  | [] => []
  | (n, v) :: ms => (n, v.kind) :: memberKinds ms

end

def isNull : Value → Bool
  | .null _ => true
  | _ => false

def isUnknown : Value → Bool
  | .unknown _ => true
  | _ => false

mutual

/-- Whether a value holds one of which not even the kind is known. -/
def leavesOpen : Value → Bool
  | .unknown k => k == .dynamic
  | .tuple vs => anyLeavesOpen vs
  | .list _ vs => anyLeavesOpen vs
  | .object ms => anyMemberLeavesOpen ms
  | .map _ ms => anyMemberLeavesOpen ms
  | _ => false

/-- Whether one of some values leaves something open. -/
def anyLeavesOpen : List Value → Bool
  | [] => false
  | v :: vs => v.leavesOpen || anyLeavesOpen vs

/-- Whether one of some members leaves something open. -/
def anyMemberLeavesOpen : List (String × Value) → Bool
  | [] => false
  | (_, v) :: ms => v.leavesOpen || anyMemberLeavesOpen ms

end

/-! ## Conversion -/

/-- The truth value that a text spells. -/
def boolOfText? (s : String) : Option Bool :=
  if s == "true" || s == "1" then some true else if s == "false" || s == "0" then some false else none

/-- A part of a list or a map whose parts have some kind. -/
def settle (k : Kind) : Value → Value
  | .null .dynamic => .null k
  | .unknown .dynamic => .unknown k
  | v => v

/-- The list of some items, if they have one kind. -/
def listOf? (vs : List Value) : Option Value :=
  (Kind.shared? (kinds vs)).map fun k => .list k (vs.map (settle k))

/-- The map of some members, if they have one kind. -/
def mapOf? (ms : List (String × Value)) : Option Value :=
  (Kind.shared? ((memberKinds ms).map Prod.snd)).map fun k => .map k (ms.map fun (n, v) => (n, v.settle k))

/-- Brings values to their common kind by a way to bring one. -/
def alike? (bring : Value → Kind → Option Value) (vs : List Value) : Option (List Value) := do
  let c ← Kind.unify? (kinds vs)
  vs.mapM fun v => bring v c.kind

/-- Members with other values. -/
def renew (ms : List (String × Value)) (vs : List Value) : List (String × Value) :=
  (ms.map Prod.fst).zip vs

/-- A value brought to a kind. The fuel bounds how deep values stand in each other. -/
def convertWithin? (fuel : Nat) (v : Value) (k : Kind) : Option Value :=
  match fuel with
  | 0 => none
  | fuel + 1 =>
    let bring := convertWithin? fuel
    let bringNamed := fun (ms : List (String × Value)) (ks : List (String × Kind)) =>
      (ms.filter fun m => (ks.lookup m.1).isSome).mapM fun (n, v) => do
        return (n, ← bring v ((ks.lookup n).getD .dynamic))
    if v.kind == k || k == .dynamic then some v
    else if !v.kind.convertible k then none
    else
      match v, k with
      | .null k₀, k => some (.null (k₀.filled k))
      | .unknown k₀, k => some (.unknown (k₀.filled k))
      | .bool b, .text => some (.text (if b then "true" else "false"))
      | .number n, .text => some (.text n.text)
      | .text s, .number => (Number.ofText? s).map .number
      | .text s, .bool => (boolOfText? s).map .bool
      | .tuple vs, .tuple ks => ((vs.zip ks).mapM fun (v, k) => bring v k).map .tuple
      | .tuple [], .list k => some (.list k [])
      | .tuple vs, .list k => do
        let k ← Kind.itemKind? (kinds vs) k
        listOf? (← alike? bring (← vs.mapM fun v => bring v k))
      | .list k₀ [], .list k => some (.list (if k == .dynamic then k₀ else k) [])
      | .list _ vs, .list k => do listOf? (← vs.mapM fun v => bring v k)
      | .object ms, .object ks => (bringNamed ms ks).map .object
      | .object [], .map k => some (.map k [])
      | .object ms, .map k => do
        let k ← Kind.memberKind? ((memberKinds ms).map Prod.snd) k
        let vs ← ms.mapM fun m => bring m.2 k
        mapOf? (renew ms (← if k.isUniform then alike? bring vs else some vs))
      | .map k₀ [], .map k => some (.map (if k == .dynamic then k₀ else k) [])
      | .map _ ms, .map k => do
        let vs ← ms.mapM fun m => bring m.2 k
        mapOf? (renew ms (← if k.isUniform then alike? bring vs else some vs))
      | .map _ ms, .object ks => do
        let ms ← bringNamed ms ks
        if ms.length = ks.length then return .object ms else none
      | _, _ => none

/-- A value brought to a kind. -/
def convert? (v : Value) (k : Kind) : Option Value :=
  convertWithin? (v.kind.depth + k.depth + 2) v k

/-! ## Equality -/

/-- Whether a value can still be equal to one of which only the kind is known. -/
def mayEqual? (v : Value) (k : Kind) : Option Bool :=
  if v.isNull || k.hasDynamic || v.kind == k then none else some false

mutual

/-- Equality of values, if it is known. -/
def equal? (a b : Value) : Option Bool :=
  match a, b with
  | .unknown _, .unknown _ => none
  | .unknown k, b => b.mayEqual? k
  | a, .unknown k => a.mayEqual? k
  | .null _, .null _ => some true
  | .null _, _ => some false
  | _, .null _ => some false
  | a, b =>
    if a.leavesOpen || b.leavesOpen then none
    else if a.kind != b.kind then some false
    else
      match a, b with
      | .bool a, .bool b => some (a == b)
      | .number a, .number b => some (a.same b)
      | .text a, .text b => some (a == b)
      | .tuple as, .tuple bs => equalItems? as bs
      | .list _ as, .list _ bs => equalItems? as bs
      | .object as, .object bs => equalMembers? as bs
      | .map _ as, .map _ bs => equalMembers? as bs
      | _, _ => some false

/-- Equality of items, one by one. -/
def equalItems? : List Value → List Value → Option Bool
  | [], [] => some true
  | a :: as, b :: bs =>
    match equal? a b with
    | some true => equalItems? as bs
    | r => r
  | _, _ => some false

/-- Equality of members, one by one. -/
def equalMembers? : List (String × Value) → List (String × Value) → Option Bool
  | [], [] => some true
  | (m, a) :: as, (n, b) :: bs =>
    if m != n then some false
    else
      match equal? a b with
      | some true => equalMembers? as bs
      | r => r
  | _, _ => some false

end

end Value

end ModalGraph.SettingsText
