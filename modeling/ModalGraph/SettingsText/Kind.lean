import ModalGraph.SettingsText.Number

/-!
# Kinds of values

Every value of settings text has a kind. A tuple and an object say the kind of each of their parts; a list and a map have parts of
one kind. The kind `dynamic` is that of a null that stands alone and of a value about which nothing is known. `convertible` says
from which kind to which there is a way, though a value may not be able to go it; `unify?` looks for a kind to which there is a
way from all of several kinds.
-/

namespace ModalGraph.SettingsText

/-- The kind of a value. -/
inductive Kind where
  | dynamic
  | bool
  | number
  | text
  | list (item : Kind)
  | map (item : Kind)
  | tuple (items : List Kind)
  /-- Members in the order of their names. -/
  | object (members : List (String × Kind))
deriving Repr, Inhabited

namespace Kind

mutual

/-- Whether two kinds are the same. -/
def same : Kind → Kind → Bool
  | .dynamic, .dynamic => true
  | .bool, .bool => true
  | .number, .number => true
  | .text, .text => true
  | .list k, .list l => k.same l
  | .map k, .map l => k.same l
  | .tuple ks, .tuple ls => allSame ks ls
  | .object ms, .object ns => membersSame ms ns
  | _, _ => false

/-- Whether some kinds are the same, one by one. -/
def allSame : List Kind → List Kind → Bool
  | [], [] => true
  | k :: ks, l :: ls => k.same l && allSame ks ls
  | _, _ => false

/-- Whether some members have the same names and kinds, one by one. -/
def membersSame : List (String × Kind) → List (String × Kind) → Bool
  | [], [] => true
  | (m, k) :: ms, (n, l) :: ns => m == n && k.same l && membersSame ms ns
  | _, _ => false

end

instance : BEq Kind := ⟨same⟩

/-- A kind in words. -/
def name : Kind → String
  | .dynamic => "dynamic"
  | .bool => "bool"
  | .number => "number"
  | .text => "string"
  | .list k => "list of " ++ k.name
  | .map k => "map of " ++ k.name
  | .tuple _ => "tuple"
  | .object _ => "object"

mutual

/-- Whether something is left open in a kind. -/
def hasDynamic : Kind → Bool
  | .dynamic => true
  | .list k => k.hasDynamic
  | .map k => k.hasDynamic
  | .tuple ks => anyDynamic ks
  | .object ms => anyMemberDynamic ms
  | _ => false

/-- Whether something is left open in one of some kinds. -/
def anyDynamic : List Kind → Bool
  | [] => false
  | k :: ks => k.hasDynamic || anyDynamic ks

/-- Whether something is left open in the kind of a member. -/
def anyMemberDynamic : List (String × Kind) → Bool
  | [] => false
  | (_, k) :: ms => k.hasDynamic || anyMemberDynamic ms

end

mutual

/-- How deep kinds stand in each other. -/
def depth : Kind → Nat
  | .list k => k.depth + 1
  | .map k => k.depth + 1
  | .tuple ks => depthOfAll ks + 1
  | .object ms => depthOfMembers ms + 1
  | _ => 0

/-- The greatest depth of some kinds. -/
def depthOfAll : List Kind → Nat
  | [] => 0
  | k :: ks => Nat.max k.depth (depthOfAll ks)

/-- The greatest depth of the kinds of some members. -/
def depthOfMembers : List (String × Kind) → Nat
  | [] => 0
  | (_, k) :: ms => Nat.max k.depth (depthOfMembers ms)

end

def isTuple : Kind → Bool
  | .tuple _ => true
  | _ => false

def isObject : Kind → Bool
  | .object _ => true
  | _ => false

def isList : Kind → Bool
  | .list _ => true
  | _ => false

def isMap : Kind → Bool
  | .map _ => true
  | _ => false

/-- The kinds of the items of a tuple. -/
def items : Kind → List Kind
  | .tuple ks => ks
  | _ => []

/-- The kinds of the members of an object. -/
def members : Kind → List (String × Kind)
  | .object ms => ms
  | _ => []

/-- The kind of the parts of a list or a map. -/
def part? : Kind → Option Kind
  | .list k => some k
  | .map k => some k
  | _ => none

/-- The order in which kinds are tried as a common one: a text before other scalars, lists and maps before tuples and objects,
and what is left open last. -/
def preference : Kind → Nat
  | .text => 0
  | .list _ => 1
  | .map _ => 1
  | .dynamic => 3
  | _ => 2

/-- A common kind. Tuples and objects that meet lists and maps become one of these first. -/
structure Common where
  kind : Kind
  first : Option Kind := none

mutual

/-- Whether there is a way from one kind to another. -/
def convertibleWithin (fuel : Nat) (a b : Kind) : Bool :=
  match fuel with
  | 0 => false
  | fuel + 1 =>
    match a, b with
    | _, .dynamic => true
    | .dynamic, _ => true
    | .text, .text => true
    | .number, .number => true
    | .bool, .bool => true
    | .number, .text => true
    | .bool, .text => true
    | .text, .number => true
    | .text, .bool => true
    | .list x, .list y => convertibleWithin fuel x y
    | .map x, .map y => convertibleWithin fuel x y
    | .tuple xs, .tuple ys => xs.length == ys.length && (xs.zip ys).all fun (x, y) => convertibleWithin fuel x y
    | .object xs, .object ys =>
      ys.all fun (name, y) => ((xs.lookup name).map fun x => convertibleWithin fuel x y).getD false
    | .tuple xs, .list y => (itemKindWithin? fuel xs y).isSome
    | .object xs, .map y => (memberKindWithin? fuel (xs.map Prod.snd) y).isSome
    | .map x, .object ys => ys.all fun (_, y) => convertibleWithin fuel x y
    | _, _ => false

/-- The kind that parts of several kinds get in a map with members of some kind. If that is left open, it is the common kind of
the parts. -/
def memberKindWithin? (fuel : Nat) (xs : List Kind) (y : Kind) : Option Kind :=
  match fuel with
  | 0 => none
  | fuel + 1 =>
    if xs.isEmpty then some y
    else do
      let k ← if y == .dynamic then (unifyWithin? fuel xs).map Common.kind else some y
      if xs.all fun x => x == k || convertibleWithin fuel x k then some k else none

/-- The kind that parts of several kinds get in a list with items of some kind. As for a map, but a common kind must not be left
open unless it is for every part. -/
def itemKindWithin? (fuel : Nat) (xs : List Kind) (y : Kind) : Option Kind :=
  match fuel with
  | 0 => none
  | fuel + 1 =>
    match memberKindWithin? fuel xs y with
    | none => none
    | some k => if !xs.isEmpty && k == .dynamic && !xs.all (· == .dynamic) then none else some k

/-- The list whose items take the items of several tuples, or the map whose members take the members of several objects. -/
def collectionWithin? (fuel : Nat) (make : Kind → Kind) (parts : List Kind) (ks : List Kind) : Option Kind :=
  match fuel with
  | 0 => none
  | fuel + 1 => do
    let k := make (← unifyWithin? fuel parts).kind
    if ks.all fun x => x == k || convertibleWithin fuel x k then some k else none

/-- The first kind of some in the order of preference to which there is a way from all. -/
def preferredWithin? (fuel : Nat) (ks : List Kind) : Option Common :=
  match fuel with
  | 0 => none
  | fuel + 1 =>
    ((ks.mergeSort fun a b => a.preference ≤ b.preference).find? fun k =>
      ks.all fun x => x == k || convertibleWithin fuel x k).map fun k => ⟨k, none⟩

/-- A common kind of some kinds. Tuples of one length meet item by item, and objects with the same names member by member; other
tuples and objects meet as a list or a map. Where one of these meets something left open, their common kind is left open. -/
def unifyWithin? (fuel : Nat) (ks : List Kind) : Option Common :=
  match fuel with
  | 0 => none
  | fuel + 1 =>
    let settled := ks.filter (· != .dynamic)
    let anyOpen := settled.length != ks.length
    if settled.isEmpty then preferredWithin? fuel ks
    else if settled.all isMap || settled.all isList then
      if anyOpen then some ⟨.dynamic, none⟩
      else do
        let k := (← unifyWithin? fuel (ks.filterMap part?)).kind
        some ⟨if settled.all isMap then .map k else .list k, none⟩
    else if settled.all isTuple then
      if anyOpen then some ⟨.dynamic, none⟩
      else
        let rows := ks.map items
        let width := (rows.head?.map List.length).getD 0
        if rows.all fun r => r.length == width then do
          let columns := (List.range width).map fun i => rows.filterMap fun r => r[i]?
          some ⟨.tuple ((← columns.mapM (unifyWithin? fuel)).map Common.kind), none⟩
        else (collectionWithin? fuel .list (rows.flatMap id) ks).map fun k => ⟨k, none⟩
    else if settled.all isObject then
      if anyOpen then some ⟨.dynamic, none⟩
      else
        let rows := ks.map members
        let names := (rows.head?.map fun r => r.map Prod.fst).getD []
        if rows.all fun r => r.map Prod.fst == names then do
          let columns := names.map fun n => rows.filterMap fun r => r.lookup n
          some ⟨.object (names.zip ((← columns.mapM (unifyWithin? fuel)).map Common.kind)), none⟩
        else (collectionWithin? fuel .map (rows.flatMap fun r => r.map Prod.snd) ks).map fun k => ⟨k, none⟩
    else
      let asCollection :=
        if settled.all fun k => k.isList || k.isTuple then
          collectionWithin? fuel .list ((ks.filter isTuple).flatMap items) (ks.filter isTuple)
        else if settled.all fun k => k.isMap || k.isObject then
          collectionWithin? fuel .map ((ks.filter isObject).flatMap fun k => k.members.map Prod.snd) (ks.filter isObject)
        else none
      match asCollection.bind fun c =>
          (unifyWithin? fuel (ks.map fun k => if k.isTuple || k.isObject then c else k)).map fun m => (c, m.kind) with
      | some (c, k) => if k.isList || k.isMap then some ⟨k, some c⟩ else preferredWithin? fuel ks
      | none => if settled.any isObject && settled.any isTuple then none else preferredWithin? fuel ks

end

/-- Fuel that suffices for kinds of some depth. -/
def fuelFor (ks : List Kind) : Nat :=
  12 * depthOfAll ks + 24

/-- Whether there is a way from one kind to another. -/
def convertible (a b : Kind) : Bool :=
  convertibleWithin (fuelFor [a, b]) a b

/-- The kind that parts of several kinds get in a list with items of some kind. -/
def itemKind? (xs : List Kind) (y : Kind) : Option Kind :=
  itemKindWithin? (fuelFor (y :: xs)) xs y

/-- The kind that parts of several kinds get in a map with members of some kind. -/
def memberKind? (xs : List Kind) (y : Kind) : Option Kind :=
  memberKindWithin? (fuelFor (y :: xs)) xs y

/-- A common kind of some kinds. -/
def unify? (ks : List Kind) : Option Common :=
  unifyWithin? (fuelFor ks) ks

/-- A kind to which something of another kind is brought, with everything left open in it filled in from there. -/
def filledWithin (fuel : Nat) (source target : Kind) : Kind :=
  match fuel with
  | 0 => target
  | fuel + 1 =>
    let fromParts := fun (ks : List Kind) (k : Kind) =>
      match unify? ks with
      | some c => filledWithin fuel c.kind k
      | none => k
    match source, target with
    | .dynamic, k => k
    | k, .dynamic => k
    | .map k₀, .map k => .map (filledWithin fuel k₀ k)
    | .object ms, .map k => .map (fromParts (ms.map Prod.snd) k)
    | .list k₀, .list k => .list (filledWithin fuel k₀ k)
    | .tuple ks, .list k => .list (fromParts ks k)
    | .map k₀, .object ms => .object (ms.map fun (n, k) => (n, filledWithin fuel k₀ k))
    | .object ms₀, .object ms =>
      .object (ms.map fun (n, k) => (n, ((ms₀.lookup n).map fun k₀ => filledWithin fuel k₀ k).getD k))
    | .tuple ks₀, .tuple ks => .tuple ((ks₀.zip ks).map fun (k₀, k) => filledWithin fuel k₀ k)
    | _, k => k

/-- A kind to which something of another kind is brought, with everything left open in it filled in from there. -/
def filled (source target : Kind) : Kind :=
  filledWithin (target.depth + 1) source target

/-- Whether all parts of a kind are of one kind, or it is an object. -/
def isUniform : Kind → Bool
  | .list _ => true
  | .map _ => true
  | .object _ => true
  | _ => false

/-- The kind of the parts of a list or a map by the kinds of its parts, which may be left open but for that must be the same. -/
def shared? (ks : List Kind) : Option Kind :=
  match ks.filter (· != .dynamic) with
  | [] => some .dynamic
  | k :: rest => if rest.all (· == k) then some k else none

end Kind

end ModalGraph.SettingsText
