import ModalGraph.SettingsText.Term
import ModalGraph.SettingsText.Value

/-!
# Outcomes

Working out a term yields a value and says whether something failed on the way. A failure does not end the work: what failed
counts as a value that is not known, and a conditional or a logical operator may not need it. This module holds the operators on
values; what is not known makes most results not known.
-/

namespace ModalGraph.SettingsText

/-- A value, and whether something failed on the way to it. -/
structure Outcome where
  value : Value
  failed : Bool
deriving Repr, Inhabited

namespace Outcome

def success (v : Value) : Outcome :=
  ⟨v, false⟩

/-- A failure; of the value only the kind is known. -/
def failure (k : Kind) : Outcome :=
  ⟨.unknown k, true⟩

/-- An outcome of which something before it may have failed. -/
def after (failed : Bool) (o : Outcome) : Outcome :=
  { o with failed := failed || o.failed }

def ofOption (k : Kind) : Option Value → Outcome
  | some v => success v
  | none => failure k

end Outcome

/-! ## Picking parts -/

/-- The place that a number names. -/
def Number.place? (n : Number) : Option Nat :=
  match n.int64? with
  | some i => if i < 0 then none else some i.toNat
  | none => none

namespace Value

/-- The item of a sequence at a place. -/
def itemAt (v : Value) (n : Number) : Outcome :=
  match v with
  | .tuple vs => .ofOption .dynamic (n.place?.bind fun i => vs[i]?)
  | .list _ vs => .ofOption .dynamic (n.place?.bind fun i => vs[i]?)
  | .unknown (.tuple ks) => .ofOption .dynamic ((n.place?.bind fun i => ks[i]?).map .unknown)
  | .unknown (.list k) => .success (.unknown k)
  | _ => .failure .dynamic

/-- The member of some name. -/
def memberNamed (v : Value) (name : String) : Outcome :=
  match v with
  | .object ms => .ofOption .dynamic (ms.lookup name)
  | .map _ ms => .ofOption .dynamic (ms.lookup name)
  | .unknown (.object ks) => .ofOption .dynamic ((ks.lookup name).map .unknown)
  | .unknown (.map k) => .success (.unknown k)
  | .unknown .dynamic => .success (.unknown .dynamic)
  | _ => .failure .dynamic

/-- The part of a value that a key names: an item by its place, or a member by its name. -/
def index (v key : Value) : Outcome :=
  if v.isNull || key.isNull then .failure .dynamic
  else if v.kind == .dynamic || key.kind == .dynamic then .success (.unknown .dynamic)
  else
    match v.kind with
    | .tuple _ =>
      match key.convert? .number with
      | some (.number n) => v.itemAt n
      | some _ => .success (.unknown .dynamic)
      | none => .failure .dynamic
    | .list k =>
      match key.convert? .number with
      | some (.number n) => v.itemAt n
      | some _ => .success (.unknown k)
      | none => .failure .dynamic
    | .map k =>
      match key.convert? .text with
      | some (.text s) => v.memberNamed s
      | some _ => .success (.unknown k)
      | none => .failure .dynamic
    | .object _ =>
      match key.convert? .text with
      | some (.text s) => if v.isUnknown then .success (.unknown .dynamic) else v.memberNamed s
      | some _ => .success (.unknown .dynamic)
      | none => .failure .dynamic
    | _ => .failure .dynamic

/-- The keys and values of the parts of a collection. -/
def entries? : Value → Option (List (Value × Value))
  | .tuple vs => some (vs.zipIdx.map fun (v, i) => (.number (.ofPlace i), v))
  | .list _ vs => some (vs.zipIdx.map fun (v, i) => (.number (.ofPlace i), v))
  | .object ms => some (ms.map fun (n, v) => (.text n, v))
  | .map _ ms => some (ms.map fun (n, v) => (.text n, v))
  | _ => none

end Value

/-- Whether values of a kind can be gone through. -/
def Kind.isCollection : Kind → Bool
  | .tuple _ => true
  | .list _ => true
  | .object _ => true
  | .map _ => true
  | _ => false

/-! ## Operators -/

namespace BinaryOp

/-- The kind to which both operands are brought. -/
def operandKind : BinaryOp → Kind
  | .or => .bool
  | .and => .bool
  | .equal => .dynamic
  | .unequal => .dynamic
  | _ => .number

/-- The kind of the result. -/
def resultKind : BinaryOp → Kind
  | .add => .number
  | .subtract => .number
  | .multiply => .number
  | .divide => .number
  | .modulo => .number
  | _ => .bool

/-- The result for two truth values. -/
def onBools (op : BinaryOp) (a b : Bool) : Option Value :=
  match op with
  | .or => some (.bool (a || b))
  | .and => some (.bool (a && b))
  | _ => none

/-- The result for two numbers. -/
def onNumbers (op : BinaryOp) (a b : Number) : Option Value :=
  match op with
  | .greater => some (.bool (b.less a))
  | .greaterEqual => some (.bool !a.less b)
  | .less => some (.bool (a.less b))
  | .lessEqual => some (.bool !b.less a)
  | .add => (a.add? b).map .number
  | .subtract => (a.subtract? b).map .number
  | .multiply => (a.multiply? b).map .number
  | .divide => (a.divide? b).map .number
  | .modulo => (a.modulo? b).map .number
  | _ => none

/-- The result for operands that are brought to their kind. Nothing but equality takes a null. -/
def onValues (op : BinaryOp) (a b : Value) : Outcome :=
  let answer := fun (r : Option Bool) => Outcome.success ((r.map .bool).getD (.unknown .bool))
  match op, a, b with
  | .equal, a, b => answer (a.equal? b)
  | .unequal, a, b => answer ((a.equal? b).map fun r => !r)
  | op, .bool a, .bool b => .ofOption op.resultKind (op.onBools a b)
  | op, .number a, .number b => .ofOption op.resultKind (op.onNumbers a b)
  | op, a, b => if a.isNull || b.isNull then .failure op.resultKind else .success (.unknown op.resultKind)

/-- The truth value of one operand that settles a logical operator. -/
def settlingBool? : BinaryOp → Option Bool
  | .or => some true
  | .and => some false
  | _ => none

end BinaryOp

namespace Outcome

/-- Whether the truth value of an outcome is known to be the given one; a null counts as false. -/
def isBool (o : Outcome) (b : Bool) : Bool :=
  match o.value with
  | .bool c => b == c
  | .null _ => !b
  | _ => false

/-- The outcome of a logical operator that one operand settles, or that hangs on one operand alone. Failures of the other operand
do not count then. -/
def settled? (b : Bool) (left right : Outcome) : Option Outcome :=
  if left.value.isUnknown && right.value.isUnknown then none
  else if left.isBool b then some ⟨.bool b, left.failed⟩
  else if right.isBool b then some ⟨.bool b, right.failed⟩
  else if left.value.isUnknown && right.isBool !b then some ⟨.unknown .bool, left.failed⟩
  else if right.value.isUnknown && left.isBool !b then some ⟨.unknown .bool, right.failed⟩
  else none

/-- A binary operator on two outcomes. -/
def binary (op : BinaryOp) (left right : Outcome) : Outcome :=
  match left.value.convert? op.operandKind, right.value.convert? op.operandKind with
  | some a, some b =>
    match op.settlingBool?.bind fun c => settled? c { left with value := a } { right with value := b } with
    | some o => o
    | none => if left.failed || right.failed then failure op.resultKind else op.onValues a b
  | _, _ => failure op.resultKind

/-- The opposite of a truth value. -/
def not (o : Outcome) : Outcome :=
  match o.value.convert? .bool, o.failed with
  | some (.bool b), false => success (.bool !b)
  | some (.unknown _), false => success (.unknown .bool)
  | _, _ => failure .bool

/-- The opposite of a number. -/
def negate (o : Outcome) : Outcome :=
  match o.value.convert? .number, o.failed with
  | some (.number n), false => success (.number n.negate)
  | some (.unknown _), false => success (.unknown .number)
  | _, _ => failure .number

/-- The common kind of two values: that of the other one for a null that stands alone, and none in particular where the kind of
one is left open. -/
def commonKind? (a b : Value) : Option Kind.Common :=
  match a, b with
  | .null .dynamic, b => some ⟨b.kind, none⟩
  | a, .null .dynamic => some ⟨a.kind, none⟩
  | a, b => if a.kind == .dynamic || b.kind == .dynamic then some ⟨.dynamic, none⟩ else Kind.unify? [a.kind, b.kind]

/-- One of the two outcomes of a conditional, brought to their common kind. -/
def brought (c : Kind.Common) (o : Outcome) : Outcome :=
  let first := match c.first with
    | some k => if o.value.kind.isTuple || o.value.kind.isObject then o.value.convert? k else some o.value
    | none => some o.value
  match first.bind fun v => v.convert? c.kind with
  | some v => ⟨v, o.failed⟩
  | none => failure c.kind

/-- A conditional. Both outcomes must have a common kind, but only the failures of the one that is chosen count. -/
def conditional (condition yes no : Outcome) : Outcome :=
  match commonKind? yes.value no.value with
  | none => failure .dynamic
  | some c =>
    if condition.value.isNull then failure c.kind
    else if condition.value.isUnknown then
      if yes.value.isNull && no.value.isNull then ⟨.null c.kind, condition.failed⟩ else ⟨.unknown c.kind, condition.failed⟩
    else
      match condition.value.convert? .bool with
      | some (.bool b) => (brought c (if b then yes else no)).after condition.failed
      | _ => failure c.kind

/-! ## Texts -/

/-- The text of the parts of a template so far, whether all of it is known, and whether something failed. -/
structure Writing where
  text : String
  known : Bool
  failed : Bool

/-- One more part of a template. After a failure nothing is written any more. -/
def Writing.add (w : Writing) (o : Outcome) : Writing :=
  let failed := w.failed || o.failed
  if o.value.isNull then { w with failed := true }
  else if o.value.isUnknown then { w with known := false, failed }
  else
    match o.value.convert? .text with
    | some (.text s) => { w with text := if w.known && !failed then w.text ++ s else w.text, failed }
    | _ => { w with failed := true }

/-- The text of the parts of a template. -/
def template (parts : List Outcome) : Outcome :=
  let w := parts.foldl Writing.add ⟨"", true, false⟩
  ⟨if w.known then .ofText w.text else .unknown .text, w.failed⟩

/-- The text of the items of a tuple. -/
def joined (o : Outcome) : Outcome :=
  match o.value with
  | .tuple vs => (template (vs.map success)).after o.failed
  | _ => ⟨.unknown .text, o.failed⟩

/-! ## Tuples and objects -/

/-- The tuple of some outcomes. -/
def tuple (items : List Outcome) : Outcome :=
  ⟨.tuple (items.map Outcome.value), items.any Outcome.failed⟩

/-- The name that a key spells, if it is known, and whether it fails to be one. -/
def keyName (o : Outcome) : Option String × Bool :=
  if o.failed || o.value.isNull then (none, true)
  else
    match o.value.convert? .text with
    | some (.text s) => (some s, false)
    | some _ => (none, false)
    | none => (none, true)

/-- The object with some keys and values. Unless all names are known, not even its kind is. -/
def object (keys values : List Outcome) : Outcome :=
  let names := keys.map keyName
  let failed := names.any Prod.snd || values.any Outcome.failed
  match names.mapM Prod.fst with
  | some ns => ⟨.object (Value.sortedMembers (ns.zip (values.map Outcome.value))), failed⟩
  | none => ⟨.unknown .dynamic, failed⟩

def index (o key : Outcome) : Outcome :=
  (o.value.index key.value).after (o.failed || key.failed)

def member (o : Outcome) (name : String) : Outcome :=
  (o.value.memberNamed (Text.composed name)).after o.failed

/-- What is picked out of every item of a sequence. A value that is no sequence counts as the only item of one, and a null as
none at all. What is picked out of a list must make a list again. -/
def splat (source : Outcome) (each : Value → Outcome) : Outcome :=
  let kindOf := fun k => (each (.unknown k)).value.kind
  let finish := fun (vs : List Value) (whole : List Value → Value) (kind : Kind) =>
    let os := vs.map each
    if os.any Outcome.failed then failure kind else success (whole (os.map Outcome.value))
  if source.failed then failure .dynamic
  else
    match source.value with
    | .tuple vs => finish vs .tuple (.tuple ((Value.kinds vs).map kindOf))
    | .list k [] => ⟨.list (kindOf k) [], (each (.unknown k)).failed⟩
    | .list k vs =>
      let o := finish vs .tuple (.list (kindOf k))
      match o.value with
      | .tuple items => ofOption .dynamic (Value.listOf? items)
      | _ => o
    | .unknown .dynamic => success (.unknown .dynamic)
    | .unknown (.tuple ks) =>
      let os := ks.map fun k => each (.unknown k)
      ⟨.unknown (.tuple (os.map fun o => o.value.kind)), os.any Outcome.failed⟩
    | .unknown (.list k) => ⟨.unknown (.list (kindOf k)), (each (.unknown k)).failed⟩
    | .unknown k => ⟨.unknown .dynamic, (each (.unknown k)).failed⟩
    | .null k => if k.isTuple || k.isList then failure .dynamic else success (.tuple [])
    | v => finish [v] .tuple (.tuple [kindOf v.kind])

/-! ## Going through collections -/

/-- What has been gathered from a collection: keys with their values, whether all of it is known, and whether something failed. -/
structure Gathered where
  members : List (String × Value)
  known : Bool
  failed : Bool

/-- Something that should be known is not; it counts as a failure unless something else was not known before. -/
def Gathered.miss (g : Gathered) (wrong : Bool) : Gathered :=
  { g with known := false, failed := g.failed || (wrong && g.known) }

/-- The outcomes of one entry of a collection: its condition, its key and its value. -/
structure Entry where
  condition : Outcome
  key : Outcome
  value : Outcome

/-- One more entry, if its condition is fulfilled. -/
def Gathered.add (unique : Bool) (g : Gathered) (e : Entry) : Gathered :=
  let g := { g with failed := g.failed || e.condition.failed }
  if e.condition.value.isUnknown then g.miss false
  else
    match e.condition.value.convert? .bool with
    | some (.bool false) => g
    | some (.bool true) =>
      let g := { g with failed := g.failed || e.key.failed }
      if e.key.value.isUnknown then g.miss false
      else
        match e.key.value.convert? .text with
        | some (.text s) =>
          let g := { g with failed := g.failed || e.value.failed }
          if unique && (g.members.lookup s).isSome then { g with failed := true }
          else { g with members := g.members ++ [(s, e.value.value)] }
        | _ => g.miss true
    | _ => g.miss true

/-- Members of one name collected in tuples. -/
def grouped (ms : List (String × Value)) : List (String × Value) :=
  (ms.map Prod.fst).eraseDups.map fun n => (n, .tuple ((ms.filter fun m => m.1 == n).map Prod.snd))

/-- What is gathered from a collection. `trial` is the condition for an entry about which nothing is known: what is wrong with it
there is wrong before any entry is looked at. -/
def gather (source trial : Outcome) (entry : Value × Value → Entry) (unique : Bool) (whole : List (String × Value) → Value) :
    Outcome :=
  if source.value.isNull then failure .dynamic
  else if source.value.kind == .dynamic then ⟨.unknown .dynamic, source.failed⟩
  else if !source.value.kind.isCollection then failure .dynamic
  else
    match source.value.entries? with
    | none => ⟨.unknown .dynamic, source.failed⟩
    | some es =>
      if trial.failed || trial.value.isNull || (trial.value.convert? .bool).isNone then failure .dynamic
      else
        let g := (es.map entry).foldl (Gathered.add unique) ⟨[], true, source.failed⟩
        ⟨if g.known then whole g.members else .unknown .dynamic, g.failed⟩

end Outcome

end ModalGraph.SettingsText
