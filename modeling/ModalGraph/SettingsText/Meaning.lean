import ModalGraph.SettingsText.Outcome

/-!
# The meaning of terms

The outcome of a term in a scope. Settings know no variables and no functions of their own; the only names with values are those
of the entries that a term goes through.
-/

namespace ModalGraph.SettingsText

/-- The names that have values, the innermost first, and the item that a splat is at. -/
structure Scope where
  names : List (String × Value)
  here : Value

namespace Scope

/-- The scope of a text as a whole. -/
def empty : Scope :=
  ⟨[], .unknown .dynamic⟩

/-- A scope inside, where the names of an entry have their values. -/
def bind (s : Scope) (b : Binder) (key item : Value) : Scope :=
  { s with names := (b.item, item) :: ((b.key.map fun k => (k, key)).toList ++ s.names) }

end Scope

mutual

/-- The outcome of a term. -/
def Term.outcome (s : Scope) : Term → Outcome
  | .null => .success (.null .dynamic)
  | .bool b => .success (.bool b)
  | .number n => .success (.number n)
  | .literal t => .success (.ofText t)
  | .template parts => .template (outcomes s parts)
  | .joined t => (t.outcome s).joined
  | .variable n => .ofOption .dynamic (s.names.lookup n)
  | .call _ => .failure .dynamic
  | .tuple ts => .tuple (outcomes s ts)
  | .object keys values => .object (outcomes s keys) (outcomes s values)
  | .ambiguous => .failure .dynamic
  | .not t => (t.outcome s).not
  | .negate t => (t.outcome s).negate
  | .binary op left right => .binary op (left.outcome s) (right.outcome s)
  | .conditional condition yes no => .conditional (condition.outcome s) (yes.outcome s) (no.outcome s)
  | .index t key => (t.outcome s).index (key.outcome s)
  | .member t name => (t.outcome s).member name
  | .splat source each => (source.outcome s).splat fun v => each.outcome { s with here := v }
  | .here => .success s.here
  | .gather names source value condition =>
    let inside := fun key item => s.bind names key item
    .gather (source.outcome s) (condition.outcome (inside (.unknown .dynamic) (.unknown .dynamic)))
      (fun (k, v) => ⟨condition.outcome (inside k v), .success (.text ""), value.outcome (inside k v)⟩) false
      fun ms => .tuple (ms.map Prod.snd)
  | .gatherObject names source key value condition groups =>
    let inside := fun key item => s.bind names key item
    .gather (source.outcome s) (condition.outcome (inside (.unknown .dynamic) (.unknown .dynamic)))
      (fun (k, v) => ⟨condition.outcome (inside k v), key.outcome (inside k v), value.outcome (inside k v)⟩) (!groups)
      fun ms => .object (Value.sortedMembers (if groups then Outcome.grouped ms else ms))

/-- The outcomes of some terms. -/
def outcomes (s : Scope) : List Term → List Outcome
  | [] => []
  | t :: ts => t.outcome s :: outcomes s ts

end

/-- The value of a term in settings, if nothing fails. -/
def Term.value? (t : Term) : Option Value :=
  let o := t.outcome .empty
  if o.failed then none else some o.value

end ModalGraph.SettingsText
