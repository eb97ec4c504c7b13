import Mathlib.Logic.Relation
import ModalGraph.Proofs.Formula.Canonical

/-!
# Formulas that say the same

A bound variable may have another name, as long as the new name is not free below its binder and is not caught by a binder in between
(`Expr.renamed`, `Expr.Captures`). A sequence may be read from the left or from the right, and a formula may stand at another place.
`Rewrites` is one such change anywhere in a formula, and the variants of a formula are what is left after any number of them
(`Variant`).
-/

namespace ModalGraph.Formula

namespace Expr

mutual

/-- A variable occurs outside its binders. -/
def Free (x : Bytes) : Expr → Prop
  | .atom .. => False
  | .seq _ left right => left.Free x ∨ right.Free x
  | .par _ children => AnyFree x children
  | .diamond .. => False
  | .fix _ _ v _ body => v ≠ x ∧ body.Free x
  | .var _ name => name = x
  | .hole => False

/-- A variable occurs outside its binders in one of several formulas. -/
def AnyFree (x : Bytes) : List Expr → Prop
  | [] => False
  | e :: es => e.Free x ∨ AnyFree x es

end

mutual

/-- A variable `v` that is free occurs below a binder of `w`. -/
def Captures (v w : Bytes) : Expr → Prop
  | .atom .. => False
  | .seq _ left right => left.Captures v w ∨ right.Captures v w
  | .par _ children => AnyCaptures v w children
  | .diamond .. => False
  | .fix _ _ u _ body => u ≠ v ∧ (u = w ∧ body.Free v ∨ body.Captures v w)
  | .var .. => False
  | .hole => False

/-- A variable `v` that is free occurs below a binder of `w` in one of several formulas. -/
def AnyCaptures (v w : Bytes) : List Expr → Prop
  | [] => False
  | e :: es => e.Captures v w ∨ AnyCaptures v w es

end

mutual

/-- A formula with the name `w` for the variable `v` where that is free. -/
def renamed (v w : Bytes) : Expr → Expr
  | .atom p name arg => .atom p name arg
  | .seq p left right => .seq p (left.renamed v w) (right.renamed v w)
  | .par p children => .par p (renamedAll v w children)
  | .diamond p direction phi sigma => .diamond p direction phi sigma
  | .fix p least u base body => .fix p least u base (if u = v then body else body.renamed v w)
  | .var p name => .var p (if name = v then w else name)
  | .hole => .hole

/-- Several formulas with the name `w` for the variable `v` where that is free. -/
def renamedAll (v w : Bytes) : List Expr → List Expr
  | [] => []
  | e :: es => e.renamed v w :: renamedAll v w es

end

mutual

/-- A name in its own place changes nothing. -/
theorem renamed_self (v : Bytes) : ∀ e : Expr, e.renamed v v = e
  | .atom .. => rfl
  | .seq _ left right => by rw [renamed, renamed_self v left, renamed_self v right]
  | .par _ children => by rw [renamed, renamedAll_self v children]
  | .diamond .. => rfl
  | .fix _ _ _ _ body => by rw [renamed, renamed_self v body, ite_self]
  | .var _ name => by
    rw [renamed]
    by_cases h : name = v
    · rw [if_pos h, h]
    · rw [if_neg h]
  | .hole => rfl

theorem renamedAll_self (v : Bytes) : ∀ es : List Expr, renamedAll v v es = es
  | [] => rfl
  | e :: es => by rw [renamedAll, renamed_self v e, renamedAll_self v es]

end

mutual

/-- No variable is free below a binder of its own. -/
theorem not_captures_self (v : Bytes) : ∀ e : Expr, ¬e.Captures v v
  | .atom .. => id
  | .seq _ left right => fun h => h.elim (not_captures_self v left) (not_captures_self v right)
  | .par _ children => fun h => not_anyCaptures_self v children h
  | .diamond .. => id
  | .fix _ _ _ _ body => fun ⟨hne, h⟩ => h.elim (fun h => hne h.1) (not_captures_self v body)
  | .var .. => id
  | .hole => id

theorem not_anyCaptures_self (v : Bytes) : ∀ es : List Expr, ¬AnyCaptures v v es
  | [] => id
  | e :: es => fun h => h.elim (not_captures_self v e) (not_anyCaptures_self v es)

end

end Expr

/-- One change of a formula that keeps what it says: at the formula itself, or at one of its parts. -/
inductive Rewrites : Expr → Expr → Prop where
  | place {e e' : Expr} : e'.unplaced = e.unplaced → Rewrites e e'
  | rename {p : Position} {least : Bool} {v base : Bytes} {body : Expr} (w : Bytes) : ¬body.Free w → ¬body.Captures v w →
      Rewrites (.fix p least v base body) (.fix p least w base (body.renamed v w))
  | right {p q p' q' : Position} {f g h : Expr} : Rewrites (.seq p (.seq q f g) h) (.seq p' f (.seq q' g h))
  | left {p q p' q' : Position} {f g h : Expr} : Rewrites (.seq p f (.seq q g h)) (.seq p' (.seq q' f g) h)
  | first {p : Position} {l l' r : Expr} : Rewrites l l' → Rewrites (.seq p l r) (.seq p l' r)
  | second {p : Position} {l r r' : Expr} : Rewrites r r' → Rewrites (.seq p l r) (.seq p l r')
  | child {p : Position} {before after : List Expr} {e e' : Expr} : Rewrites e e' →
      Rewrites (.par p (before ++ e :: after)) (.par p (before ++ e' :: after))
  | body {p : Position} {least : Bool} {v base : Bytes} {e e' : Expr} : Rewrites e e' →
      Rewrites (.fix p least v base e) (.fix p least v base e')

/-- A formula after any number of changes that keep what it says. -/
abbrev Variant : Expr → Expr → Prop :=
  Relation.ReflTransGen Rewrites

end ModalGraph.Formula
