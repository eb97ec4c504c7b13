import ModalGraph.Proofs.Compiler.Ledger
import ModalGraph.Proofs.Formula.Width

/-!
# The room that a term takes

How wide the labels of a term are follows from the width of the input (`Term.breadth`), and so does whether the labels of all its parts
can be stored (`Term.Fits`). The term of a formula is as wide as the formula, and takes no more room (`term_fits`).
-/

namespace ModalGraph

open Formula

namespace Term

mutual

/-- The width of the labels of a term on an input of width `w`. -/
def breadth (ops : Registries) (settings : Settings) (w : Nat) : Term → Nat
  | .input => w
  | .psi name arg t =>
    match ops.psi.get name arg with
    | .ok op => (op.width (t.breadth ops settings w)).toNat
    | .error _ => 0
  | .concat ts => totalBreadth ops settings w ts
  | .diamond _ phi _ t => phiWidth settings.edgeWidth (t.breadth ops settings w) phi
  | .var _ base => settings.baseWidth base
  | .fix _ _ base _ => settings.baseWidth base

/-- The width of the labels of several terms side by side. -/
def totalBreadth (ops : Registries) (settings : Settings) (w : Nat) : List Term → Nat
  | [] => 0
  | t :: ts => t.breadth ops settings w + totalBreadth ops settings w ts

end

mutual

/-- The labels of all parts of a term can be stored, on some nodes and edges and an input of width `w`. -/
def Fits (nodes edges : Nat) (ops : Registries) (settings : Settings) (w : Nat) : Term → Prop
  | .input => True
  | .psi name arg t => t.Fits nodes edges ops settings w ∧
    Tensor.Storable (psiRows settings.input.batched name nodes) (breadth ops settings w (.psi name arg t))
  | .concat ts => Tensor.Storable nodes (totalBreadth ops settings w ts) ∧ totalBreadth ops settings w ts < 2 ^ 63 ∧
    AllFit nodes edges ops settings w ts
  | .diamond direction phi sigma t => t.Fits nodes edges ops settings w ∧
    Tensor.Sendable nodes edges (t.breadth ops settings w) (breadth ops settings w (.diamond direction phi sigma t))
  | .var .. => True
  | .fix _ _ base t => Tensor.Storable nodes (settings.baseWidth base) ∧ t.Fits nodes edges ops settings w

/-- The labels of all parts of several terms can be stored. -/
def AllFit (nodes edges : Nat) (ops : Registries) (settings : Settings) (w : Nat) : List Term → Prop
  | [] => True
  | t :: ts => t.Fits nodes edges ops settings w ∧ AllFit nodes edges ops settings w ts

end

section

variable {nodes edges : Nat} {ops : Registries} {settings : Settings} {w : Nat}

theorem allFit_iff {ts : List Term} : AllFit nodes edges ops settings w ts ↔ ∀ t ∈ ts, t.Fits nodes edges ops settings w := by
  induction ts with
  | nil => simp [AllFit]
  | cons t ts ih => rw [AllFit, ih, List.forall_mem_cons]

end

end Term

namespace Formula.Expr

section

variable (nodes edges : Nat) (ops : Registries) (settings : Settings) (w : Nat)

/-- The widths of the variables of binders. -/
def boundWidths (scope : List (Bytes × Bytes)) : List (Bytes × Nat) :=
  scope.map fun p => (p.1, settings.baseWidth p.2)

/-- A variable is as wide as the base of its binder. -/
theorem boundTerm_breadth {scope : List (Bytes × Bytes)} {name : Bytes} {t : Term} (h : boundTerm scope name = some t) :
    t.Fits nodes edges ops settings w ∧ t.breadth ops settings w = ((boundWidths settings scope).lookup name).getD 0 := by
  induction scope with
  | nil => cases h
  | cons p scope ih =>
    obtain ⟨v, base⟩ := p
    rw [boundTerm] at h
    rw [boundWidths, List.map_cons, List.lookup_cons]
    by_cases hname : v = name
    · subst hname
      rw [if_pos (beq_self_eq_true v)] at h
      obtain rfl := Option.some.inj h
      rw [beq_self_eq_true]
      exact ⟨trivial, rfl⟩
    · rw [if_neg (by simpa using hname)] at h
      rw [show (name == v) = false by simpa using Ne.symm hname]
      exact ih h

mutual

/-- The term of a formula takes no more room than the formula, if the operand takes no more than is said of it. The term is as wide as
the formula says. -/
theorem term_fits : ∀ (e : Expr) {scope : List (Bytes × Bytes)} {operand t : Term} {P : Prop},
    (P → operand.Fits nodes edges ops settings w) → e.term scope operand = some t →
      (e.Fits nodes edges ops settings (boundWidths settings scope) (operand.breadth ops settings w) P →
        t.Fits nodes edges ops settings w) ∧
        t.breadth ops settings w = e.width ops settings (boundWidths settings scope) (operand.breadth ops settings w)
  | .atom _ name arg, scope, operand, t, P, ho, ht => by
    obtain rfl := Option.some.inj ht
    exact ⟨fun h => ⟨ho h.1, h.2⟩, rfl⟩
  | .seq _ left right, scope, operand, t, P, ho, ht => by
    rw [Expr.term, Option.bind_eq_bind, Option.bind_eq_some_iff] at ht
    obtain ⟨l, hl, hr⟩ := ht
    obtain ⟨hfit, hwidth⟩ := term_fits left ho hl
    rw [Expr.Fits, Expr.width, ← hwidth]
    exact term_fits right hfit hr
  | .par _ children, scope, operand, t, P, ho, ht => by
    rw [Expr.term, Option.bind_eq_bind, Option.bind_eq_some_iff] at ht
    obtain ⟨ts, hts, ht⟩ := ht
    obtain rfl := Option.some.inj ht
    obtain ⟨hfit, hwidth⟩ := terms_fit children ho hts
    rw [Expr.width, Expr.Fits, Term.Fits, Term.breadth, hwidth]
    exact ⟨fun h => ⟨h.1, h.2.1, hfit h.2.2⟩, rfl⟩
  | .diamond _ direction phi sigma, scope, operand, t, P, ho, ht => by
    obtain rfl := Option.some.inj ht
    exact ⟨fun h => ⟨ho h.1, h.2⟩, rfl⟩
  | .var _ name, scope, operand, t, _, _, ht => by
    obtain ⟨hfit, hwidth⟩ := boundTerm_breadth nodes edges ops settings w ht
    exact ⟨fun _ => hfit, hwidth⟩
  | .fix _ least v base body, scope, operand, t, P, ho, ht => by
    rw [Expr.term, Option.bind_eq_bind, Option.bind_eq_some_iff] at ht
    obtain ⟨u, hu, ht⟩ := ht
    obtain rfl := Option.some.inj ht
    have hbody := (term_fits body ho hu).1
    exact ⟨fun h => ⟨h.1, hbody h.2⟩, rfl⟩

/-- The terms of several formulas take no more room than the formulas, and are as wide as the formulas say. -/
theorem terms_fit : ∀ (es : List Expr) {scope : List (Bytes × Bytes)} {operand : Term} {ts : List Term} {P : Prop},
    (P → operand.Fits nodes edges ops settings w) → terms scope operand es = some ts →
      (AllFit nodes edges ops settings (boundWidths settings scope) (operand.breadth ops settings w) P es →
        Term.AllFit nodes edges ops settings w ts) ∧
        Term.totalBreadth ops settings w ts = totalWidth ops settings (boundWidths settings scope) (operand.breadth ops settings w) es
  | [], _, _, _, _, _, hts => by
    obtain rfl := Option.some.inj hts
    exact ⟨fun _ => trivial, rfl⟩
  | e :: es, scope, operand, ts, P, ho, hts => by
    rw [terms, Option.bind_eq_bind, Option.bind_eq_some_iff] at hts
    obtain ⟨t, ht, hts⟩ := hts
    rw [Option.bind_eq_bind, Option.bind_eq_some_iff] at hts
    obtain ⟨us, hus, hts⟩ := hts
    obtain rfl := Option.some.inj hts
    obtain ⟨hfit, hwidth⟩ := term_fits e ho ht
    obtain ⟨hfits, hwidths⟩ := terms_fit es ho hus
    rw [Term.totalBreadth, totalWidth, hwidth, hwidths]
    exact ⟨fun h => ⟨hfit h.1, hfits h.2⟩, rfl⟩

end

end

end Formula.Expr

end ModalGraph
