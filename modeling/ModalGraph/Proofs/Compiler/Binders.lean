import ModalGraph.Proofs.Compiler.Translation
import ModalGraph.Proofs.Compiler.Value
import ModalGraph.Proofs.Formula.Variant

/-!
# Formulas below other binders

A formula does not see the binders around it but for its free variables. Below binders that bind these alike it means the same
(`meaning_below`) and compiles alike, to labels of the same width (`plan_below`). Text can spell it there as well, if the binders hide
no name that it uses (`Expr.WellFormed.below`).
-/

namespace ModalGraph

open Formula Compiler TranslationAux

namespace Formula.Expr

mutual

/-- The names that a formula uses for operators, variables and bases. -/
def identifiers : Expr → List Bytes
  | .atom _ name _ => [name]
  | .seq _ left right => left.identifiers ++ right.identifiers
  | .par _ children => allIdentifiers children
  | .diamond _ _ phi sigma => phi.toList ++ [sigma]
  | .fix _ _ v base body => v :: base :: body.identifiers
  | .var _ name => [name]
  | .hole => []

/-- The names that several formulas use. -/
def allIdentifiers : List Expr → List Bytes
  | [] => []
  | e :: es => e.identifiers ++ allIdentifiers es

end

mutual

/-- The free variables of a formula that text can spell are those of binders around it. -/
theorem WellFormed.mem_of_free : ∀ {e : Expr} {scope : List Bytes} {x : Bytes}, e.WellFormed scope → e.Free x → x ∈ scope
  | .seq .., _, _, h, hx => hx.elim (WellFormed.mem_of_free h.1) (WellFormed.mem_of_free h.2)
  | .par .., _, _, h, hx => AllWellFormed.mem_of_free h.2 hx
  | .fix .., _, _, h, hx => (List.mem_cons.mp (WellFormed.mem_of_free h.2.2 hx.2)).resolve_left (Ne.symm hx.1)
  | .var .., _, _, h, rfl => h

theorem AllWellFormed.mem_of_free : ∀ {es : List Expr} {scope : List Bytes} {x : Bytes}, AllWellFormed scope es → AnyFree x es → x ∈ scope
  | _ :: _, _, _, h, hx => hx.elim (WellFormed.mem_of_free h.1) (AllWellFormed.mem_of_free h.2)

end

mutual

/-- Text can spell a formula below other binders as well, if these bind the variables that were bound and no other name that it uses. -/
theorem WellFormed.below : ∀ {e : Expr} {scope scope' : List Bytes}, e.WellFormed scope → (∀ x ∈ scope, x ∈ scope') →
    (∀ x ∈ e.identifiers, x ∈ scope' → x ∈ scope) → e.WellFormed scope'
  | .atom _ name _, _, _, h, _, hnew => ⟨h.1, fun harg hmem => h.2 harg (hnew name (List.mem_singleton_self name) hmem)⟩
  | .seq .., _, _, h, hsub, hnew =>
    ⟨WellFormed.below h.1 hsub fun x hx => hnew x (List.mem_append_left _ hx),
      WellFormed.below h.2 hsub fun x hx => hnew x (List.mem_append_right _ hx)⟩
  | .par .., _, _, h, hsub, hnew => ⟨h.1, AllWellFormed.below h.2 hsub hnew⟩
  | .diamond .., _, _, h, _, _ => h
  | .fix _ _ v base body, _, _, h, hsub, hnew => by
    refine ⟨h.1, h.2.1, WellFormed.below h.2.2 (fun x hx => ?_) fun x hx hmem => ?_⟩
    · exact List.mem_cons.mpr ((List.mem_cons.mp hx).imp_right (hsub x))
    · exact List.mem_cons.mpr ((List.mem_cons.mp hmem).imp_right (hnew x (List.mem_cons_of_mem v (List.mem_cons_of_mem base hx))))
  | .var _ name, _, _, h, hsub, _ => hsub name h

theorem AllWellFormed.below : ∀ {es : List Expr} {scope scope' : List Bytes}, AllWellFormed scope es → (∀ x ∈ scope, x ∈ scope') →
    (∀ x ∈ allIdentifiers es, x ∈ scope' → x ∈ scope) → AllWellFormed scope' es
  | [], _, _, _, _, _ => trivial
  | _ :: _, _, _, h, hsub, hnew =>
    ⟨WellFormed.below h.1 hsub fun x hx => hnew x (List.mem_append_left _ hx),
      AllWellFormed.below h.2 hsub fun x hx => hnew x (List.mem_append_right _ hx)⟩

end

end Formula.Expr

mutual

/-- The meaning of a formula depends on the labels of its free variables only. -/
theorem meaning_below (s : Scene) : ∀ (e : Expr) {ρ ρ' : Assignment} (operand : Except Failure Tensor),
    (∀ x, e.Free x → ρ.lookup x = ρ'.lookup x) → meaning s ρ operand e = meaning s ρ' operand e
  | .atom .., _, _, _, _ => rfl
  | .seq _ left right, _, _, operand, h => by
    rw [meaning, meaning, meaning_below s left operand fun x hx => h x (.inl hx),
      meaning_below s right _ fun x hx => h x (.inr hx)]
  | .par _ children, _, _, operand, h => by
    rw [meaning, meaning, meanings_below s children operand h]
  | .diamond .., _, _, _, _ => rfl
  | .fix _ least v base body, _, _, operand, h => by
    rw [meaning, meaning]
    congr 1
    funext labels
    refine meaning_below s body operand fun x hx => ?_
    rw [List.lookup_cons, List.lookup_cons]
    by_cases hv : v = x
    · simp [hv]
    · rw [h x ⟨hv, hx⟩]
  | .var _ name, _, _, _, h => by
    rw [meaning, meaning, h name rfl]
  | .hole, _, _, _, _ => rfl

/-- The meanings of several formulas depend on the labels of their free variables only. -/
theorem meanings_below (s : Scene) : ∀ (es : List Expr) {ρ ρ' : Assignment} (operand : Except Failure Tensor),
    (∀ x, Expr.AnyFree x es → ρ.lookup x = ρ'.lookup x) → meanings s ρ operand es = meanings s ρ' operand es
  | [], _, _, _, _ => rfl
  | e :: es, _, _, operand, h => by
    rw [meanings, meanings, meaning_below s e operand fun x hx => h x (.inl hx), meanings_below s es operand fun x hx => h x (.inr hx)]

end

section

variable {ops : Registries} {settings : Settings}

/-- Terms of one width. -/
def Term.AsWide (ops : Registries) (settings : Settings) (t t' : Term) : Prop :=
  t'.width ops settings = t.width ops settings

/-- Binders that bind a name alike, as far as widths go: both to a variable over bases of one width, or neither. -/
def BindAlike (ops : Registries) (settings : Settings) (scope scope' : List (Bytes × Bytes)) (x : Bytes) : Prop :=
  (Expr.boundTerm scope' x).map (Term.width ops settings) = (Expr.boundTerm scope x).map (Term.width ops settings)

theorem BindAlike.cons {scope scope' : List (Bytes × Bytes)} {x v : Bytes} (base : Bytes)
    (h : v ≠ x → BindAlike ops settings scope scope' x) : BindAlike ops settings ((v, base) :: scope) ((v, base) :: scope') x := by
  rw [BindAlike, Expr.boundTerm, Expr.boundTerm]
  by_cases hv : v = x
  · rw [if_pos (beq_iff_eq.mpr hv), if_pos (beq_iff_eq.mpr hv)]
    rfl
  · rw [if_neg (by simpa using hv), if_neg (by simpa using hv)]
    exact h hv

/-- Whether a body is as wide as its base does not depend on the key of the variable. -/
theorem fitsBase_key (v base key key' : Bytes) (b : Base) (width : Int) :
    fitsBase ⟨v, base, key, b⟩ width = fitsBase ⟨v, base, key', b⟩ width := by
  rw [fitsBase, fitsBase]

mutual

/-- Below binders that bind its free variables alike, on operands of one width, a formula compiles to labels of one width. -/
theorem plan_below : ∀ (e : Expr) {scope scope' : List (Bytes × Bytes)} {operand operand' : Term}, operand.AsWide ops settings operand' →
    (∀ x, e.Free x → BindAlike ops settings scope scope' x) →
      Agree (Term.AsWide ops settings) (e.plan ops settings scope operand).result (e.plan ops settings scope' operand').result
  | .atom _ name arg, _, _, _, _, ho, _ => by
    rw [Expr.plan, Expr.plan]
    refine agree_visit (Agree.refl _) fun _ _ _ _ _ => ?_
    rw [Term.AsWide, Term.width, Term.width, ho]
  | .seq _ left right, _, _, _, _, ho, h => by
    rw [Expr.plan, Expr.plan]
    exact agree_bind (plan_below left ho fun x hx => h x (.inl hx)) fun _ _ hl => plan_below right hl fun x hx => h x (.inr hx)
  | .par _ children, _, _, _, _, ho, h => by
    rw [Expr.plan, Expr.plan]
    cases children.isEmpty with
    | true => exact rfl
    | false =>
      refine agree_bind (plans_below children ho h) fun ts ts' hts => agree_visit (Agree.refl _) fun _ _ _ _ _ => ?_
      rw [Term.AsWide, Term.width, Term.width, Term.widths_eq_map, Term.widths_eq_map]
      refine congrArg Width.total ?_
      induction hts with
      | nil => rfl
      | cons ht _ ih => rw [List.map_cons, List.map_cons, ht, ih]
  | .diamond _ direction phi sigma, _, _, _, _, ho, _ => by
    rw [Expr.plan, Expr.plan]
    cases settings.input.adjacency with
    | false => exact rfl
    | true =>
      refine agree_visit (Agree.refl _) fun _ _ _ _ _ => ?_
      rw [Term.AsWide, Term.width, Term.width, ho]
  | .var _ name, scope, scope', _, _, _, h => by
    have hname := h name rfl
    rw [Expr.plan, Expr.plan]
    rw [BindAlike] at hname
    cases hbound : Expr.boundTerm scope name with
    | none =>
      rw [hbound, Option.map_none, Option.map_eq_none_iff] at hname
      rw [hname]
      exact rfl
    | some t =>
      rw [hbound, Option.map_some, Option.map_eq_some_iff] at hname
      obtain ⟨t', ht', hwidth⟩ := hname
      rw [ht']
      exact hwidth
  | .fix _ least v base body, scope, scope', _, _, ho, h => by
    rw [Expr.plan, Expr.plan]
    refine agree_bind (Agree.refl _) fun p p' hp => ?_
    obtain rfl := hp
    refine agree_bind (plan_below body ho fun x hx => .cons base fun hv => h x ⟨hv, hx⟩) fun t t' ht => ?_
    refine agree_bind (R := fun _ _ => True) ?_ fun _ _ _ => rfl
    rw [ht, fitsBase_key v base (variableKey scope'.length base) (variableKey scope.length base)]
    exact (Agree.refl _).imp fun _ _ _ => trivial
  | .hole, _, _, _, _, _, _ => rfl

/-- Below binders that bind their free variables alike, several formulas compile to labels of the same widths. -/
theorem plans_below : ∀ (es : List Expr) {scope scope' : List (Bytes × Bytes)} {operand operand' : Term},
    operand.AsWide ops settings operand' → (∀ x, Expr.AnyFree x es → BindAlike ops settings scope scope' x) →
      Agree (List.Forall₂ (Term.AsWide ops settings)) (Expr.plans ops settings scope operand es).result
        (Expr.plans ops settings scope' operand' es).result
  | [], _, _, _, _, _, _ => .nil
  | e :: es, _, _, _, _, ho, h => by
    rw [Expr.plans, Expr.plans]
    refine agree_bind (plan_below e ho fun x hx => h x (.inl hx)) fun t t' ht => ?_
    exact agree_bind (plans_below es ho fun x hx => h x (.inr hx)) fun ts ts' hts => .cons ht hts

end

end

end ModalGraph
