import ModalGraph.Proofs.Formula.Name

/-!
# Formulas carried over to others

A translation replaces the names of psi and of sigmas, the directions of diamonds and the kinds of binders, and leaves the rest of a
formula as it is: arguments, phis, variables, bases and the way the formula is put together. A vocabulary says which operators and
bases a formula uses. A translation that takes names to names that text can spell takes formulas to such formulas
(`Expr.Named.translate`).
-/

namespace ModalGraph

open Formula

/-- What becomes of the names and signs in a formula. -/
structure Translation where
  psi : Bytes → Bytes := id
  direction : Direction → Direction := id
  sigma : Bytes → Bytes := id
  least : Bool → Bool := id

/-- The operators and the bases that may be used: psi with their arguments, phis and sigmas of diamonds, and bases of fixpoints. -/
structure Vocabulary where
  Psi : Bytes → Option Bytes → Prop
  Phi : Option Bytes → Prop
  Sigma : Bytes → Prop
  Base : Bytes → Prop

namespace Formula.Expr

mutual

/-- A formula carried over. -/
def translate (τ : Translation) : Expr → Expr
  | .atom p name arg => .atom p (τ.psi name) arg
  | .seq p left right => .seq p (left.translate τ) (right.translate τ)
  | .par p children => .par p (translateAll τ children)
  | .diamond p direction phi sigma => .diamond p (τ.direction direction) phi (τ.sigma sigma)
  | .fix p least v base body => .fix p (τ.least least) v base (body.translate τ)
  | .var p name => .var p name
  | .hole => .hole

/-- Several formulas carried over. -/
def translateAll (τ : Translation) : List Expr → List Expr
  | [] => []
  | e :: es => e.translate τ :: translateAll τ es

end

mutual

/-- A formula uses nothing else than what a vocabulary has. -/
def Over (V : Vocabulary) : Expr → Prop
  | .atom _ name arg => V.Psi name arg
  | .seq _ left right => left.Over V ∧ right.Over V
  | .par _ children => AllOver V children
  | .diamond _ _ phi sigma => V.Phi phi ∧ V.Sigma sigma
  | .fix _ _ _ base body => V.Base base ∧ body.Over V
  | .var .. => True
  | .hole => True

/-- Several formulas use nothing else than what a vocabulary has. -/
def AllOver (V : Vocabulary) : List Expr → Prop
  | [] => True
  | e :: es => e.Over V ∧ AllOver V es

end

mutual

/-- What keeps every name and sign keeps the formula. -/
theorem translate_keeps : ∀ e : Expr, e.translate {} = e
  | .atom .. => rfl
  | .seq _ left right => by rw [translate, translate_keeps left, translate_keeps right]
  | .par _ children => by rw [translate, translateAll_keeps children]
  | .diamond .. => rfl
  | .fix _ _ _ _ body => by
    rw [translate, translate_keeps body]
    rfl
  | .var .. => rfl
  | .hole => rfl

theorem translateAll_keeps : ∀ es : List Expr, translateAll {} es = es
  | [] => rfl
  | e :: es => by rw [translateAll, translate_keeps e, translateAll_keeps es]

end

theorem isEmpty_translateAll (τ : Translation) (es : List Expr) : (translateAll τ es).isEmpty = es.isEmpty := by
  cases es <;> rfl

theorem length_translateAll (τ : Translation) (es : List Expr) : (translateAll τ es).length = es.length := by
  induction es with
  | nil => rfl
  | cons e es ih => rw [translateAll, List.length_cons, List.length_cons, ih]

end Formula.Expr

/-- A translation takes the names in a vocabulary that text can spell to names that text can spell. -/
structure Translation.Spells (τ : Translation) (V : Vocabulary) : Prop where
  psiName : ∀ {name arg}, V.Psi name arg → CleanName name arg → CleanName (τ.psi name) arg
  sigmaName : ∀ {key}, V.Sigma key → IsName key → IsName (τ.sigma key)

namespace Formula.Expr

mutual

/-- The names in a formula that is carried over can be spelled, if those in the formula can. -/
theorem Named.translate {τ : Translation} {V : Vocabulary} (hτ : τ.Spells V) : ∀ {e : Expr}, e.Over V → e.Named →
    (e.translate τ).Named
  | .atom .., hV, h => hτ.psiName hV h
  | .seq .., hV, h => ⟨Named.translate hτ hV.1 h.1, Named.translate hτ hV.2 h.2⟩
  | .par .., hV, h => ⟨(length_translateAll τ _).symm ▸ h.1, AllNamed.translate hτ hV h.2⟩
  | .diamond .., hV, h => ⟨h.1, hτ.sigmaName hV.2 h.2⟩
  | .fix .., hV, h => ⟨h.1, h.2.1, Named.translate hτ hV.2 h.2.2⟩
  | .var .., _, _ => trivial
  | .hole, _, h => h.elim

theorem AllNamed.translate {τ : Translation} {V : Vocabulary} (hτ : τ.Spells V) : ∀ {es : List Expr}, AllOver V es → AllNamed es →
    AllNamed (translateAll τ es)
  | [], _, _ => trivial
  | _ :: _, hV, h => ⟨Named.translate hτ hV.1 h.1, AllNamed.translate hτ hV.2 h.2⟩

end

end Formula.Expr

end ModalGraph
