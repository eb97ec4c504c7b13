import Mathlib.Logic.Relation
import ModalGraph.Formula.Expr
import ModalGraph.Proofs.Operator.Registry
import ModalGraph.Settings.Basic

/-!
# Domains of labels

The domain of the labels that a formula gives is known from that of the labels it is applied to and that of the edge labels
(`Expr.domain`), as long as its fixpoints are over truth values. A fixpoint over another domain may end at the labels it starts from
or at labels that its body gives, so that its domain would depend on how soon it settles. `Expr.BoolFixpoints` rules this out: bases
of truth values, and bodies that give truth values. In general a formula has several domains that its labels may be of
(`Expr.Yields`): those of a fixpoint are that of its base and what its body makes of them.
-/

namespace ModalGraph

/-- The domain of what a builtin psi gives on labels of some domain. -/
def psiDomain (name : Bytes) (arg : Argument) (d : DType) : DType :=
  if ["id", "one", "min", "sub", "gsum", "gmax"].any fun known => Bytes.ofString known == name then d
  else if name == Bytes.ofString "const" then constantDomain arg
  else .bool

/-- Operators whose results are truth values. -/
theorem psiDomain_bool {name : String} (h : name ∈ ["bit", "a", "b", "c", "true", "false", "and", "or", "not"]) (arg : Argument)
    (d : DType) : psiDomain (Bytes.ofString name) arg d = .bool := by
  simp only [List.mem_cons, List.not_mem_nil, or_false] at h
  rcases h with rfl | rfl | rfl | rfl | rfl | rfl | rfl | rfl | rfl <;> rfl

/-- Operators whose results have the domain of their operands. -/
theorem psiDomain_same {name : String} (h : name ∈ ["id", "one", "min", "sub", "gsum", "gmax"]) (arg : Argument) (d : DType) :
    psiDomain (Bytes.ofString name) arg d = d := by
  rw [psiDomain, if_pos]
  exact List.any_eq_true.mpr ⟨name, h, beq_self_eq_true _⟩

/-- The domain of the messages that a builtin phi makes, from the domains of the edge labels and of the labels of nodes. -/
def phiDomain (edge d : DType) : Option Bytes → DType
  | none => d
  | some key =>
    if (parseKey key).1 == Bytes.ofString "z" then .bool
    else if (parseKey key).1 == Bytes.ofString "edge" then edge
    else d

/-- The domain that a builtin sigma gathers messages of some domain into. -/
def sigmaDomain (key : Bytes) (d : DType) : DType :=
  if ["or", "uor", "and"].any fun known => Bytes.ofString known == (parseKey key).1 then .bool else d

namespace Formula.Expr

mutual

/-- The domain of the labels that a formula gives on labels of domain `d`, with fixpoints over truth values. -/
def domain (edge d : DType) : Expr → DType
  | .atom _ name arg => psiDomain name arg d
  | .seq _ left right => right.domain edge (left.domain edge d)
  | .par _ children => (domains edge d children).headD .float64 |>.join (domains edge d children).tail
  | .diamond _ _ phi sigma => sigmaDomain sigma (phiDomain edge d phi)
  | .fix .. => .bool
  | .var .. => .bool
  | .hole => .bool

/-- The domains of the labels that several formulas give. -/
def domains (edge d : DType) : List Expr → List DType
  | [] => []
  | e :: es => e.domain edge d :: domains edge d es

end

mutual

/-- Fixpoints over truth values: their bases are of that domain, and what their bodies give is. -/
def BoolFixpoints (settings : Settings) (edge d : DType) : Expr → Prop
  | .atom .. => True
  | .seq _ left right => left.BoolFixpoints settings edge d ∧ right.BoolFixpoints settings edge (left.domain edge d)
  | .par _ children => AllBoolFixpoints settings edge d children
  | .diamond .. => True
  | .fix _ _ _ base body =>
    (∀ b, settings.base? base = some b → b.dtype = .bool) ∧ body.domain edge d = .bool ∧ body.BoolFixpoints settings edge d
  | .var .. => True
  | .hole => True

/-- Fixpoints over truth values in several formulas. -/
def AllBoolFixpoints (settings : Settings) (edge d : DType) : List Expr → Prop
  | [] => True
  | e :: es => e.BoolFixpoints settings edge d ∧ AllBoolFixpoints settings edge d es

end

mutual

/-- A domain that the labels may be of which a formula gives on labels of domain `d`, with variables of some domains. A fixpoint may end
at the labels it starts from, or after any number of turns of its body. -/
def Yields (settings : Settings) (edge : DType) (ρ : List (Bytes × DType)) (d : DType) : Expr → DType → Prop
  | .atom _ name arg, d' => d' = psiDomain name arg d
  | .seq _ left right, d' => ∃ c, left.Yields settings edge ρ d c ∧ right.Yields settings edge ρ c d'
  | .par _ children, d' => ∃ c cs, AllYield settings edge ρ d children (c :: cs) ∧ d' = c.join cs
  | .diamond _ _ phi sigma, d' => d' = sigmaDomain sigma (phiDomain edge d phi)
  | .fix _ _ v base body, d' => ∃ b, settings.base? base = some b ∧
      Relation.ReflTransGen (fun c c' => body.Yields settings edge ((v, c) :: ρ) d c') b.dtype d'
  | .var _ name, d' => ρ.lookup name = some d'
  | .hole, _ => False

/-- Domains that the labels may be of which several formulas give. -/
def AllYield (settings : Settings) (edge : DType) (ρ : List (Bytes × DType)) (d : DType) : List Expr → List DType → Prop
  | [], ds => ds = []
  | e :: es, ds => ∃ c cs, ds = c :: cs ∧ e.Yields settings edge ρ d c ∧ AllYield settings edge ρ d es cs

end

end Formula.Expr

end ModalGraph
