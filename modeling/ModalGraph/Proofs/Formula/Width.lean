import Mathlib.Algebra.Group.Nat.Defs
import ModalGraph.Compiler.Basic

/-!
# Widths of labels, and the room they take

How wide the labels are that a formula gives is known from the width of the labels it is applied to (`Expr.width`). So it can be said
in advance whether all labels that come up on some nodes and edges can be stored (`Expr.Fits`): an evaluation that would need more room
than there is does not get to an end. Nodes and edges are counted apart, since only diamonds make a row for each edge.
-/

namespace ModalGraph

namespace Tensor

/-- Labels of some rows and of some width can be stored together. -/
def Storable (rows w : Nat) : Prop :=
  rows * w ≤ capacity

instance (rows w : Nat) : Decidable (Storable rows w) :=
  inferInstanceAs (Decidable (_ ≤ _))

/-- Fewer rows can be stored as well. -/
theorem Storable.mono {rows w n : Nat} (h : Storable rows w) (hn : n ≤ rows) : Storable n w :=
  Nat.le_trans (Nat.mul_le_mul_right w hn) h

/-- Narrower rows can be stored as well. -/
theorem Storable.narrow {rows w w' : Nat} (h : Storable rows w) (hw : w' ≤ w) : Storable rows w' :=
  Nat.le_trans (Nat.mul_le_mul_left rows hw) h

/-- Labels that can be stored are of a number of rows that can be counted in words. -/
theorem Storable.rows_lt {rows w : Nat} (h : Storable rows w) (hw : 0 < w) : rows < 2 ^ 63 :=
  Nat.lt_of_le_of_lt (Nat.le_trans (Nat.le_mul_of_pos_right rows hw) h) (by decide)

/-- There is a place for each of them, too. -/
theorem Storable.places {rows w : Nat} (h : Storable rows w) (hw : 0 < w) : (rows : Int) ≤ seats := by
  have hrows : rows ≤ capacity := Nat.le_trans (Nat.le_mul_of_pos_right rows hw) h
  exact Int.le_trans (Int.ofNat_le.mpr hrows) (by decide)

/-- There is room for what a diamond makes of labels of width `w`: the labels at both ends of all edges, and labels of width `w'` in
a place for each node. -/
structure Sendable (nodes edges w w' : Nat) : Prop where
  operand : Storable nodes w
  ends : Storable edges w
  result : Storable nodes w'
  places : (nodes : Int) ≤ seats

/-- There is room on fewer nodes and edges as well. -/
theorem Sendable.mono {nodes edges w w' n k : Nat} (h : Sendable nodes edges w w') (hn : n ≤ nodes) (hk : k ≤ edges) :
    Sendable n k w w' :=
  ⟨h.operand.mono hn, h.ends.mono hk, h.result.mono hn, Int.le_trans (Int.ofNat_le.mpr hn) h.places⟩

end Tensor

/-- The psi that pool. -/
def pools (name : Bytes) : Bool :=
  ["gsum", "gmax"].any fun known => Bytes.ofString known == name

/-- As many rows as a builtin psi stores on `n` nodes. Pooling a single graph makes a row even of no nodes. -/
def psiRows (batched : Bool) (name : Bytes) (n : Nat) : Nat :=
  if pools name && !batched then max 1 n else n

/-- Where there is a node, that is a row for each node. -/
theorem psiRows_eq (batched : Bool) (name : Bytes) {n : Nat} (hn : 0 < n) : psiRows batched name n = n := by
  rw [psiRows]
  split
  · exact Nat.max_eq_right hn
  · rfl

theorem le_psiRows (batched : Bool) (name : Bytes) (n : Nat) : n ≤ psiRows batched name n := by
  rw [psiRows]
  split
  · exact Nat.le_max_right 1 n
  · exact Nat.le_refl n

/-- The width of a base. -/
def Settings.baseWidth (settings : Settings) (name : Bytes) : Nat :=
  ((settings.base? name).map fun b => b.width.toNat).getD 0

/-- The width of the labels of the edges, where there are any. -/
def Settings.edgeWidth (settings : Settings) : Nat :=
  (settings.input.edge.map fun spec => spec.width.toNat).getD 0

/-- The width of the messages that a builtin phi makes, from the widths of the edge labels and of the labels of nodes. -/
def phiWidth (edge w : Nat) : Option Bytes → Nat
  | none => w
  | some key => if (parseKey key).1 == Bytes.ofString "edge" then edge else w

namespace Formula.Expr

mutual

/-- The width of the labels that a formula gives on labels of width `w`, with variables of some widths. -/
def width (ops : Registries) (settings : Settings) (ρ : List (Bytes × Nat)) (w : Nat) : Expr → Nat
  | .atom _ name arg =>
    match ops.psi.get name arg with
    | .ok psi => (psi.width w).toNat
    | .error _ => 0
  | .seq _ left right => right.width ops settings ρ (left.width ops settings ρ w)
  | .par _ children => totalWidth ops settings ρ w children
  | .diamond _ _ phi _ => phiWidth settings.edgeWidth w phi
  | .fix _ _ _ base _ => settings.baseWidth base
  | .var _ name => (ρ.lookup name).getD 0
  | .hole => 0

/-- The width of the labels that several formulas give, side by side. -/
def totalWidth (ops : Registries) (settings : Settings) (ρ : List (Bytes × Nat)) (w : Nat) : List Expr → Nat
  | [] => 0
  | e :: es => e.width ops settings ρ w + totalWidth ops settings ρ w es

end

mutual

/-- The labels that a formula and its parts give can be stored. The labels that the formula is applied to, of width `w`, count where
the formula makes use of them: `operand` says that they can be stored. -/
def Fits (nodes edges : Nat) (ops : Registries) (settings : Settings) (ρ : List (Bytes × Nat)) (w : Nat) (operand : Prop) : Expr → Prop
  | .atom pos name arg => operand ∧
    Tensor.Storable (psiRows settings.input.batched name nodes) (Expr.width ops settings ρ w (.atom pos name arg))
  | .seq _ left right =>
    right.Fits nodes edges ops settings ρ (left.width ops settings ρ w) (left.Fits nodes edges ops settings ρ w operand)
  | .par _ children => Tensor.Storable nodes (totalWidth ops settings ρ w children) ∧ totalWidth ops settings ρ w children < 2 ^ 63 ∧
    AllFit nodes edges ops settings ρ w operand children
  | .diamond pos direction phi sigma => operand ∧
    Tensor.Sendable nodes edges w (Expr.width ops settings ρ w (.diamond pos direction phi sigma))
  | .fix _ _ v base body => Tensor.Storable nodes (settings.baseWidth base) ∧
    body.Fits nodes edges ops settings ((v, settings.baseWidth base) :: ρ) w operand
  | .var .. => True
  | .hole => True

/-- The labels that several formulas and their parts give can be stored. -/
def AllFit (nodes edges : Nat) (ops : Registries) (settings : Settings) (ρ : List (Bytes × Nat)) (w : Nat) (operand : Prop) :
    List Expr → Prop
  | [] => True
  | e :: es => e.Fits nodes edges ops settings ρ w operand ∧ AllFit nodes edges ops settings ρ w operand es

end

/-- What a formula gives can be stored, if the labels of its variables can. -/
theorem Fits.storable {nodes edges : Nat} {ops : Registries} {settings : Settings} {ρ : List (Bytes × Nat)}
    (hρ : ∀ name, Tensor.Storable nodes ((ρ.lookup name).getD 0)) : ∀ (e : Expr) {w : Nat} {P : Prop},
      e.Fits nodes edges ops settings ρ w P → Tensor.Storable nodes (e.width ops settings ρ w)
  | .atom .., _, _, h => h.2.mono (le_psiRows _ _ _)
  | .seq _ _ right, _, _, h => Fits.storable hρ right h
  | .par .., _, _, h => h.1
  | .diamond .., _, _, h => h.2.result
  | .fix .., _, _, h => h.1
  | .var _ name, _, _, _ => hρ name
  | .hole, _, _, _ => Nat.zero_le _

end Formula.Expr

end ModalGraph
