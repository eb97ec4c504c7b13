import ModalGraph.Proofs.Agree
import ModalGraph.Proofs.Operator.Registry
import ModalGraph.Proofs.Operator.Truth
import ModalGraph.Proofs.Tensor.Renumbered

/-!
# Builtin operators on renumbered graphs

A psi that does not pool the labels of a graph makes of each row a row (`psi_rowByRow`), so it gives renumbered labels on renumbered
labels. A phi makes of what belongs to an edge a message for the edge (`phi_renumbered`). Sums depend on the order in which messages
arrive at a node, but whether some message or every message is true does not: it depends on which messages arrive
(`aggregation_renumbered`).
-/

namespace ModalGraph

open Tensor

/-- Labels that are there on both sides, the same up to the numbers of their rows. -/
def Labels.Renumbered {n : Nat} (p : Equiv.Perm (Fin n)) (w : Nat) (a b : Labels) : Prop :=
  ∃ x y, a = some x ∧ b = some y ∧ x.Renumbered p w y

/-- An operator that makes of each row a row, in a way that depends on nothing but the width and the domain of the labels, where the rows
can be stored, or fails on all labels of this width and domain. -/
def Psi.RowByRow (op : Psi) : Prop :=
  ∀ (w : Nat) (d : DType),
    (∃ f, ∀ {n : Nat} {x : Tensor}, x.Shaped n w → x.dtype = d → op.single (some x) = .error f) ∨
    ∃ (d' : DType) (g : List Label → List Label), (∀ r, r.length = w → (g r).length = (op.width w).toNat) ∧
      ∀ {n : Nat} {x : Tensor}, x.Shaped n w → Storable n w → x.dtype = d → op.single (some x) =
        if Storable n (op.width w).toNat then .ok (some (ofRows (op.width w).toNat d' ((List.range n).map fun i => g (x.row i))))
        else .error .aborted

section

variable {n k w : Nat} {p : Equiv.Perm (Fin n)} {q : Equiv.Perm (Fin k)} {x y : Tensor}

theorem Psi.RowByRow.single_renumbered {op : Psi} (h : op.RowByRow) (hx : x.Renumbered p w y) :
    Agree (Labels.Renumbered p (op.width w).toNat) (op.single (some x)) (op.single (some y)) := by
  rcases h w x.dtype with ⟨f, hf⟩ | ⟨d, g, hwidth, hg⟩
  · rw [hf hx.shaped rfl, hf hx.image hx.dtype_eq]
    exact rfl
  · rw [hg hx.shaped hx.stored rfl, hg hx.image hx.stored hx.dtype_eq]
    by_cases hstore : Storable n (op.width w).toNat
    · rw [if_pos hstore, if_pos hstore]
      exact ⟨_, _, rfl, rfl, hx.mapRows d hstore hwidth⟩
    · rw [if_neg hstore, if_neg hstore]
      exact rfl

/-! ## Psi -/

namespace RenumberedAux

/-- An operator on every label. -/
theorem map_rowByRow (d : DType → DType) (f : Label → Label) : (Psi.total Width.same fun x => x.map (d x.dtype) f).RowByRow := by
  refine fun w e => .inr ⟨d e, fun r => r.map fun v => (d e).cast (f v), fun r hr => by rw [List.length_map, hr]; rfl,
    fun {n x} hx hstore hd => ?_⟩
  have hmap := map_shaped hx (d x.dtype) f
  have hrows : x.map (d x.dtype) f = ofRows w (d x.dtype) ((List.range n).map fun i => (x.row i).map fun v => (d x.dtype).cast (f v)) := by
    rw [← ofRows_rowList hmap, rowList_eq hmap]
    exact congrArg _ (List.map_congr_left fun i _ => row_map hx (d x.dtype) f i)
  rw [if_pos (by exact hstore), ← hd]
  exact congrArg (fun y => Except.ok (some y)) hrows

/-- An operator that makes of the rows one by one what there is room for. -/
theorem stored_rowByRow {v : Nat} {f : Tensor → Option Tensor} (d : DType) (g : List Label → List Label) (hwidth : ∀ r, (g r).length = v)
    (hf : ∀ {n w : Nat} {x : Tensor}, x.Shaped n w →
      f x = if Storable n v then some (ofRows v d ((List.range n).map fun i => g (x.row i))) else none) :
    (Psi.stored (Width.fixed v) f).RowByRow := by
  refine fun w e => .inr ⟨d, g, fun r _ => hwidth r, fun {n x} hx _ _ => ?_⟩
  show (some <$> orAborted (f x)) = if Storable n v then _ else _
  rw [hf hx]
  split
  · rfl
  · rfl

/-- An operator that folds every row into one label. -/
theorem reduce_rowByRow (d : DType) (f : List Label → Label) : (Psi.stored (Width.fixed 1) fun x => x.reduceRows? d f).RowByRow := by
  refine stored_rowByRow (v := 1) d (fun r => [d.cast (f r)]) (fun _ => rfl) fun {n w x} hx => ?_
  split
  · rename_i hstore
    rw [reduceRows?_eq hx (Nat.mul_one n ▸ hstore), reduceRows_eq hx]
  · rename_i hstore
    rw [Storable, Nat.mul_one] at hstore
    rw [reduceRows?, hx.rows_eq, if_neg fun h => hstore (Int.ofNat_le.mp h.2.1)]

theorem constant_rowByRow (d : DType) (v : Label) : (Builtin.constant d v).RowByRow := by
  refine stored_rowByRow (v := 1) d (fun _ => [d.cast v]) (fun _ => rfl) fun {n w x} hx => ?_
  rw [hx.rows_eq]
  split
  · rename_i hstore
    rw [full?_eq hstore, full_eq]
    rfl
  · rename_i hstore
    exact full?_eq_none (Nat.not_le.mp hstore)

theorem identity_rowByRow : Builtin.identity.RowByRow := by
  refine fun w d => .inr ⟨d, id, fun r hr => hr, fun {n x} hx hstore hd => ?_⟩
  rw [if_pos (by exact hstore)]
  show Except.ok (some x) = .ok (some (ofRows w d _))
  rw [← hd]
  conv_lhs => rw [← ofRows_rowList hx, rowList_eq hx]
  rfl

/-- The differences of features, of which there must be two at least. -/
theorem difference_rowByRow : Builtin.difference.RowByRow := by
  intro w d
  by_cases hw : (w : Int) < 2
  · refine .inl ⟨.shapeIn "min" (.tooFewFeatures w), fun {n x} hx _ => ?_⟩
    show Builtin.differences x = _
    rw [Builtin.differences, hx.cols_eq, if_pos hw]
  · have hwidth : (Builtin.difference.width w).toNat = w - 1 := by
      show (Builtin.differencesWidth w).toNat = w - 1
      rw [Builtin.differencesWidth, if_neg hw]
      omega
    rw [hwidth]
    refine .inr ⟨d, Builtin.rowDifferences d, fun r hr => ?_, fun {n x} hx hstore hd => ?_⟩
    · cases r with
      | nil => exact absurd hr (by rw [List.length_nil]; omega)
      | cons v rest =>
        rw [Builtin.rowDifferences, List.length_map]
        rw [List.length_cons] at hr
        omega
    · show Builtin.differences x = _
      have hnarrow : Storable n (w - 1) := hstore.narrow (Nat.sub_le w 1)
      rw [Builtin.differences, hx.cols_eq, if_neg hw, show (w : Int) - 1 = ((w - 1 : Nat) : Int) by omega, rowsInto_eq hx hnarrow, ok_bind,
        rowList_eq hx, List.map_map, hd, if_pos hnarrow]
      rfl

end RenumberedAux

open RenumberedAux

/-- Every builtin psi that does not pool makes of each row a row. -/
theorem psi_rowByRow {name : Bytes} {arg : Argument} {op : Psi} (hop : Builtin.psi.get name arg = .ok op)
    (hsum : name ≠ Bytes.ofString "gsum") (hmax : name ≠ Bytes.ofString "gmax") : op.RowByRow := by
  have hevery : Builtin.psi.Every fun name _ op => name ≠ Bytes.ofString "gsum" → name ≠ Bytes.ofString "gmax" → op.RowByRow := by
    refine Builtin.psi_every ?_ ?_ ?_ ?_ ?_ ?_ ?_ ?_ ?_ ?_ ?_
    · exact fun _ _ _ _ _ _ => map_rowByRow (fun _ => .bool) _
    · exact fun _ _ _ _ => constant_rowByRow _ _
    · exact fun _ _ _ _ _ _ => constant_rowByRow _ _
    · exact fun _ _ _ => reduce_rowByRow .bool _
    · exact fun _ _ _ => reduce_rowByRow .bool _
    · exact fun _ _ _ => map_rowByRow (fun _ => .bool) _
    · exact fun _ _ _ => identity_rowByRow
    · exact fun _ _ _ => map_rowByRow id _
    · exact fun _ _ _ _ _ => difference_rowByRow
    · exact fun _ hsum _ => absurd rfl hsum
    · exact fun _ _ hmax => absurd rfl hmax
  exact hevery.get hop hsum hmax

/-! ## Phi -/

/-- A test for zero edge labels looks at each edge by itself. -/
theorem zeroEdge_renumbered {we : Nat} {e e' t t' : Tensor} (he : e.Renumbered q we e') (ht : t.Renumbered q w t') :
    Agree (Labels.Renumbered q w) (Builtin.zeroEdge (some e) (some t)) (Builtin.zeroEdge (some e') (some t')) := by
  by_cases hw : we = 1 ∨ we = w
  · rw [zeroEdge_eq he.shaped ht.shaped hw ht.stored, zeroEdge_eq he.image ht.image hw ht.stored]
    refine ⟨_, _, rfl, rfl, renumbered_ofRows .bool ht.stored (fun j hj => ?_) fun j => ?_⟩
    · rw [List.length_map, List.length_zipIdx, length_row ht.shaped hj]
    · rw [ht.row_eq]
      refine List.map_congr_left fun u _ => ?_
      rw [zeroEdgeLabel, zeroEdgeLabel, label, label, edgeColumn, edgeColumn, he.row_eq, he.image.cols_eq, he.shaped.cols_eq]
  · obtain ⟨f, hf, hkind⟩ := zeroEdge_fails he.shaped ht.shaped hw
    obtain ⟨f', hf', hkind'⟩ := zeroEdge_fails he.image ht.image hw
    rw [hf, hf']
    exact hkind.trans hkind'.symm

/-- Every builtin phi makes of what belongs to an edge a message for the edge. -/
theorem phi_renumbered {key : Bytes} {op : Phi} (hop : Builtin.phi.resolve key = .ok op) {we : Nat} {s s' t t' : Tensor}
    {e e' : Labels} (hs : s.Renumbered q w s') (he : Option.Rel (Tensor.Renumbered q we) e e') (ht : t.Renumbered q w t') :
    Agree (Labels.Renumbered q (phiWidth we w (some key))) (op.messages (some s) e (some t)) (op.messages (some s') e' (some t')) := by
  have hevery : Builtin.phi.Every fun name _ op => Agree (Labels.Renumbered q (if name == Bytes.ofString "edge" then we else w))
      (op.messages (some s) e (some t)) (op.messages (some s') e' (some t')) := by
    refine Builtin.phi_every (fun _ => ?_) (fun _ => ?_) (fun _ => ?_) fun _ => ?_
    · cases he with
      | none => exact rfl
      | some he => exact zeroEdge_renumbered he ht
    · exact ⟨_, _, rfl, rfl, hs⟩
    · exact ⟨_, _, rfl, rfl, ht⟩
    · cases he with
      | none => exact rfl
      | some he => exact ⟨_, _, rfl, rfl, he⟩
  exact hevery.resolve hop

/-! ## Sigma -/

open TruthAux

/-- Whether some label or every label is true depends on which labels there are. -/
theorem RenumberedAux.cast_aggregated (b : Bool) {labels labels' : List Label} (h : ∀ a, a ∈ labels' ↔ a ∈ labels) :
    DType.cast .bool (aggregated b labels') = DType.cast .bool (aggregated b labels) := by
  have hzero : (aggregated b labels').isZero = (aggregated b labels).isZero := by
    rw [← Bool.not_inj_iff, Bool.eq_iff_iff, Bool.not_eq_true', Bool.not_eq_true', aggregated_isZero, aggregated_isZero]
    cases b with
    | true => exact exists_congr fun a => and_congr_left' (h a)
    | false => exact forall_congr' fun a => imp_congr_left (h a)
  rw [DType.cast, DType.cast, hzero]

/-- Messages sent along renumbered edges, aggregated at renumbered nodes. -/
theorem aggregation_renumbered {m m' : Tensor} (hm : m.Renumbered q w m') {target target' : List Int}
    (htarget : EndsRenumbered p q target target') (hall : ∀ c ∈ target, 0 ≤ c ∧ c < (n : Int)) (b : Bool) (current current' : Labels) :
    Agree (Labels.Renumbered p w) ((aggregation b).aggregate (some m) target n current)
      ((aggregation b).aggregate (some m') target' n current') := by
  have hall' := htarget.among_iff.mpr hall
  by_cases hroom : n * w ≤ capacity ∧ (n : Int) ≤ seats
  swap
  · rw [aggregation_aborts hm.shaped htarget.length_eq hall hroom, aggregation_aborts hm.image htarget.length_image hall' hroom]
    exact rfl
  obtain ⟨hfit, hn⟩ := hroom
  obtain ⟨row, hrow, hlabel⟩ := aggregation_eq hm.shaped htarget.length_eq hall hfit hn b current
  obtain ⟨row', hrow', hlabel'⟩ :=
    aggregation_eq hm.image htarget.length_image hall' hfit hn b current'
  rw [hrow, hrow']
  refine ⟨_, _, rfl, rfl, renumbered_ofRows .bool hfit (fun i _ => (hlabel i).1) fun i => List.ext_getElem? fun j => ?_⟩
  by_cases hj : j < w
  · rw [(hlabel i).2 j hj, (hlabel' (p i)).2 j hj]
    -- The messages to a node come in another order, but no message is lost or added.
    refine congrArg some (cast_aggregated b fun a => ?_)
    rw [List.mem_map, List.mem_map]
    exact exists_congr fun r => and_congr_left' (hm.mem_sentTo htarget hall i)
  · rw [List.getElem?_eq_none (by rw [(hlabel' (p i)).1]; omega), List.getElem?_eq_none (by rw [(hlabel i).1]; omega)]

end

end ModalGraph
