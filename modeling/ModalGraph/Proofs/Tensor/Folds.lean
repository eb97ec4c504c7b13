import Mathlib.Data.List.Perm.Basic
import ModalGraph.Proofs.Tensor.Parts

/-!
# Folds of chosen rows

The rows with some number, from the first to the last, are folded column by column (`foldColumn`). Sending rows to places does so for
each place and the rows whose target it is (`folded`): in one pass over all rows, or place by place, the labels are the same. So the
rows may come in another order, each with its target, if the fold does not mind (`folded_perm`).
-/

namespace ModalGraph

namespace Tensor

/-- The places of a number in a list, from the first to the last. -/
def places (d : Int) (index : List Int) : List Nat :=
  (List.range index.length).filter fun i => index[i]? == some d

/-- Column `j` of some rows folded into one label. -/
def foldColumn (x : Tensor) (f : Label → Label → Label) (init : Label) (j : Nat) (rows : List Nat) : Label :=
  rows.foldl (fun acc i => f acc (x.label i j)) init

theorem mem_places {d : Int} {index : List Int} {i : Nat} : i ∈ places d index ↔ index[i]? = some d := by
  rw [places, List.mem_filter, List.mem_range, beq_iff_eq]
  exact and_iff_right_of_imp fun h => (List.getElem?_eq_some_iff.mp h).1

namespace FoldsAux

section

variable {k w : Nat} {x : Tensor} {index : List Int}

/-- The rows that stand beside a number of an index are those at its places. -/
theorem rows_beside (hx : x.Shaped k w) (hlen : index.length = k) (d : Int) :
    ((index.zip x.rowList).filter fun p => p.1 == d).map Prod.snd = (places d index).map x.row := by
  have hzip : index.zip x.rowList = (List.range index.length).map fun i => (index.getD i 0, x.row i) := by
    rw [rowList_eq hx, hlen]
    refine List.ext_getElem (by simp [hlen]) fun i hi _ => ?_
    simp only [List.length_zip, List.length_map, List.length_range, Nat.lt_min] at hi
    rw [List.getElem_zip, List.getElem_map, List.getElem_map, List.getElem_range, List.getD_eq_getElem?_getD,
      List.getElem?_eq_getElem hi.1, Option.getD_some]
  rw [hzip, List.filter_map, List.map_map, places]
  refine congrArg (List.map x.row) (List.filter_congr fun i hi => ?_)
  have hi : i < index.length := List.mem_range.mp hi
  rw [Function.comp_apply, List.getD_eq_getElem?_getD, List.getElem?_eq_getElem hi]
  rfl

/-- A fold over some rows folds each of their columns. -/
theorem getElem?_foldRows_rows (hx : x.Shaped k w) (f : Label → Label → Label) (init : Label) {rows : List Nat}
    (hrows : ∀ i ∈ rows, i < k) {j : Nat} (hj : j < w) :
    (foldRows f init w (rows.map x.row))[j]? = some (x.foldColumn f init j rows) := by
  have hwidth : ∀ r ∈ rows.map x.row, r.length = w := by
    intro r hr
    obtain ⟨i, hi, rfl⟩ := List.mem_map.mp hr
    exact length_row hx (hrows i hi)
  rw [getElem?_foldRows hwidth hj, List.map_map, List.foldl_map]
  rfl

theorem lt_of_mem_places (hlen : index.length = k) (d : Int) : ∀ i ∈ places d index, i < k := by
  intro i hi
  rw [← hlen]
  exact (List.getElem?_eq_some_iff.mp (mem_places.mp hi)).1

/-- The rows sent to a place. -/
theorem sentTo_eq (hx : x.Shaped k w) (hlen : index.length = k) (hindex : ∀ d ∈ index, 0 ≤ d) (i : Nat) :
    sentTo index x.rowList i = (places i index).map x.row := by
  rw [← rows_beside hx hlen, sentTo]
  refine congrArg (List.map Prod.snd) (List.filter_congr fun p hp => ?_)
  have h0 := hindex p.1 (List.of_mem_zip hp).1
  rw [Bool.eq_iff_iff, beq_iff_eq, beq_iff_eq]
  omega

end

/-! ## One pass over all rows -/

section

variable {k w : Nat} {x : Tensor} {target : List Int} {n : Int} {dtype : DType} {init empty : Label} {f : Label → Label → Label}

/-- What the rows sent to places are folded into. -/
def folded (x : Tensor) (target : List Int) (n w : Nat) (dtype : DType) (init empty : Label) (f : Label → Label → Label) : Tensor :=
  ofRows w dtype ((List.range n).map fun i => (arrivalRow f init empty w (sentTo target x.rowList i)).map dtype.cast)

/-- Rows are sent to places exactly if each has its target, every target is among the places, and there is room for these. -/
theorem scatterReduce_eq_ok (hx : x.Shaped k w) (h0 : 0 ≤ n) {y : Tensor} :
    x.scatterReduce target n dtype init empty f = .ok y ↔
      (target.length = k ∧ (∀ d ∈ target, 0 ≤ d ∧ d < n) ∧ n ≤ seats ∧ n * w ≤ capacity) ∧
        y = folded x target n.toNat w dtype init empty f := by
  obtain ⟨n, rfl⟩ := Int.eq_ofNat_of_zero_le h0
  constructor
  · intro h
    have hok : target.length = k ∧ (∀ d ∈ target, 0 ≤ d ∧ d < (n : Int)) ∧ (n : Int) ≤ seats ∧ (n : Int) * w ≤ capacity := by
      rw [scatterReduce, hx.rows_eq, hx.cols_eq, rowsReach_of_shaped hx, if_pos rfl] at h
      split at h
      · cases h
      rename_i hlen
      split at h
      · cases h
      rename_i hroom
      split at h
      · cases h
      rename_i hfault
      split at h
      · cases h
      rename_i hword
      rw [not_or, not_or] at hroom
      rw [not_or, not_and_or] at hword
      refine ⟨by omega, RowsAux.findSome?_targetFault_eq_none.mp hfault, by omega, ?_⟩
      rcases hword.2 with hzero | hword
      · have hn : (n : Int) = 0 := by omega
        rw [hn, Int.zero_mul]
        exact Int.natCast_nonneg capacity
      · exact le_capacity_of_volume? hroom.2.2 (not_not.mp (not_or.mp hword).2)
    refine ⟨hok, ?_⟩
    obtain ⟨hlen, htarget, hseats, hfit⟩ := hok
    exact Except.ok.inj (h.symm.trans (scatterReduce_eq hx hlen htarget (by exact_mod_cast hfit) hseats dtype init empty f))
  · rintro ⟨⟨hlen, htarget, hseats, hfit⟩, rfl⟩
    exact scatterReduce_eq hx hlen htarget (by exact_mod_cast hfit) hseats dtype init empty f

theorem folded_shaped (hx : x.Shaped k w) (target : List Int) (n : Nat) (dtype : DType) (init empty : Label)
    (f : Label → Label → Label) : (folded x target n w dtype init empty f).Shaped n w :=
  ofRows_range_shaped fun i _ => scatterReduce_width hx target dtype init empty f i

/-- A label of a place: a column of the rows sent there folded into one, or the empty label if there are none. -/
theorem at?_folded (hx : x.Shaped k w) (hlen : target.length = k) (htarget : ∀ d ∈ target, 0 ≤ d) {n : Nat} (hfit : n * w ≤ capacity)
    {d j : Nat} (hd : d < n) (hj : j < w) : (folded x target n w dtype init empty f).at? d j =
      some (dtype.cast (if places d target = [] then empty else x.foldColumn f init j (places d target))) := by
  have hwidth := fun i (_ : i < n) => scatterReduce_width hx target dtype init empty f i
  rw [at?_eq (folded_shaped hx target n dtype init empty f) hfit hd hj, folded, row_ofRows_range hwidth hd, List.getElem?_map,
    sentTo_eq hx hlen htarget, arrivalRow]
  simp only [List.isEmpty_iff, List.map_eq_nil_iff]
  split
  · rw [constantRow, List.getElem?_replicate, if_pos hj]
    rfl
  · rw [getElem?_foldRows_rows hx f init (lt_of_mem_places hlen d) hj]
    rfl

end

/-! ## Rows in another order -/

section

variable {f : Label → Label → Label} [RightCommutative f]

theorem zipWith_swap (acc r s : List Label) : (acc.zipWith f r).zipWith f s = (acc.zipWith f s).zipWith f r := by
  refine List.ext_getElem ?_ fun i _ _ => ?_
  · simp only [List.length_zipWith, Nat.min_assoc, Nat.min_comm r.length]
  · simp only [List.getElem_zipWith]
    exact RightCommutative.right_comm _ _ _

theorem foldRows_perm (init : Label) (w : Nat) {rows rows' : List (List Label)} (h : rows'.Perm rows) :
    foldRows f init w rows' = foldRows f init w rows :=
  h.foldl_eq' (fun r _ s _ acc => zipWith_swap acc r s) _

/-- Rows may be sent in another order, each with its target. -/
theorem folded_perm {x x' : Tensor} {target target' : List Int} (h : (target'.zip x'.rowList).Perm (target.zip x.rowList))
    (n w : Nat) (dtype : DType) (init empty : Label) :
    folded x' target' n w dtype init empty f = folded x target n w dtype init empty f := by
  have hrow : ∀ i, arrivalRow f init empty w (sentTo target' x'.rowList i) = arrivalRow f init empty w (sentTo target x.rowList i) := by
    intro i
    have hsent : (sentTo target' x'.rowList i).Perm (sentTo target x.rowList i) := (h.filter _).map _
    rw [arrivalRow, arrivalRow, foldRows_perm init w hsent, hsent.isEmpty_eq]
  simp only [folded, hrow]

/-- Rows in another order, each with its target, have their targets in another order. -/
theorem perm_of_perm_zip {target target' : List Int} {rows rows' : List (List Label)} (hlen : target.length ≤ rows.length)
    (hlen' : target'.length ≤ rows'.length) (h : (target'.zip rows').Perm (target.zip rows)) : target'.Perm target := by
  have hfst := h.map Prod.fst
  rwa [List.map_fst_zip hlen', List.map_fst_zip hlen] at hfst

end

end FoldsAux

end Tensor

end ModalGraph
