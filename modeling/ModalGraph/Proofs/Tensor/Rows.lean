import Mathlib.Data.List.Basic
import Mathlib.Tactic.Ring
import ModalGraph.Proofs.Step
import ModalGraph.Tensor.Segment

/-!
# Tensors by rows

A tensor is shaped (`Tensor.Shaped n w`) if it has the labels of `n` rows of width `w`. It is then the tensor of its rows, and the
operations on tensors, as long as their results can be stored, are operations on lists of rows: each has an equation here that says
which rows it gives.
-/

namespace ModalGraph

namespace Tensor

/-- A tensor with the labels of `n` rows of width `w`. -/
structure Shaped (n w : Nat) (x : Tensor) : Prop where
  rows_eq : x.rows = n
  cols_eq : x.cols = w
  size_eq : x.data.size = n * w

/-- The label at a row and a column. -/
def label (x : Tensor) (i j : Nat) : Label :=
  (x.row i)[j]?.getD Label.zero

/-! ## Counting in words -/

theorem word_eq {n : Int} (h0 : -2 ^ 63 ≤ n) (h : n < 2 ^ 63) : word n = n := by
  have hpow : ((Nat.pow 2 64 : Nat) : Int) = 2 ^ 64 := rfl
  rw [word, Int.bmod_def, hpow]
  omega

theorem word_of_lt {n : Nat} (h : n < 2 ^ 63) : word n = n :=
  word_eq (by omega) (by exact_mod_cast h)

theorem word_natCast {n : Nat} (h : n ≤ 2 * capacity) : word n = n :=
  word_of_lt (Nat.lt_of_le_of_lt h (by decide))

/-- One more than the labels that can be stored is still counted as it is. -/
theorem word_succ {n w : Nat} (h : n * w ≤ capacity) : (word ((n : Int) * w + 1)).toNat = n * w + 1 := by
  have hle : n * w + 1 ≤ 2 * capacity := (Nat.succ_le_succ h).trans (by decide)
  have hword : word ((n : Int) * w + 1) = ((n * w + 1 : Nat) : Int) := by
    rw [← word_natCast hle]
    push_cast
    rfl
  rw [hword, Int.toNat_natCast]

theorem volume?_natCast {n w : Nat} (h : n * w ≤ capacity) : volume? n w = some (n * w) := by
  have hword : word ((n : Int) * w) = ((n * w : Nat) : Int) := by
    rw [← Int.natCast_mul]
    exact word_natCast (by omega)
  rw [volume?, hword, if_pos ⟨Int.natCast_nonneg _, by exact_mod_cast h⟩, Int.toNat_natCast]

/-- No more labels are counted than can be stored. -/
theorem volume?_le {rows cols : Int} {v : Nat} (h : volume? rows cols = some v) : v ≤ capacity := by
  rw [volume?] at h
  split at h
  · obtain rfl := Option.some.inj h
    omega
  · cases h

/-- Where no product of dimensions is wrapped around, there is room for as many labels as can be stored. -/
theorem le_capacity_of_volume? {rows cols : Int} (h : ¬(volume? rows cols).isNone) (hword : word (rows * cols) = rows * cols) :
    rows * cols ≤ capacity := by
  rw [volume?, hword] at h
  split at h
  · rename_i hfit
    exact hfit.2
  · exact absurd rfl h

/-- Labels that can be stored are so few that their rows need not be counted in words, unless the rows have no labels. -/
theorem volume?_word {n w : Nat} (h : n * w ≤ capacity) : (volume? (word n) w).isSome = true := by
  by_cases hw : w = 0
  · subst hw
    have hzero : volume? (word n) (0 : Nat) = volume? (0 : Nat) (0 : Nat) := by
      rw [volume?, volume?, Int.natCast_zero, Int.mul_zero, Int.mul_zero]
    rw [hzero]
    rfl
  · have hn : n ≤ n * w := Nat.le_mul_of_pos_right n (Nat.pos_of_ne_zero hw)
    rw [word_natCast (by omega), volume?_natCast h]
    rfl

/-! ## Rows laid end to end -/

namespace RowsAux

/-- Rows of one width laid end to end are as many labels as rows times the width. -/
theorem length_flatten_of_width {w : Nat} {rows : List (List Label)} (h : ∀ r ∈ rows, r.length = w) :
    rows.flatten.length = rows.length * w := by
  induction rows with
  | nil => simp
  | cons r rows ih =>
    rw [List.flatten_cons, List.length_append, h r List.mem_cons_self, ih fun r' hr' => h r' (List.mem_cons_of_mem _ hr'),
      List.length_cons]
    ring

/-- A row is found again among rows laid end to end. -/
theorem take_drop_flatten {w : Nat} {rows : List (List Label)} (h : ∀ r ∈ rows, r.length = w) {i : Nat} {r : List Label}
    (hi : rows[i]? = some r) : (rows.flatten.drop (i * w)).take w = r := by
  induction rows generalizing i with
  | nil => cases hi
  | cons r' rows ih =>
    have hlen : r'.length = w := h r' List.mem_cons_self
    cases i with
    | zero =>
      obtain rfl := Option.some.inj hi
      rw [Nat.zero_mul, List.drop_zero, List.flatten_cons, List.take_left' hlen]
    | succ i =>
      rw [List.flatten_cons, Nat.succ_mul, Nat.add_comm, ← List.drop_drop, List.drop_left' hlen]
      exact ih (fun r'' hr'' => h r'' (List.mem_cons_of_mem _ hr'')) hi

/-- Labels cut into rows of one width and laid end to end again. -/
theorem flatten_map_take_drop {w : Nat} (n : Nat) {labels : List Label} (h : labels.length = n * w) :
    ((List.range n).map fun i => (labels.drop (i * w)).take w).flatten = labels := by
  induction n generalizing labels with
  | zero =>
    rw [Nat.zero_mul] at h
    simp [List.length_eq_zero_iff.mp h]
  | succ n ih =>
    have hlen : (labels.drop w).length = n * w := by
      rw [List.length_drop, h, Nat.succ_mul, Nat.add_sub_cancel]
    rw [List.range_succ_eq_map, List.map_cons, List.map_map, List.flatten_cons, Nat.zero_mul, List.drop_zero]
    have hrest : ((List.range n).map ((fun i => (labels.drop (i * w)).take w) ∘ Nat.succ)) =
        (List.range n).map fun i => ((labels.drop w).drop (i * w)).take w := by
      refine List.map_congr_left fun i _ => ?_
      rw [Function.comp_apply, List.drop_drop, Nat.succ_mul, Nat.add_comm]
    rw [hrest, ih hlen, List.take_append_drop]

/-- Steps that all succeed, one for each entry. -/
theorem mapM_eq_ok {ε α β : Type} {l : List α} {f : α → Except ε β} {g : α → β} (h : ∀ a ∈ l, f a = .ok (g a)) :
    l.mapM f = .ok (l.map g) := by
  induction l with
  | nil => rfl
  | cons a l ih =>
    rw [List.mapM_cons, h a List.mem_cons_self, ih fun b hb => h b (List.mem_cons_of_mem _ hb)]
    rfl

end RowsAux

open RowsAux

section

variable {n w : Nat} {x : Tensor}

theorem row_eq (hx : x.Shaped n w) (i : Nat) : x.row i = (x.data.toList.drop (i * w)).take w := by
  have hw : x.cols.toNat = w := by rw [hx.cols_eq, Int.toNat_natCast]
  rw [row, hw, Array.toList_extract, List.extract_eq_take_drop, Nat.succ_mul, Nat.add_sub_cancel_left]

theorem length_row (hx : x.Shaped n w) {i : Nat} (hi : i < n) : (x.row i).length = w := by
  rw [row_eq hx, List.length_take, List.length_drop, Array.length_toList, hx.size_eq]
  have : i * w + w ≤ n * w := by
    rw [← Nat.succ_mul]
    exact Nat.mul_le_mul_right w hi
  omega

theorem rowList_eq (hx : x.Shaped n w) : x.rowList = (List.range n).map x.row := by
  rw [rowList, hx.rows_eq, Int.toNat_natCast]

theorem width_of_mem_rowList (hx : x.Shaped n w) : ∀ r ∈ x.rowList, r.length = w := by
  intro r hr
  rw [rowList_eq hx] at hr
  obtain ⟨i, hi, rfl⟩ := List.mem_map.mp hr
  exact length_row hx (List.mem_range.mp hi)

theorem length_rowList (hx : x.Shaped n w) : x.rowList.length = n := by
  rw [rowList_eq hx, List.length_map, List.length_range]

/-- The labels of a tensor are its rows laid end to end. -/
theorem flatten_rowList (hx : x.Shaped n w) : x.rowList.flatten = x.data.toList := by
  rw [rowList_eq hx, List.map_congr_left fun i _ => row_eq hx i]
  exact flatten_map_take_drop n (by rw [Array.length_toList, hx.size_eq])

/-- A tensor is the tensor of its rows. -/
theorem ofRows_rowList (hx : x.Shaped n w) : ofRows w x.dtype x.rowList = x := by
  rw [ofRows, flatten_rowList hx, length_rowList hx, ← hx.rows_eq, ← hx.cols_eq]

theorem rowsReach_of_shaped (hx : x.Shaped n w) : x.rowsReach = true := by
  rw [rowsReach, hx.rows_eq, hx.cols_eq, hx.size_eq]
  simp

/-- A label of a row by its place among all labels. -/
theorem getElem?_row (hx : x.Shaped n w) {i j : Nat} (hj : j < w) : (x.row i)[j]? = x.data[i * w + j]? := by
  rw [row_eq hx, List.getElem?_take_of_lt hj, List.getElem?_drop, Array.getElem?_toList]

end

section

variable {w : Nat} {dtype : DType} {rows : List (List Label)}

theorem ofRows_shaped (dtype : DType) (h : ∀ r ∈ rows, r.length = w) : (ofRows w dtype rows).Shaped rows.length w :=
  ⟨rfl, rfl, by simp only [ofRows, List.size_toArray]; exact length_flatten_of_width h⟩

theorem row_ofRows (h : ∀ r ∈ rows, r.length = w) {i : Nat} {r : List Label} (hi : rows[i]? = some r) :
    (ofRows w dtype rows).row i = r := by
  rw [row_eq (ofRows_shaped dtype h)]
  exact take_drop_flatten h hi

/-- The rows of a tensor made of rows. -/
theorem rowList_ofRows (h : ∀ r ∈ rows, r.length = w) : (ofRows w dtype rows).rowList = rows := by
  rw [rowList_eq (ofRows_shaped dtype h)]
  refine List.ext_getElem? fun i => ?_
  by_cases hi : i < rows.length
  · have hr : rows[i]? = some rows[i] := List.getElem?_eq_getElem hi
    rw [List.getElem?_map, List.getElem?_range hi, hr, Option.map_some, row_ofRows h hr]
  · rw [List.getElem?_eq_none (by simpa using hi), List.getElem?_eq_none (by simpa using hi)]

/-- A tensor of one row for each of the numbers below `n`. -/
theorem ofRows_range_shaped {n : Nat} {row : Nat → List Label} (h : ∀ i < n, (row i).length = w) :
    (ofRows w dtype ((List.range n).map row)).Shaped n w := by
  have hrows : ∀ r ∈ (List.range n).map row, r.length = w := by
    intro r hr
    obtain ⟨i, hi, rfl⟩ := List.mem_map.mp hr
    exact h i (List.mem_range.mp hi)
  have := ofRows_shaped dtype hrows
  rwa [List.length_map, List.length_range] at this

theorem row_ofRows_range {n : Nat} {row : Nat → List Label} (h : ∀ i < n, (row i).length = w) {i : Nat} (hi : i < n) :
    (ofRows w dtype ((List.range n).map row)).row i = row i := by
  refine row_ofRows ?_ ?_
  · intro r hr
    obtain ⟨k, hk, rfl⟩ := List.mem_map.mp hr
    exact h k (List.mem_range.mp hk)
  · rw [List.getElem?_map, List.getElem?_range hi]
    rfl

end

/-! ## Operations as operations on rows -/

section

variable {n w : Nat} {x : Tensor}

/-- Every label mapped. -/
theorem map_shaped (hx : x.Shaped n w) (dtype : DType) (f : Label → Label) : (x.map dtype f).Shaped n w :=
  ⟨hx.rows_eq, hx.cols_eq, by rw [map, Array.size_map, hx.size_eq]⟩

theorem row_map (hx : x.Shaped n w) (dtype : DType) (f : Label → Label) (i : Nat) :
    (x.map dtype f).row i = (x.row i).map fun v => dtype.cast (f v) := by
  rw [row_eq hx, row_eq (map_shaped hx dtype f), map, Array.toList_map, ← List.map_drop, ← List.map_take]

/-- Every row folded into one label. -/
theorem reduceRows_eq (hx : x.Shaped n w) (dtype : DType) (f : List Label → Label) :
    x.reduceRows dtype f = ofRows (1 : Nat) dtype ((List.range n).map fun i => [dtype.cast (f (x.row i))]) := by
  rw [reduceRows, rowList_eq hx, List.map_map]
  rfl

/-- Every row folded into one label, if there is room for a label of each. -/
theorem reduceRows?_eq (hx : x.Shaped n w) (hn : n ≤ capacity) (dtype : DType) (f : List Label → Label) :
    x.reduceRows? dtype f = some (x.reduceRows dtype f) := by
  rw [reduceRows?, hx.rows_eq, rowsReach_of_shaped hx]
  exact if_pos ⟨Int.natCast_nonneg n, Int.ofNat_le.mpr hn, rfl⟩

theorem reduceRows?_some {y : Tensor} {dtype : DType} {f : List Label → Label} (h : x.reduceRows? dtype f = some y) :
    (0 ≤ x.rows ∧ x.rows ≤ capacity ∧ x.rowsReach = true) ∧ y = x.reduceRows dtype f := by
  rw [reduceRows?] at h
  split at h
  · rename_i hroom
    exact ⟨hroom, (Option.some.inj h).symm⟩
  · cases h

/-- The rows, if there is room for as many of another width. -/
theorem rowsInto_eq (hx : x.Shaped n w) {k : Nat} (hfit : n * k ≤ capacity) : x.rowsInto k = .ok x.rowList := by
  rw [rowsInto, zeros, hx.rows_eq, if_neg (by omega), volume?_natCast hfit, rowsReach_of_shaped hx]
  rfl

theorem rowsInto_ok {k : Int} {rows : List (List Label)} (h : x.rowsInto k = .ok rows) : rows = x.rowList := by
  obtain ⟨_, -, h⟩ := bind_ok h
  split at h
  · exact (Except.ok.inj h).symm
  · cases h

@[simp] theorem full_rows (n : Int) (row : List Label) (dtype : DType) : (full n row dtype).rows = n := by
  rw [full]
  split <;> rfl

@[simp] theorem full_cols (n : Int) (row : List Label) (dtype : DType) : (full n row dtype).cols = row.length := by
  rw [full]
  split <;> rfl

@[simp] theorem full_dtype (n : Int) (row : List Label) (dtype : DType) : (full n row dtype).dtype = dtype := by
  rw [full]
  split <;> rfl

theorem full_natCast (n : Nat) (row : List Label) (dtype : DType) :
    full n row dtype = ofRows row.length dtype (List.replicate n (row.map dtype.cast)) := by
  rw [full]
  split
  · rename_i h
    obtain rfl := List.isEmpty_iff.mp (h.resolve_right (Int.natCast_nonneg n).not_gt)
    simp [ofRows, word]
  · rw [ofRows, ofRows, Int.toNat_natCast, List.length_replicate]

/-- The same row for every number. -/
theorem full_eq (n : Nat) (row : List Label) (dtype : DType) :
    full n row dtype = ofRows row.length dtype ((List.range n).map fun _ => row.map dtype.cast) := by
  rw [full_natCast, List.map_const', List.length_range]

/-- For rows that are not fewer than none there is room if their labels can be stored. -/
theorem hasRoom_natCast {n w : Nat} : hasRoom n w = true ↔ n * w ≤ capacity := by
  rw [hasRoom, Option.any_eq_true]
  constructor
  · rintro ⟨k, hk, hle⟩
    have hplaces : n * w ≤ k := by exact_mod_cast of_decide_eq_true hle
    exact hplaces.trans (volume?_le hk)
  · intro h
    exact ⟨n * w, volume?_natCast h, by simp⟩

/-- The same row for every number, if there is room for it. -/
theorem full?_eq {n : Nat} {row : List Label} {dtype : DType} (hfit : n * row.length ≤ capacity) :
    full? n row dtype = some (full n row dtype) :=
  if_pos (hasRoom_natCast.mpr hfit)

/-- Without room for the labels there is nothing. -/
theorem full?_eq_none {n : Nat} {row : List Label} {dtype : DType} (hfit : capacity < n * row.length) : full? n row dtype = none :=
  if_neg fun h => Nat.not_le.mpr hfit (hasRoom_natCast.mp h)

/-- There is room for a row for every number, or there is nothing. -/
theorem full?_some {n : Int} {row : List Label} {dtype : DType} {y : Tensor} (h : full? n row dtype = some y) :
    y = full n row dtype ∧ hasRoom n row.length = true := by
  rw [full?] at h
  split at h
  · rename_i hroom
    exact ⟨(Option.some.inj h).symm, hroom⟩
  · cases h

theorem row?_eq (hx : x.Shaped n w) (hfit : n * w < 2 ^ 63) {i : Nat} (hi : i < n) : x.row? i = some (x.row i) := by
  have hle : i * w + w ≤ n * w := by
    rw [← Nat.succ_mul]
    exact Nat.mul_le_mul_right w hi
  have hlow : word ((i : Int) * w) = ((i * w : Nat) : Int) := by
    rw [← Int.natCast_mul]
    exact word_of_lt (by omega)
  have hhigh : word (((i : Int) + 1) * w) = ((i * w + w : Nat) : Int) := by
    rw [show ((i : Int) + 1) * w = ((i * w + w : Nat) : Int) by push_cast; ring]
    exact word_of_lt (by omega)
  rw [row?, hx.cols_eq, hlow, hhigh, hx.size_eq, if_pos ⟨by omega, by omega, by omega⟩, row, hx.cols_eq, Int.toNat_natCast,
    Int.toNat_natCast, Int.toNat_natCast, Nat.succ_mul]

/-- A label by row and column. -/
theorem at?_eq (hx : x.Shaped n w) (hfit : n * w ≤ capacity) {i j : Nat} (hi : i < n) (hj : j < w) : x.at? i j = (x.row i)[j]? := by
  have hle : i * w + w ≤ n * w := by
    rw [← Nat.succ_mul]
    exact Nat.mul_le_mul_right w hi
  have hword : word ((i : Int) * w + j) = ((i * w + j : Nat) : Int) := by
    rw [show (i : Int) * w + j = ((i * w + j : Nat) : Int) by push_cast; ring]
    exact word_natCast (by omega)
  rw [at?, hx.cols_eq, hword, if_neg (by omega), Int.toNat_natCast, getElem?_row hx hj]

/-- What is gathered are rows at the numbers. -/
theorem gather_ok {idx : List Int} {y : Tensor} (h : x.gather idx = .ok y) :
    ∃ rows, idx.mapM x.rowAt = .ok rows ∧ y = ofRows x.cols x.dtype rows := by
  rw [gather] at h
  split at h
  · cases h
  · obtain ⟨rows, hrows, h⟩ := bind_ok h
    refine ⟨rows, hrows, ?_⟩
    split at h
    · exact (Except.ok.inj h).symm
    · cases h

/-- The rows at some numbers are there, if the labels can be counted in words. -/
theorem mapM_rowAt (hx : x.Shaped n w) (hfit : n * w < 2 ^ 63) {idx : List Int} (hidx : ∀ i ∈ idx, 0 ≤ i ∧ i < n) :
    idx.mapM x.rowAt = .ok (idx.map fun i => x.row i.toNat) := by
  refine mapM_eq_ok fun i hi => ?_
  obtain ⟨h0, hn⟩ := hidx i hi
  have hi' : ((i.toNat : Nat) : Int) = i := Int.toNat_of_nonneg h0
  have hget := row?_eq hx hfit (show i.toNat < n by omega)
  rw [hi'] at hget
  rw [rowAt, hx.rows_eq, if_neg (by omega), hget]

/-- The rows at some numbers, of labels that can be counted in words. -/
theorem gather_eq_of_lt (hx : x.Shaped n w) (hfit : n * w < 2 ^ 63) {idx : List Int} (hidx : ∀ i ∈ idx, 0 ≤ i ∧ i < n)
    (hsize : idx.length * w ≤ capacity) : x.gather idx = .ok (ofRows w x.dtype (idx.map fun i => x.row i.toNat)) := by
  rw [gather, hx.cols_eq, volume?_natCast hsize]
  dsimp only
  rw [mapM_rowAt hx hfit hidx, ok_bind, if_pos (by push_cast; rfl)]
  rfl

/-- Without room for the rows nothing is gathered. -/
theorem gather_aborts (hx : x.Shaped n w) (hfit : n * w < 2 ^ 63) {idx : List Int} (hidx : ∀ i ∈ idx, 0 ≤ i ∧ i < n)
    (hsize : capacity < idx.length * w) : x.gather idx = .error .aborted := by
  rw [gather, hx.cols_eq]
  cases hvolume : volume? idx.length w with
  | none => rfl
  | some v =>
    have hv := volume?_le hvolume
    dsimp only
    rw [mapM_rowAt hx hfit hidx, ok_bind, if_neg]
    · rfl
    · exact_mod_cast Nat.not_le.mpr (Nat.lt_of_le_of_lt hv hsize)

/-- The rows at some numbers. -/
theorem gather_eq (hx : x.Shaped n w) (hfit : n * w ≤ capacity) {idx : List Int} (hidx : ∀ i ∈ idx, 0 ≤ i ∧ i < n)
    (hsize : idx.length * w ≤ capacity) : x.gather idx = .ok (ofRows w x.dtype (idx.map fun i => x.row i.toNat)) :=
  gather_eq_of_lt hx (Nat.lt_of_le_of_lt hfit (by decide)) hidx hsize

theorem gather_shaped (hx : x.Shaped n w) {idx : List Int} (hidx : ∀ i ∈ idx, 0 ≤ i ∧ i < n) :
    (ofRows w x.dtype (idx.map fun i => x.row i.toNat)).Shaped idx.length w := by
  have hrows : ∀ r ∈ idx.map fun i => x.row i.toNat, r.length = w := by
    intro r hr
    obtain ⟨i, hi, rfl⟩ := List.mem_map.mp hr
    have := hidx i hi
    exact length_row hx (by omega)
  have h := ofRows_shaped x.dtype hrows
  rwa [List.length_map] at h

end

/-! ### Side by side -/

namespace RowsAux

theorem rowsFault?_eq_none {n : Nat} {ts : List Tensor} (h : ∀ t ∈ ts, t.rows = n) (i : Nat) : rowsFault? n i ts = none := by
  induction ts generalizing i with
  | nil => rfl
  | cons t ts ih =>
    rw [rowsFault?, if_pos (h t List.mem_cons_self)]
    exact ih (fun t' ht' => h t' (List.mem_cons_of_mem _ ht')) (i + 1)

/-- Rows put side by side, the rows of one tensor after the other. -/
theorem foldl_sideBySide {n : Nat} {ts : List Tensor} (h : ∀ t ∈ ts, ∃ w, t.Shaped n w) (row : Nat → List Label) :
    ts.foldl (fun rows u => sideBySide rows u.rowList) ((List.range n).map row) =
      (List.range n).map fun i => row i ++ (ts.map fun t => t.row i).flatten := by
  induction ts generalizing row with
  | nil => simp
  | cons t ts ih =>
    obtain ⟨w, ht⟩ := h t List.mem_cons_self
    have hstep : sideBySide ((List.range n).map row) t.rowList = (List.range n).map fun i => row i ++ t.row i := by
      rw [sideBySide, rowList_eq ht, List.zipWith_map, List.zipWith_self]
    rw [List.foldl_cons, hstep, ih fun t' ht' => h t' (List.mem_cons_of_mem _ ht')]
    refine List.map_congr_left fun i _ => ?_
    rw [List.map_cons, List.flatten_cons, List.append_assoc]

end RowsAux

/-- The width of tensors side by side. -/
def totalWidth (ts : List Tensor) : Nat :=
  (ts.map fun t => t.cols.toNat).sum

/-- A row of tensors side by side is as wide as all of them. -/
theorem length_sideBySide {n : Nat} {ts : List Tensor} (h : ∀ t ∈ ts, ∃ w, t.Shaped n w) {i : Nat} (hi : i < n) :
    ((ts.map fun t => t.row i).flatten).length = totalWidth ts := by
  rw [List.length_flatten, List.map_map, totalWidth]
  refine congrArg List.sum (List.map_congr_left fun t ht => ?_)
  obtain ⟨w, hw⟩ := h t ht
  rw [Function.comp_apply, length_row hw hi, hw.cols_eq, Int.toNat_natCast]

theorem foldr_cols {n : Nat} {ts : List Tensor} (h : ∀ t ∈ ts, ∃ w, t.Shaped n w) :
    ts.foldr (fun u k => u.cols + k) 0 = (totalWidth ts : Int) := by
  induction ts with
  | nil => rfl
  | cons u us ih =>
    obtain ⟨w, hw⟩ := h u List.mem_cons_self
    rw [List.foldr_cons, ih fun u' hu' => h u' (List.mem_cons_of_mem _ hu'), totalWidth, totalWidth, List.map_cons, List.sum_cons,
      hw.cols_eq, Int.toNat_natCast]
    push_cast
    rfl

/-- Tensors of one height side by side, of a width that can be counted in words. -/
theorem concat_eq {n : Nat} {t : Tensor} {rest : List Tensor} (h : ∀ u ∈ t :: rest, ∃ w, u.Shaped n w)
    (hfit : n * totalWidth (t :: rest) ≤ capacity) (hwidth : totalWidth (t :: rest) < 2 ^ 63) :
    concat (t :: rest) = .ok (ofRows (totalWidth (t :: rest)) (t.dtype.join (rest.map Tensor.dtype))
      ((List.range n).map fun i => ((t :: rest).map fun u => u.row i).flatten)) := by
  have hrows : ∀ u ∈ t :: rest, u.rows = n := by
    intro u hu
    obtain ⟨w, hw⟩ := h u hu
    exact hw.rows_eq
  have hreach : (t :: rest).all rowsReach = true := by
    rw [List.all_eq_true]
    intro u hu
    obtain ⟨w, hw⟩ := h u hu
    exact rowsReach_of_shaped hw
  obtain ⟨w, ht⟩ := h t List.mem_cons_self
  rw [concat]
  dsimp only
  rw [ht.rows_eq, rowsFault?_eq_none hrows, foldr_cols h, word_of_lt hwidth, volume?_natCast hfit]
  dsimp only
  rw [if_neg (by omega), if_pos ⟨hreach, by push_cast; rfl⟩, rowList_eq ht,
    foldl_sideBySide fun u hu => h u (List.mem_cons_of_mem _ hu)]
  congr 1
  simp only [ofRows, List.length_map, List.length_range, List.map_cons, List.flatten_cons]

/-- Without room for the rows nothing is put side by side. -/
theorem concat_aborts {n : Nat} {t : Tensor} {rest : List Tensor} (h : ∀ u ∈ t :: rest, ∃ w, u.Shaped n w)
    (hfit : capacity < n * totalWidth (t :: rest)) : concat (t :: rest) = .error .aborted := by
  have hrows : ∀ u ∈ t :: rest, u.rows = n := by
    intro u hu
    obtain ⟨w, hw⟩ := h u hu
    exact hw.rows_eq
  obtain ⟨w, ht⟩ := h t List.mem_cons_self
  rw [concat]
  dsimp only
  rw [ht.rows_eq, rowsFault?_eq_none hrows, foldr_cols h]
  generalize hvolume : volume? n (word (totalWidth (t :: rest))) = room
  cases room with
  | none => rfl
  | some v =>
    have hv := volume?_le hvolume
    have hlt : ¬ ((n : Int) * totalWidth (t :: rest) ≤ v) := by
      rw [← Int.natCast_mul, Int.ofNat_le]
      exact Nat.not_le.mpr (Nat.lt_of_le_of_lt hv hfit)
    dsimp only
    rw [if_neg (Int.not_lt.mpr (Int.natCast_nonneg n)), if_neg fun hroom => hlt hroom.2]

/-! ### Rows sent to places -/

/-- The rows sent to a place, in order. -/
def sentTo (target : List Int) (rows : List (List Label)) (i : Nat) : List (List Label) :=
  ((target.zip rows).filter fun p => p.1.toNat == i).map Prod.snd

namespace RowsAux

/-- Rows sent to places are found there. -/
theorem arrivals_eq (n : Nat) (target : List Int) (rows : List (List Label)) :
    (arrivals n target rows).toList = (List.range n).map (sentTo target rows) := by
  have hplace : ∀ sent : List (Int × List Label), ∀ i : Nat,
      (sent.foldr (fun p acc => acc.modify p.1.toNat (p.2 :: ·)) (Array.replicate n []))[i]? =
        if i < n then some ((sent.filter fun p => p.1.toNat == i).map Prod.snd) else none := by
    intro sent i
    induction sent with
    | nil =>
      rw [List.foldr_nil, Array.getElem?_replicate]
      rfl
    | cons p sent ih =>
      obtain ⟨d, r⟩ := p
      rw [List.foldr_cons, Array.getElem?_modify, ih, List.filter_cons]
      by_cases hi : i < n <;> by_cases hd : d.toNat = i <;> simp [hi, hd]
  refine List.ext_getElem? fun i => ?_
  rw [Array.getElem?_toList, arrivals, hplace, List.getElem?_map]
  by_cases hi : i < n
  · rw [if_pos hi, List.getElem?_range hi]
    rfl
  · rw [if_neg hi, List.getElem?_eq_none (by simpa using hi)]
    rfl

/-- No target is at fault if each is among the places, and the other way about. -/
theorem findSome?_targetFault_eq_none {n : Int} {target : List Int} :
    target.findSome? (targetFault n) = none ↔ ∀ d ∈ target, 0 ≤ d ∧ d < n := by
  rw [List.findSome?_eq_none_iff]
  refine forall₂_congr fun d _ => ?_
  rw [targetFault, ite_eq_right_iff]
  simp only [Bool.or_eq_true, decide_eq_true_eq, reduceCtorEq, imp_false, not_or, Int.not_lt, Int.not_le]

end RowsAux

/-- A fold over rows of one width has that width. -/
theorem length_foldRows {f : Label → Label → Label} {init : Label} {w : Nat} {rows : List (List Label)}
    (h : ∀ r ∈ rows, r.length = w) : (foldRows f init w rows).length = w := by
  have hfold : ∀ acc : List Label, acc.length = w → (rows.foldl (fun acc r => acc.zipWith f r) acc).length = w := by
    induction rows with
    | nil => exact fun acc hacc => hacc
    | cons r rows ih =>
      intro acc hacc
      rw [List.foldl_cons]
      refine ih (fun r' hr' => h r' (List.mem_cons_of_mem _ hr')) _ ?_
      rw [List.length_zipWith, hacc, h r List.mem_cons_self, Nat.min_self]
  exact hfold _ List.length_replicate

theorem length_arrivalRow {f : Label → Label → Label} {init empty : Label} {w : Nat} {rows : List (List Label)}
    (h : ∀ r ∈ rows, r.length = w) : (arrivalRow f init empty w rows).length = w := by
  rw [arrivalRow]
  split
  · exact List.length_replicate
  · exact length_foldRows h

theorem mem_of_mem_sentTo {target : List Int} {rows : List (List Label)} {i : Nat} {r : List Label} (h : r ∈ sentTo target rows i) :
    r ∈ rows := by
  obtain ⟨p, hp, rfl⟩ := List.mem_map.mp h
  exact (List.of_mem_zip (List.mem_filter.mp hp).1).2

/-- The rows sent to a place are those whose target it is. -/
theorem mem_sentTo {target : List Int} {rows : List (List Label)} {i : Nat} {r : List Label} :
    r ∈ sentTo target rows i ↔ ∃ (k : Nat) (d : Int), target[k]? = some d ∧ d.toNat = i ∧ rows[k]? = some r := by
  constructor
  · intro h
    obtain ⟨⟨d, r'⟩, hp, rfl⟩ := List.mem_map.mp h
    obtain ⟨hzip, hi⟩ := List.mem_filter.mp hp
    obtain ⟨k, hk⟩ := List.mem_iff_getElem?.mp hzip
    obtain ⟨hd, hr⟩ := List.getElem?_zip_eq_some.mp hk
    exact ⟨k, d, hd, by simpa using hi, hr⟩
  · rintro ⟨k, d, hd, hi, hr⟩
    have hzip : (d, r) ∈ target.zip rows := List.mem_iff_getElem?.mpr ⟨k, List.getElem?_zip_eq_some.mpr ⟨hd, hr⟩⟩
    exact List.mem_map.mpr ⟨(d, r), List.mem_filter.mpr ⟨hzip, by simpa using hi⟩, rfl⟩

/-- A fold over rows folds every column. -/
theorem getElem?_foldRows {f : Label → Label → Label} {init : Label} {w : Nat} {rows : List (List Label)}
    (h : ∀ r ∈ rows, r.length = w) {j : Nat} (hj : j < w) :
    (foldRows f init w rows)[j]? = some ((rows.map fun r => r[j]?.getD Label.zero).foldl f init) := by
  have hfold : ∀ acc : List Label, acc.length = w → ∀ a, acc[j]? = some a →
      (rows.foldl (fun acc r => acc.zipWith f r) acc)[j]? = some ((rows.map fun r => r[j]?.getD Label.zero).foldl f a) := by
    induction rows with
    | nil => exact fun acc _ a ha => ha
    | cons r rows ih =>
      intro acc hacc a ha
      have hr : r.length = w := h r List.mem_cons_self
      obtain ⟨b, hb⟩ : ∃ b, r[j]? = some b := ⟨r[j], List.getElem?_eq_getElem (by omega)⟩
      rw [List.foldl_cons, List.map_cons, List.foldl_cons, hb, Option.getD_some]
      refine ih (fun r' hr' => h r' (List.mem_cons_of_mem _ hr')) _ ?_ _ ?_
      · rw [List.length_zipWith, hacc, hr, Nat.min_self]
      · rw [List.getElem?_zipWith, ha, hb]
  exact hfold _ List.length_replicate init (by simp [hj])

/-- Every row folded into the row of the place it is sent to. -/
theorem scatterReduce_eq {k n w : Nat} {m : Tensor} (hm : m.Shaped k w) {target : List Int} (hlen : target.length = k)
    (htarget : ∀ d ∈ target, 0 ≤ d ∧ d < n) (hfit : n * w ≤ capacity) (hn : (n : Int) ≤ seats) (dtype : DType) (init empty : Label)
    (f : Label → Label → Label) :
    m.scatterReduce target n dtype init empty f = .ok (ofRows w dtype
      ((List.range n).map fun i => (arrivalRow f init empty w (sentTo target m.rowList i)).map dtype.cast)) := by
  have hseats : ¬((n : Int) < 0 ∨ seats < n ∨ (volume? n m.cols).isNone) := by
    rw [hm.cols_eq, volume?_natCast hfit]
    simp only [Option.isNone_some, Bool.false_eq_true, or_false, not_or, Int.not_lt]
    omega
  have hword : word ((n : Int) * w) = n * w := by
    rw [← Int.natCast_mul]
    exact word_natCast (by omega)
  rw [scatterReduce, hm.rows_eq, if_neg (by omega), if_neg hseats, rowsReach_of_shaped hm, if_pos rfl,
    findSome?_targetFault_eq_none.mpr htarget]
  dsimp only
  rw [if_neg, hm.cols_eq, Int.toNat_natCast, Int.toNat_natCast, arrivals_eq, List.map_map]
  · rfl
  · rw [hm.cols_eq, hword]
    simp

/-- Without room for the places nothing is sent there. -/
theorem scatterReduce_aborts {k n w : Nat} {m : Tensor} (hm : m.Shaped k w) {target : List Int} (hlen : target.length = k)
    (htarget : ∀ d ∈ target, 0 ≤ d ∧ d < n) (hroom : ¬ (n * w ≤ capacity ∧ (n : Int) ≤ seats)) (dtype : DType) (init empty : Label)
    (f : Label → Label → Label) : m.scatterReduce target n dtype init empty f = .error .aborted := by
  rw [scatterReduce, hm.rows_eq, if_neg (by omega)]
  by_cases hseats : (n : Int) < 0 ∨ seats < n ∨ (volume? n m.cols).isNone = true
  · rw [if_pos hseats]
  · rw [if_neg hseats, rowsReach_of_shaped hm, if_pos rfl, findSome?_targetFault_eq_none.mpr htarget]
    dsimp only
    rw [not_or, not_or] at hseats
    refine if_pos (by_contra fun hfine => hroom ⟨?_, by omega⟩)
    rw [not_or, not_and_or, not_or] at hfine
    rcases hfine.2 with hnone | ⟨-, hword⟩
    · obtain rfl : n = 0 := by omega
      rw [Nat.zero_mul]
      exact Nat.zero_le _
    · have hcount := le_capacity_of_volume? hseats.2.2 (not_not.mp hword)
      rw [hm.cols_eq] at hcount
      exact_mod_cast hcount

theorem scatterReduce_width {k w : Nat} {m : Tensor} (hm : m.Shaped k w) (target : List Int) (dtype : DType)
    (init empty : Label) (f : Label → Label → Label) (i : Nat) :
    ((arrivalRow f init empty w (sentTo target m.rowList i)).map dtype.cast).length = w := by
  rw [List.length_map]
  exact length_arrivalRow fun r hr => width_of_mem_rowList hm r (mem_of_mem_sentTo hr)

end Tensor

end ModalGraph
