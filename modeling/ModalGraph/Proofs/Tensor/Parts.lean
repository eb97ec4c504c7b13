import Mathlib.Algebra.BigOperators.Group.List.Basic
import ModalGraph.Proofs.Tensor.Truth

/-!
# Tensors in parts

A tensor whose rows are those of several tensors, one after the other, is put together from these. Here the operations on tensors are
given as functions of the rows alone, and each of them is shown to work part by part: on rows put together it gives what it gives on
the parts, put together. Numbers that name rows are shifted by the rows of the parts before (`shifted`).
-/

namespace ModalGraph

namespace Tensor

/-- Truth values among rows of some domain are 0 and 1. -/
def Exact (d : DType) (rows : List (List Label)) : Prop :=
  d = .bool → ∀ r ∈ rows, ∀ v ∈ r, v = Label.zero ∨ v = Label.one

/-- A tensor of `n` rows of width `w`, given one by one, whose truth values are 0 and 1. -/
structure HasRows (n w : Nat) (d : DType) (rows : List (List Label)) (x : Tensor) : Prop where
  eq : x = ofRows w d rows
  length : rows.length = n
  width : ∀ r ∈ rows, r.length = w
  exact : Exact d rows

theorem cast_bool_exact (v : Label) : DType.cast .bool v = Label.zero ∨ DType.cast .bool v = Label.one := by
  rw [DType.cast]
  cases v.isZero with
  | true => exact .inl rfl
  | false => exact .inr rfl

/-- Rows of labels that are taken into their domain. -/
theorem exact_of_cast {d : DType} {rows : List (List Label)} (h : ∀ r ∈ rows, ∃ r' : List Label, r = r'.map d.cast) : Exact d rows := by
  rintro rfl r hr v hv
  obtain ⟨r', rfl⟩ := h r hr
  obtain ⟨u, _, rfl⟩ := List.mem_map.mp hv
  exact cast_bool_exact u

section

variable {n w : Nat} {d : DType} {rows : List (List Label)} {x : Tensor}

theorem hasRows_ofRows (hlen : rows.length = n) (hwidth : ∀ r ∈ rows, r.length = w) (hexact : Exact d rows) :
    (ofRows w d rows).HasRows n w d rows :=
  ⟨rfl, hlen, hwidth, hexact⟩

theorem HasRows.shaped (h : x.HasRows n w d rows) : x.Shaped n w := by
  rw [h.eq, ← h.length]
  exact ofRows_shaped d h.width

theorem HasRows.rowList_eq (h : x.HasRows n w d rows) : x.rowList = rows := by
  rw [h.eq]
  exact rowList_ofRows h.width

theorem HasRows.dtype_eq (h : x.HasRows n w d rows) : x.dtype = d := by
  rw [h.eq]
  rfl

theorem HasRows.row_eq (h : x.HasRows n w d rows) {i : Nat} (hi : i < n) : rows[i]? = some (x.row i) := by
  rw [← h.rowList_eq, Tensor.rowList_eq h.shaped, List.getElem?_map, List.getElem?_range hi]
  rfl

/-- A tensor with as many labels as it claims has its rows. -/
theorem Shaped.hasRows (hx : x.Shaped n w) (hexact : x.dtype = .bool → ∀ v ∈ x.data, v = Label.zero ∨ v = Label.one) :
    x.HasRows n w x.dtype x.rowList := by
  refine ⟨(ofRows_rowList hx).symm, length_rowList hx, width_of_mem_rowList hx, fun hd r hr v hv => hexact hd v ?_⟩
  have hmem : v ∈ x.rowList.flatten := List.mem_flatten.mpr ⟨r, hr, hv⟩
  rw [flatten_rowList hx] at hmem
  exact Array.mem_toList_iff.mp hmem

/-- A tensor as it is made from rows: with as many labels as its shape calls for, and with truth values that are 0 and 1. -/
def Proper (x : Tensor) : Prop :=
  x.WellFormed ∧ (x.dtype = .bool → ∀ v ∈ x.data, v = Label.zero ∨ v = Label.one)

/-- A tensor with as many labels as its shape calls for. -/
theorem WellFormed.shaped (h : x.WellFormed) (hcols : x.cols = w) : x.Shaped x.rows.toNat w := by
  obtain ⟨hrows, _, hsize⟩ := h
  refine ⟨(Int.toNat_of_nonneg hrows).symm, hcols, ?_⟩
  rw [← Int.toNat_of_nonneg hrows, hcols] at hsize
  exact_mod_cast hsize

theorem Proper.hasRows (h : x.Proper) (hcols : x.cols = w) : x.HasRows x.rows.toNat w x.dtype x.rowList :=
  (h.1.shaped hcols).hasRows h.2

theorem Shaped.wellFormed (h : x.Shaped n w) : x.WellFormed := by
  refine ⟨h.rows_eq ▸ Int.natCast_nonneg n, h.cols_eq ▸ Int.natCast_nonneg w, ?_⟩
  rw [h.size_eq, h.rows_eq, h.cols_eq]
  exact Int.natCast_mul n w

theorem HasRows.proper (h : x.HasRows n w d rows) : x.Proper := by
  refine ⟨h.shaped.wellFormed, fun hbool v hv => ?_⟩
  rw [h.eq] at hv
  obtain ⟨r, hr, hvr⟩ := List.mem_flatten.mp (List.mem_toArray.mp hv)
  exact h.exact (h.dtype_eq.symm.trans hbool) r hr v hvr

/-- Rows of one width are made into a proper tensor. -/
theorem fromRows_proper (h : fromRows rows d = .ok x) : x.Proper := by
  have hwidth : ∀ (rs : List (List Label)) (cols i : Nat), ragged? cols i rs = none → ∀ r ∈ rs, r.length = cols := by
    intro rs cols
    induction rs with
    | nil => exact fun _ _ => nofun
    | cons r rs ih =>
      intro i hragged
      rw [ragged?] at hragged
      split at hragged
      · rename_i hr
        exact List.forall_mem_cons.mpr ⟨hr, ih (i + 1) hragged⟩
      · cases hragged
  rw [fromRows] at h
  split at h
  · cases h
  split at h
  · cases h
  · rename_i hragged
    obtain rfl := Except.ok.inj h
    refine (hasRows_ofRows rfl (fun r hr => ?_) (exact_of_cast fun r hr => ?_)).proper
    · obtain ⟨r', hr', rfl⟩ := List.mem_map.mp hr
      rw [List.length_map]
      exact hwidth _ _ 0 hragged r' hr'
    · obtain ⟨r', _, rfl⟩ := List.mem_map.mp hr
      exact ⟨r', rfl⟩

/-- Tensors of truth values are equal if their rows are. -/
theorem HasRows.equal_iff {a b : List (List Label)} {y : Tensor} (hx : x.HasRows n w .bool a) (hy : y.HasRows n w .bool b) :
    x.equal y = true ↔ a = b := by
  have hsame : ∀ u v : Label, (u = Label.zero ∨ u = Label.one) → (v = Label.zero ∨ v = Label.one) → (u.same v = true ↔ u = v) := by
    rintro u v (rfl | rfl) (rfl | rfl) <;> decide
  have hflat : ∀ l l' : List Label, (∀ u ∈ l, u = Label.zero ∨ u = Label.one) → (∀ v ∈ l', v = Label.zero ∨ v = Label.one) →
      l.length = l'.length → (((l.zip l').all fun p => p.1.same p.2) = true ↔ l = l') := by
    intro l
    induction l with
    | nil =>
      intro l' _ _ hlen
      rw [List.length_eq_zero_iff.mp hlen.symm]
      simp
    | cons u l ih =>
      intro l' hl hl' hlen
      cases l' with
      | nil => cases hlen
      | cons v l' =>
        rw [List.forall_mem_cons] at hl hl'
        rw [List.zip_cons_cons, List.all_cons, Bool.and_eq_true, List.cons.injEq, ih l' hl.2 hl'.2 (Nat.succ.inj hlen)]
        exact and_congr (hsame u v hl.1 hl'.1) Iff.rfl
  have hmem : ∀ {rows : List (List Label)}, Exact .bool rows → ∀ v ∈ rows.flatten, v = Label.zero ∨ v = Label.one := by
    intro rows hexact v hv
    obtain ⟨r, hr, hvr⟩ := List.mem_flatten.mp hv
    exact hexact rfl r hr v hvr
  have hlen : a.flatten.length = b.flatten.length := by
    rw [RowsAux.length_flatten_of_width hx.width, RowsAux.length_flatten_of_width hy.width, hx.length, hy.length]
  have hinj : a.flatten = b.flatten ↔ a = b := by
    refine ⟨fun h => ?_, fun h => by rw [h]⟩
    rw [← hx.rowList_eq, ← hy.rowList_eq, hx.eq, hy.eq, ofRows, ofRows, h, hx.length, hy.length]
  rw [← hinj, ← hflat _ _ (hmem hx.exact) (hmem hy.exact) hlen, equal, hx.shaped.rows_eq, hy.shaped.rows_eq, hx.shaped.cols_eq,
    hy.shaped.cols_eq, hx.shaped.size_eq, hy.shaped.size_eq, hx.eq, hy.eq]
  simp [ofRows]

end

/-! ## Parts below each other -/

section

variable {ι : Type} {is : List ι} {n : ι → Nat} {w : Nat} {d : DType} {rows : ι → List (List Label)}

/-- Rows of parts, all of one width, put together. -/
theorem hasRows_flatMap {x : ι → Tensor} (h : ∀ i ∈ is, (x i).HasRows (n i) w d (rows i)) :
    (ofRows w d (is.flatMap rows)).HasRows (is.map n).sum w d (is.flatMap rows) := by
  refine hasRows_ofRows ?_ ?_ ?_
  · rw [List.length_flatMap]
    exact congrArg List.sum (List.map_congr_left fun i hi => (h i hi).length)
  · intro r hr
    obtain ⟨i, hi, hr⟩ := List.mem_flatMap.mp hr
    exact (h i hi).width r hr
  · intro hd r hr
    obtain ⟨i, hi, hr⟩ := List.mem_flatMap.mp hr
    exact (h i hi).exact hd r hr

/-- As many rows as there are in several tensors of one width, and as wide as there. -/
theorem shaped_flatMap {x : ι → Tensor} (h : ∀ i ∈ is, (x i).Shaped (n i) w) (d : DType) :
    (ofRows w d (is.flatMap fun i => (x i).rowList)).Shaped (is.map n).sum w := by
  have hlen : (is.flatMap fun i => (x i).rowList).length = (is.map n).sum := by
    rw [List.length_flatMap]
    exact congrArg List.sum (List.map_congr_left fun i hi => length_rowList (h i hi))
  rw [← hlen]
  refine ofRows_shaped d fun r hr => ?_
  obtain ⟨i, hi, hr⟩ := List.mem_flatMap.mp hr
  exact width_of_mem_rowList (h i hi) r hr

/-- Tensors among which no width is at fault are of that width, and the other way about. -/
theorem widthFault?_eq_none {cols : Int} {ts : List Tensor} (i : Nat) : widthFault? cols i ts = none ↔ ∀ t ∈ ts, t.cols = cols := by
  induction ts generalizing i with
  | nil => exact ⟨fun _ => List.forall_mem_nil _, fun _ => rfl⟩
  | cons t ts ih =>
    rw [widthFault?, List.forall_mem_cons]
    split
    · rename_i ht
      exact (ih (i + 1)).trans (and_iff_right ht).symm
    · rename_i ht
      exact ⟨nofun, fun h => absurd h.1 ht⟩

/-- Tensors below each other are of the width of the whole. -/
theorem cols_of_stack {ts : List Tensor} {y : Tensor} (h : stack ts = .ok y) : ∀ t ∈ ts, t.cols = y.cols := by
  cases ts with
  | nil => exact nofun
  | cons t rest =>
    rw [stack] at h
    split at h
    · cases h
    · rename_i hnone
      dsimp only at h
      split at h
      · cases h
      split at h
      · cases h
      · obtain rfl := Except.ok.inj h
        exact (widthFault?_eq_none 0).mp hnone

/-- The labels of tensors one after the other. -/
theorem flatMap_labels {x : ι → Tensor} (h : ∀ i ∈ is, (x i).Shaped (n i) w) :
    (is.map x).flatMap (fun u => u.data.toList) = (is.flatMap fun i => (x i).rowList).flatten := by
  rw [List.flatMap_map, List.flatten_eq_flatMap, List.flatMap_assoc]
  refine List.flatMap_congr fun i hi => ?_
  rw [← flatten_rowList (h i hi), List.flatten_eq_flatMap]

/-- Without room for the rows nothing is put below each other. -/
theorem stack_aborts {x : ι → Tensor} (hne : is ≠ []) (h : ∀ i ∈ is, (x i).Shaped (n i) w) (hfit : capacity < (is.map n).sum * w) :
    stack (is.map x) = .error .aborted := by
  have hlabels := flatMap_labels h
  have hlen : (is.flatMap fun i => (x i).rowList).flatten.length = (is.map n).sum * w := (shaped_flatMap h .bool).size_eq
  have hfault : widthFault? w 0 (is.map x) = none :=
    (widthFault?_eq_none 0).mpr (List.forall_mem_map.mpr fun i hi => (h i hi).cols_eq)
  obtain ⟨i, js, rfl⟩ := List.exists_cons_of_ne_nil hne
  rw [List.map_cons] at hfault hlabels ⊢
  rw [stack, (h i List.mem_cons_self).cols_eq]
  dsimp only
  rw [hfault]
  dsimp only
  rw [hlabels, hlen]
  generalize hvolume : volume? (word _) w = room
  cases room with
  | none => rfl
  | some v => exact if_pos (Nat.lt_of_le_of_lt (volume?_le hvolume) hfit)

/-- Tensors below each other, which need not be of one domain. If they are, the whole is of that domain. -/
theorem stack_shaped {x : ι → Tensor} (hne : is ≠ []) (h : ∀ i ∈ is, (x i).Shaped (n i) w)
    (hfit : (is.map n).sum * w ≤ capacity) (hrows : (is.map n).sum < 2 ^ 63) :
    ∃ d', stack (is.map x) = .ok (ofRows w d' (is.flatMap fun i => (x i).rowList)) ∧
      ∀ d, (∀ i ∈ is, (x i).dtype = d) → d' = d := by
  have hsum : ∀ js : List ι, (∀ j ∈ js, (x j).rows = n j) → (js.map x).foldr (fun u k => u.rows + k) 0 =
      (((js.map n).sum : Nat) : Int) := by
    intro js
    induction js with
    | nil => exact fun _ => rfl
    | cons j js ih =>
      intro hj
      rw [List.map_cons, List.foldr_cons, ih fun j' hj' => hj j' (List.mem_cons_of_mem _ hj'), hj j List.mem_cons_self,
        List.map_cons, List.sum_cons]
      push_cast
      rfl
  have hlabels := flatMap_labels h
  obtain ⟨hcount, -, hlen⟩ := shaped_flatMap h .bool
  have hcount : (is.flatMap fun i => (x i).rowList).length = (is.map n).sum := Int.ofNat_inj.mp hcount
  have hlen : (is.flatMap fun i => (x i).rowList).flatten.length = (is.map n).sum * w := hlen
  have hfault : widthFault? w 0 (is.map x) = none :=
    (widthFault?_eq_none 0).mpr (List.forall_mem_map.mpr fun i hi => (h i hi).cols_eq)
  have htotal := hsum is fun i hi => (h i hi).rows_eq
  obtain ⟨i, js, rfl⟩ := List.exists_cons_of_ne_nil hne
  have hwidth : (x i).cols = w := (h i List.mem_cons_self).cols_eq
  refine ⟨(x i).dtype.join ((js.map x).map Tensor.dtype), ?_, fun d hdtype => ?_⟩
  · rw [List.map_cons] at hfault htotal hlabels ⊢
    rw [stack]
    dsimp only
    rw [hwidth, hfault, htotal, word_of_lt hrows, volume?_natCast hfit]
    dsimp only
    rw [hlabels, hlen, if_neg (Nat.lt_irrefl _), Nat.sub_self, List.replicate_zero, List.append_nil, ofRows, hcount]
  · rw [DType.join, if_pos, hdtype i List.mem_cons_self]
    rw [List.all_eq_true]
    intro d' hd'
    obtain ⟨y, hy, rfl⟩ := List.mem_map.mp hd'
    obtain ⟨j, hj, rfl⟩ := List.mem_map.mp hy
    rw [hdtype j (List.mem_cons_of_mem _ hj), hdtype i List.mem_cons_self]
    exact beq_self_eq_true d

/-- Tensors of one domain below each other. -/
theorem stack_eq {x : ι → Tensor} (hne : is ≠ []) (h : ∀ i ∈ is, (x i).HasRows (n i) w d (rows i))
    (hfit : (is.map n).sum * w ≤ capacity) (hrows : (is.map n).sum < 2 ^ 63) :
    stack (is.map x) = .ok (ofRows w d (is.flatMap rows)) := by
  obtain ⟨d', hstack, hdtype⟩ := stack_shaped hne (fun i hi => (h i hi).shaped) hfit hrows
  rw [hstack, hdtype d fun i hi => (h i hi).dtype_eq, List.flatMap_congr fun i hi => (h i hi).rowList_eq]

end

/-! ## Side by side -/

/-- Rows side by side, from lists of `n` rows each. -/
def glued (n : Nat) (tables : List (List (List Label))) : List (List Label) :=
  (List.range n).map fun i => (tables.map fun rows => rows[i]?.getD []).flatten

theorem length_glued (n : Nat) (tables : List (List (List Label))) : (glued n tables).length = n := by
  rw [glued, List.length_map, List.length_range]

/-- Rows below each other are put side by side one after the other. -/
theorem glued_append {α : Type} {n₁ n₂ : Nat} (ps : List α) {a b : α → List (List Label)} (ha : ∀ p ∈ ps, (a p).length = n₁) :
    glued (n₁ + n₂) (ps.map fun p => a p ++ b p) = glued n₁ (ps.map a) ++ glued n₂ (ps.map b) := by
  rw [glued, List.range_add, List.map_append, List.map_map]
  congr 1
  · refine List.map_congr_left fun i hi => ?_
    rw [List.map_map, List.map_map]
    refine congrArg List.flatten (List.map_congr_left fun p hp => ?_)
    have hlt : i < (a p).length := by rw [ha p hp]; exact List.mem_range.mp hi
    rw [Function.comp_apply, List.getElem?_append_left hlt, Function.comp_apply]
  · refine List.map_congr_left fun i _ => ?_
    rw [Function.comp_apply, List.map_map, List.map_map]
    refine congrArg List.flatten (List.map_congr_left fun p hp => ?_)
    rw [Function.comp_apply, Function.comp_apply, ← ha p hp, List.getElem?_append_right (Nat.le_add_right _ _),
      Nat.add_sub_cancel_left]

/-- Parts are put side by side one after the other. -/
theorem glued_flatMap {α ι : Type} {n : ι → Nat} (ps : List α) {rows : α → ι → List (List Label)} (is : List ι)
    (h : ∀ i ∈ is, ∀ p ∈ ps, (rows p i).length = n i) :
    glued (is.map n).sum (ps.map fun p => is.flatMap (rows p)) = is.flatMap fun i => glued (n i) (ps.map fun p => rows p i) := by
  induction is with
  | nil => rfl
  | cons i is ih =>
    rw [List.map_cons, List.sum_cons, List.flatMap_cons, ← ih fun j hj => h j (List.mem_cons_of_mem _ hj),
      ← glued_append ps (h i List.mem_cons_self)]
    simp only [List.flatMap_cons]

section

variable {α : Type} {n : Nat} {x : α → Tensor} {width : α → Nat} {dtype : α → DType} {rows : α → List (List Label)}

/-- Tensors of one height side by side. -/
theorem concat_hasRows {p : α} {ps : List α} (h : ∀ q ∈ p :: ps, (x q).HasRows n (width q) (dtype q) (rows q))
    (hfit : n * ((p :: ps).map width).sum ≤ capacity) (hwidth : ((p :: ps).map width).sum < 2 ^ 63) :
    concat ((p :: ps).map x) = .ok (ofRows ((p :: ps).map width).sum ((dtype p).join (ps.map dtype))
      (glued n ((p :: ps).map rows))) := by
  have hshaped : ∀ y ∈ (p :: ps).map x, ∃ w, y.Shaped n w := by
    intro y hy
    obtain ⟨q, hq, rfl⟩ := List.mem_map.mp hy
    exact ⟨_, (h q hq).shaped⟩
  have htotal : totalWidth ((p :: ps).map x) = ((p :: ps).map width).sum := by
    rw [totalWidth, List.map_map]
    refine congrArg List.sum (List.map_congr_left fun q hq => ?_)
    rw [Function.comp_apply, (h q hq).shaped.cols_eq, Int.toNat_natCast]
  have hdtypes : (ps.map x).map Tensor.dtype = ps.map dtype := by
    rw [List.map_map]
    exact List.map_congr_left fun q hq => (h q (List.mem_cons_of_mem _ hq)).dtype_eq
  have hrows : ∀ i ∈ List.range n, (((p :: ps).map x).map fun y => y.row i).flatten =
      (((p :: ps).map rows).map fun rows => rows[i]?.getD []).flatten := by
    intro i hi
    rw [List.map_map, List.map_map]
    refine congrArg List.flatten (List.map_congr_left fun q hq => ?_)
    rw [Function.comp_apply, Function.comp_apply, (h q hq).row_eq (List.mem_range.mp hi), Option.getD_some]
  rw [← htotal] at hfit hwidth ⊢
  rw [List.map_cons] at hshaped hfit hwidth hrows ⊢
  rw [concat_eq hshaped hfit hwidth, List.map_congr_left hrows, hdtypes, (h p List.mem_cons_self).dtype_eq]
  rfl

theorem width_glued {ps : List α} (h : ∀ q ∈ ps, (x q).HasRows n (width q) (dtype q) (rows q)) :
    ∀ r ∈ glued n (ps.map rows), r.length = (ps.map width).sum := by
  intro r hr
  obtain ⟨i, hi, rfl⟩ := List.mem_map.mp hr
  rw [List.length_flatten, List.map_map, List.map_map]
  refine congrArg List.sum (List.map_congr_left fun q hq => ?_)
  have hlt := List.mem_range.mp hi
  rw [Function.comp_apply, Function.comp_apply, (h q hq).row_eq hlt, Option.getD_some, length_row (h q hq).shaped hlt]

theorem exact_glued {ps : List α} (h : ∀ q ∈ ps, (x q).HasRows n (width q) (dtype q) (rows q)) {d : DType}
    (hd : d = .bool → ∀ q ∈ ps, dtype q = .bool) : Exact d (glued n (ps.map rows)) := by
  intro hbool r hr v hv
  obtain ⟨i, hi, rfl⟩ := List.mem_map.mp hr
  obtain ⟨r', hr', hv⟩ := List.mem_flatten.mp hv
  rw [List.map_map] at hr'
  obtain ⟨q, hq, rfl⟩ := List.mem_map.mp hr'
  have hrow := (h q hq).row_eq (List.mem_range.mp hi)
  rw [Function.comp_apply, hrow, Option.getD_some] at hv
  exact (h q hq).exact (hd hbool q hq) _ (List.mem_of_getElem? hrow) v hv

end

/-! ## Rows by number -/

/-- Numbers in several parts, those of each part shifted by the sizes of the parts before. -/
def shifted : List (Nat × List Int) → List Int
  | [] => []
  | (n, l) :: rest => l ++ (shifted rest).map fun i => i + (n : Int)

theorem length_shifted (ps : List (Nat × List Int)) : (shifted ps).length = (ps.map fun p => p.2.length).sum := by
  induction ps with
  | nil => rfl
  | cons p ps ih => rw [shifted, List.length_append, List.length_map, ih, List.map_cons, List.sum_cons]

/-- Numbers below the sizes of their parts are, shifted, below the sum of the sizes. -/
theorem mem_shifted {ps : List (Nat × List Int)} (h : ∀ p ∈ ps, ∀ i ∈ p.2, 0 ≤ i ∧ i < p.1) :
    ∀ i ∈ shifted ps, 0 ≤ i ∧ i < ((ps.map Prod.fst).sum : Nat) := by
  induction ps with
  | nil => exact nofun
  | cons p ps ih =>
    intro i hi
    rw [List.map_cons, List.sum_cons]
    rcases List.mem_append.mp hi with hi | hi
    · have := h p List.mem_cons_self i hi
      omega
    · obtain ⟨j, hj, rfl⟩ := List.mem_map.mp hi
      have := ih (fun p' hp' => h p' (List.mem_cons_of_mem _ hp')) j hj
      omega

/-- The rows at some numbers. -/
def picked (rows : List (List Label)) (idx : List Int) : List (List Label) :=
  idx.map fun i => rows[i.toNat]?.getD []

theorem picked_append {a b : List (List Label)} {l₁ l₂ : List Int} (h₁ : ∀ i ∈ l₁, 0 ≤ i ∧ i < a.length)
    (h₂ : ∀ i ∈ l₂, 0 ≤ i) : picked (a ++ b) (l₁ ++ l₂.map fun i => i + (a.length : Int)) = picked a l₁ ++ picked b l₂ := by
  rw [picked, List.map_append, List.map_map]
  congr 1
  · refine List.map_congr_left fun i hi => ?_
    have := h₁ i hi
    rw [List.getElem?_append_left (by omega)]
  · refine List.map_congr_left fun i hi => ?_
    have := h₂ i hi
    rw [Function.comp_apply, List.getElem?_append_right (by omega), show (i + (a.length : Int)).toNat - a.length = i.toNat by omega]

/-- Rows at numbers in parts. -/
theorem picked_flatMap {ι : Type} {is : List ι} {n : ι → Nat} {rows : ι → List (List Label)} {l : ι → List Int}
    (h : ∀ i ∈ is, (rows i).length = n i ∧ ∀ j ∈ l i, 0 ≤ j ∧ j < n i) :
    picked (is.flatMap rows) (shifted (is.map fun i => (n i, l i))) = is.flatMap fun i => picked (rows i) (l i) := by
  induction is with
  | nil => rfl
  | cons i is ih =>
    obtain ⟨hlen, hl⟩ := h i List.mem_cons_self
    have hrest : ∀ j ∈ shifted (is.map fun i => (n i, l i)), 0 ≤ j := by
      refine fun j hj => (mem_shifted (fun p hp => ?_) j hj).1
      obtain ⟨i', hi', rfl⟩ := List.mem_map.mp hp
      exact (h i' (List.mem_cons_of_mem _ hi')).2
    rw [List.flatMap_cons, List.flatMap_cons, ← ih fun j hj => h j (List.mem_cons_of_mem _ hj), List.map_cons, shifted, ← hlen]
    exact picked_append (hlen ▸ hl) hrest

theorem HasRows.gather_eq_of_lt {n w : Nat} {d : DType} {rows : List (List Label)} {x : Tensor} (hx : x.HasRows n w d rows)
    {idx : List Int} (hidx : ∀ i ∈ idx, 0 ≤ i ∧ i < n) (hfit : n * w < 2 ^ 63) (hsize : idx.length * w ≤ capacity) :
    x.gather idx = .ok (ofRows w d (picked rows idx)) := by
  rw [Tensor.gather_eq_of_lt hx.shaped hfit hidx hsize, hx.dtype_eq, picked]
  congr 2
  refine List.map_congr_left fun i hi => ?_
  have := hidx i hi
  rw [hx.row_eq (show i.toNat < n by omega), Option.getD_some]

theorem HasRows.gather_eq {n w : Nat} {d : DType} {rows : List (List Label)} {x : Tensor} (hx : x.HasRows n w d rows)
    {idx : List Int} (hidx : ∀ i ∈ idx, 0 ≤ i ∧ i < n) (hfit : n * w ≤ capacity) (hsize : idx.length * w ≤ capacity) :
    x.gather idx = .ok (ofRows w d (picked rows idx)) :=
  hx.gather_eq_of_lt hidx (Nat.lt_of_le_of_lt hfit (by decide)) hsize

theorem HasRows.picked {n w : Nat} {d : DType} {rows : List (List Label)} {x : Tensor} (hx : x.HasRows n w d rows)
    {idx : List Int} (hidx : ∀ i ∈ idx, 0 ≤ i ∧ i < n) :
    (ofRows w d (picked rows idx)).HasRows idx.length w d (picked rows idx) := by
  have hmem : ∀ r ∈ Tensor.picked rows idx, r ∈ rows := by
    intro r hr
    obtain ⟨i, hi, rfl⟩ := List.mem_map.mp hr
    have hlt := hidx i hi
    have hlt : i.toNat < rows.length := by rw [hx.length]; omega
    rw [List.getElem?_eq_getElem hlt, Option.getD_some]
    exact List.getElem_mem hlt
  exact hasRows_ofRows (List.length_map _) (fun r hr => hx.width r (hmem r hr)) fun hd r hr => hx.exact hd r (hmem r hr)

/-! ## Rows sent to places -/

/-- What a function makes of the rows sent to each of `n` places. -/
def scattered (g : List (List Label) → List Label) (n : Nat) (target : List Int) (rows : List (List Label)) : List (List Label) :=
  (List.range n).map fun i => g (sentTo target rows i)

theorem length_scattered (g : List (List Label) → List Label) (n : Nat) (target : List Int) (rows : List (List Label)) :
    (scattered g n target rows).length = n := by
  rw [scattered, List.length_map, List.length_range]

namespace PartsAux

theorem sentTo_append {t₁ t₂ : List Int} {m₁ m₂ : List (List Label)} (h : t₁.length = m₁.length) (i : Nat) :
    sentTo (t₁ ++ t₂) (m₁ ++ m₂) i = sentTo t₁ m₁ i ++ sentTo t₂ m₂ i := by
  rw [sentTo, List.zip_append h, List.filter_append, List.map_append, sentTo, sentTo]

theorem sentTo_eq_nil {t : List Int} {m : List (List Label)} {i : Nat} (h : ∀ d ∈ t, d.toNat ≠ i) : sentTo t m i = [] := by
  rw [sentTo, List.map_eq_nil_iff, List.filter_eq_nil_iff]
  intro p hp
  simpa using h p.1 (List.of_mem_zip hp).1

theorem sentTo_shift {t : List Int} (m : List (List Label)) {n : Nat} (h : ∀ d ∈ t, 0 ≤ d) (i : Nat) :
    sentTo (t.map fun d => d + (n : Int)) m (n + i) = sentTo t m i := by
  rw [sentTo, List.zip_map_left, List.filter_map, List.map_map, sentTo]
  have hfilter : (t.zip m).filter ((fun p : Int × List Label => p.1.toNat == n + i) ∘ Prod.map (fun d => d + (n : Int)) id) =
      (t.zip m).filter fun p => p.1.toNat == i := by
    refine List.filter_congr fun p hp => ?_
    have := h p.1 (List.of_mem_zip hp).1
    rw [Function.comp_apply, Prod.map_fst, Bool.eq_iff_iff, beq_iff_eq, beq_iff_eq]
    omega
  rw [hfilter]
  rfl

end PartsAux

open PartsAux

theorem scattered_append (g : List (List Label) → List Label) {n₁ n₂ : Nat} {t₁ t₂ : List Int} {m₁ m₂ : List (List Label)}
    (hlen : t₁.length = m₁.length) (h₁ : ∀ d ∈ t₁, 0 ≤ d ∧ d < n₁) (h₂ : ∀ d ∈ t₂, 0 ≤ d) :
    scattered g (n₁ + n₂) (t₁ ++ t₂.map fun d => d + (n₁ : Int)) (m₁ ++ m₂) = scattered g n₁ t₁ m₁ ++ scattered g n₂ t₂ m₂ := by
  rw [scattered, List.range_add, List.map_append, List.map_map]
  congr 1
  · refine List.map_congr_left fun i hi => ?_
    have hi := List.mem_range.mp hi
    have hnil : sentTo (t₂.map fun d => d + (n₁ : Int)) m₂ i = [] := by
      refine sentTo_eq_nil fun d hd => ?_
      obtain ⟨d', hd', rfl⟩ := List.mem_map.mp hd
      have := h₂ d' hd'
      omega
    rw [sentTo_append hlen, hnil, List.append_nil]
  · refine List.map_congr_left fun i _ => ?_
    have hnil : sentTo t₁ m₁ (n₁ + i) = [] := by
      refine sentTo_eq_nil fun d hd => ?_
      have := h₁ d hd
      omega
    rw [Function.comp_apply, sentTo_append hlen, hnil, List.nil_append, sentTo_shift m₂ h₂]

/-- Rows sent to places in parts. -/
theorem scattered_flatMap (g : List (List Label) → List Label) {ι : Type} {is : List ι} {n : ι → Nat} {t : ι → List Int}
    {m : ι → List (List Label)} (h : ∀ i ∈ is, (t i).length = (m i).length ∧ ∀ d ∈ t i, 0 ≤ d ∧ d < n i) :
    scattered g (is.map n).sum (shifted (is.map fun i => (n i, t i))) (is.flatMap m) =
      is.flatMap fun i => scattered g (n i) (t i) (m i) := by
  induction is with
  | nil => rfl
  | cons i is ih =>
    obtain ⟨hlen, ht⟩ := h i List.mem_cons_self
    have hrest : ∀ d ∈ shifted (is.map fun i => (n i, t i)), 0 ≤ d := by
      refine fun d hd => (mem_shifted (fun p hp => ?_) d hd).1
      obtain ⟨i', hi', rfl⟩ := List.mem_map.mp hp
      exact (h i' (List.mem_cons_of_mem _ hi')).2
    rw [List.flatMap_cons, List.flatMap_cons, ← ih fun j hj => h j (List.mem_cons_of_mem _ hj), List.map_cons, List.map_cons,
      List.sum_cons, shifted]
    exact scattered_append g hlen ht hrest

theorem HasRows.scatterReduce_eq {k n w : Nat} {d : DType} {rows : List (List Label)} {m : Tensor} (hm : m.HasRows k w d rows)
    {target : List Int} (hlen : target.length = k) (htarget : ∀ d ∈ target, 0 ≤ d ∧ d < n) (hfit : n * w ≤ capacity)
    (hn : (n : Int) ≤ seats) (d' : DType) (init empty : Label) (f : Label → Label → Label) :
    m.scatterReduce target n d' init empty f = .ok (ofRows w d'
      (scattered (fun rows => (arrivalRow f init empty w rows).map d'.cast) n target rows)) := by
  rw [Tensor.scatterReduce_eq hm.shaped hlen htarget hfit hn, hm.rowList_eq]
  rfl

/-! ## Rows folded graph by graph -/

/-- What a function makes of the rows of each graph, given to all rows of the graph. -/
def spread (g : List (List Label) → List Label) : List Nat → List (List Label) → List (List Label)
  | [], _ => []
  | c :: counts, rows => List.replicate c (g (rows.take c)) ++ spread g counts (rows.drop c)

theorem spread_eq (g : List (List Label) → List Label) (counts : List Nat) (rows : List (List Label)) :
    (counts.zip ((pieces counts rows).map g)).flatMap (fun p => List.replicate p.1 p.2) = spread g counts rows := by
  induction counts generalizing rows with
  | nil => rfl
  | cons c counts ih => rw [pieces, List.map_cons, List.zip_cons_cons, List.flatMap_cons, ih, spread]

theorem length_spread (g : List (List Label) → List Label) (counts : List Nat) (rows : List (List Label)) :
    (spread g counts rows).length = counts.sum := by
  induction counts generalizing rows with
  | nil => rfl
  | cons c counts ih => rw [spread, List.length_append, List.length_replicate, ih, List.sum_cons]

theorem spread_append (g : List (List Label) → List Label) {c₁ c₂ : List Nat} {a b : List (List Label)} (h : c₁.sum = a.length) :
    spread g (c₁ ++ c₂) (a ++ b) = spread g c₁ a ++ spread g c₂ b := by
  induction c₁ generalizing a with
  | nil =>
    obtain rfl : a = [] := List.length_eq_zero_iff.mp h.symm
    rfl
  | cons c c₁ ih =>
    rw [List.sum_cons] at h
    have hdrop : c₁.sum = (a.drop c).length := by
      rw [List.length_drop]
      omega
    rw [List.cons_append, spread, spread, List.take_append_of_le_length (by omega), List.drop_append_of_le_length (by omega),
      ih hdrop, List.append_assoc]

/-- A row that a function makes of some of the rows. -/
theorem mem_spread {g : List (List Label) → List Label} {counts : List Nat} {rows : List (List Label)} {r : List Label}
    (h : r ∈ spread g counts rows) : ∃ some : List (List Label), (∀ r' ∈ some, r' ∈ rows) ∧ r = g some := by
  induction counts generalizing rows with
  | nil => cases h
  | cons c counts ih =>
    rcases List.mem_append.mp h with h | h
    · exact ⟨rows.take c, fun r' hr' => List.mem_of_mem_take hr', List.eq_of_mem_replicate h⟩
    · obtain ⟨some, hsome, rfl⟩ := ih h
      exact ⟨some, fun r' hr' => List.mem_of_mem_drop (hsome r' hr'), rfl⟩

end Tensor

end ModalGraph
