import ModalGraph.Proofs.Tensor.Truth

/-!
# Complements

The complement of a tensor is 1 where the tensor is 0, and 0 where it is not. Operations that move labels around commute with it:
gathering rows, putting tensors side by side, repeating a row. An operation that folds labels is turned into another one, by the law
that the complement turns the one fold into the other. Between tensors of truth values, the complement keeps what is equal and what is
not.
-/

namespace ModalGraph

namespace Label

/-- The truth value that a label is not. -/
def complement (v : Label) : Label :=
  ofBool v.isZero

@[simp] theorem isZero_complement (v : Label) : v.complement.isZero = !v.isZero :=
  isZero_ofBool v.isZero

theorem isTruth_complement (v : Label) : v.complement.IsTruth :=
  isTruth_ofBool v.isZero

@[simp] theorem cast_complement (v : Label) : DType.cast .bool v.complement = v.complement := by
  rw [DType.cast, isZero_complement, Bool.not_not, complement]

@[simp] theorem complement_cast (v : Label) : (DType.cast .bool v).complement = v.complement := by
  rw [DType.cast, complement, complement, isZero_ofBool, Bool.not_not]

@[simp] theorem complement_ofBool (b : Bool) : (ofBool b).complement = ofBool !b := by
  rw [complement, isZero_ofBool]

@[simp] theorem complement_zero : zero.complement = one := by
  rw [complement, isZero_zero]
  rfl

@[simp] theorem complement_one : one.complement = zero := by
  rw [complement, isZero_one]
  rfl

end Label

namespace Tensor

open Label

/-- The tensor of the truth values that the labels of a tensor are not. -/
def complement (x : Tensor) : Tensor :=
  x.map .bool Label.complement

/-- Every label is a truth value. -/
def Truthful (x : Tensor) : Prop :=
  ∀ v ∈ x.data, v.IsTruth

section

variable {x y : Tensor} {rows : List (List Label)} {cols : Int} {d : DType}

@[simp] theorem complement_rows (x : Tensor) : x.complement.rows = x.rows := rfl

@[simp] theorem complement_cols (x : Tensor) : x.complement.cols = x.cols := rfl

@[simp] theorem complement_dtype (x : Tensor) : x.complement.dtype = .bool := rfl

theorem complement_data (x : Tensor) : x.complement.data = x.data.map Label.complement := by
  show x.data.map (fun v => DType.cast .bool v.complement) = _
  simp only [cast_complement]

@[simp] theorem complement_size (x : Tensor) : x.complement.data.size = x.data.size := by
  rw [complement_data, Array.size_map]

@[simp] theorem complement_rowsReach (x : Tensor) : x.complement.rowsReach = x.rowsReach := by
  rw [rowsReach, rowsReach, complement_rows, complement_cols, complement_size]

theorem truthful_complement (x : Tensor) : x.complement.Truthful := by
  intro v hv
  rw [complement_data] at hv
  obtain ⟨u, -, rfl⟩ := Array.mem_map.mp hv
  exact isTruth_complement u

/-! ## Rows -/

theorem row_complement (x : Tensor) (i : Nat) : x.complement.row i = (x.row i).map Label.complement := by
  rw [row, row, complement_data, complement_cols, Array.toList_extract, Array.toList_extract, Array.toList_map, List.extract_eq_take_drop,
    List.extract_eq_take_drop, ← List.map_drop, ← List.map_take]

theorem rowList_complement (x : Tensor) : x.complement.rowList = x.rowList.map (List.map Label.complement) := by
  rw [rowList, rowList, complement_rows, List.map_map]
  exact List.map_congr_left fun i _ => row_complement x i

theorem complement_ofRows (cols : Int) (d : DType) (rows : List (List Label)) :
    (ofRows cols d rows).complement = ofRows cols .bool (rows.map (List.map Label.complement)) := by
  rw [complement, map, ofRows, ofRows, List.length_map, List.map_toArray, ← List.map_flatten]
  simp only [cast_complement]

theorem mem_ofRows {v : Label} : v ∈ (ofRows cols d rows).data ↔ ∃ r ∈ rows, v ∈ r := by
  rw [ofRows, List.mem_toArray, List.mem_flatten]

theorem truthful_ofRows (h : ∀ r ∈ rows, ∀ v ∈ r, v.IsTruth) : (ofRows cols d rows).Truthful := by
  intro v hv
  obtain ⟨r, hr, hvr⟩ := mem_ofRows.mp hv
  exact h r hr v hvr

/-- Rows folded into truth values. -/
theorem truthful_reduceRows (x : Tensor) (f : List Label → Bool) : (x.reduceRows .bool fun r => Label.ofBool (f r)).Truthful := by
  refine truthful_ofRows fun r hr v hv => ?_
  obtain ⟨_, -, rfl⟩ := List.mem_map.mp hr
  exact List.mem_singleton.mp hv ▸ Label.isTruth_ofBool _

/-- A row of a tensor has labels of the tensor. -/
theorem mem_of_mem_row {i : Nat} {v : Label} (h : v ∈ x.row i) : v ∈ x.data := by
  rw [row, Array.toList_extract, List.extract_eq_take_drop] at h
  exact Array.mem_toList_iff.mp (List.mem_of_mem_drop (List.mem_of_mem_take h))

theorem mem_of_mem_rowList {r : List Label} {v : Label} (hr : r ∈ x.rowList) (hv : v ∈ r) : v ∈ x.data := by
  obtain ⟨i, -, rfl⟩ := List.mem_map.mp hr
  exact mem_of_mem_row hv

/-- Rows folded into labels by two functions that the complement turns into each other. -/
theorem reduceRows_complement {f g : List Label → Label} (hfg : ∀ r : List Label, g (r.map Label.complement) = (f r).complement)
    (x : Tensor) : x.complement.reduceRows .bool g = (x.reduceRows .bool f).complement := by
  rw [reduceRows, reduceRows, complement_ofRows, rowList_complement, List.map_map, List.map_map]
  congr 1
  refine List.map_congr_left fun r _ => ?_
  rw [Function.comp_apply, Function.comp_apply, hfg, List.map_singleton, cast_complement, complement_cast]

theorem full_complement (n : Nat) (row : List Label) (d : DType) (hrow : ∀ v ∈ row, (d.cast v).complement = v.complement) :
    (full n row d).complement = full n (row.map Label.complement) .bool := by
  have hlabels : (row.map d.cast).map Label.complement = (row.map Label.complement).map (DType.cast .bool) := by
    rw [List.map_map, List.map_map]
    refine List.map_congr_left fun v hv => ?_
    rw [Function.comp_apply, Function.comp_apply, hrow v hv, cast_complement]
  rw [full_natCast, full_natCast, complement_ofRows, List.map_replicate, hlabels, List.length_map]

/-- There is room for the complement where there is room for the labels. -/
theorem full?_complement (n : Nat) (row : List Label) (d : DType) (hrow : ∀ v ∈ row, (d.cast v).complement = v.complement) :
    full? n (row.map Label.complement) .bool = (full? n row d).map complement := by
  rw [full?, full?, List.length_map, ← full_complement n row d hrow]
  split
  · rfl
  · rfl

/-! ## Gathering -/

theorem row?_complement (x : Tensor) (i : Int) : x.complement.row? i = (x.row? i).map (List.map Label.complement) := by
  rw [row?, row?, complement_cols, complement_size]
  split
  · rw [Option.map_some, complement_data, Array.toList_extract, Array.toList_extract, Array.toList_map, List.extract_eq_take_drop,
      List.extract_eq_take_drop, ← List.map_drop, ← List.map_take]
  · rfl

theorem rowAt_complement (x : Tensor) (i : Int) : x.complement.rowAt i = List.map Label.complement <$> x.rowAt i := by
  rw [rowAt, rowAt, complement_rows, row?_complement]
  split
  · rfl
  · cases x.row? i with
    | none => rfl
    | some r => rfl

theorem gather_complement (x : Tensor) (idx : List Int) : x.complement.gather idx = complement <$> x.gather idx := by
  have hrows : idx.mapM x.complement.rowAt = List.map (List.map Label.complement) <$> idx.mapM x.rowAt := by
    induction idx with
    | nil => rfl
    | cons i idx ih =>
      rw [List.mapM_cons, List.mapM_cons, ih, rowAt_complement]
      cases x.rowAt i with
      | error f => rfl
      | ok r =>
        cases idx.mapM x.rowAt with
        | error f => rfl
        | ok rs => rfl
  rw [gather, gather, complement_cols, hrows]
  cases volume? idx.length x.cols with
  | none => rfl
  | some k =>
    cases idx.mapM x.rowAt with
    | error f => rfl
    | ok rs =>
      show (if _ then _ else _) = _ <$> (if _ then _ else _)
      split
      · exact congrArg Except.ok (complement_ofRows x.cols x.dtype rs).symm
      · rfl

theorem truthful_rowAt (hx : x.Truthful) (i : Int) : EndsIn (fun r => ∀ v ∈ r, v.IsTruth) (fun _ => True) (x.rowAt i) := by
  rw [rowAt]
  split
  · trivial
  · split
    · rename_i r hrow
      rw [row?] at hrow
      split at hrow
      · obtain rfl := Option.some.inj hrow
        intro v hv
        rw [Array.toList_extract, List.extract_eq_take_drop] at hv
        exact hx v (Array.mem_toList_iff.mp (List.mem_of_mem_drop (List.mem_of_mem_take hv)))
      · cases hrow
    · trivial

theorem truthful_gather (hx : x.Truthful) (idx : List Int) : EndsIn Truthful (fun _ => True) (x.gather idx) := by
  rw [gather]
  split
  · trivial
  · refine (EndsIn.mapM fun i _ => truthful_rowAt hx i).bind fun rs hrs => ?_
    split
    · exact truthful_ofRows hrs.2
    · trivial

/-! ## Folding what arrives -/

/-- Two folds that the complement turns into each other. -/
theorem foldRows_complement {f g : Label → Label → Label} (hfg : ∀ a v : Label, g a.complement v.complement = (f a v).complement)
    (init : Label) (w : Nat) (rows : List (List Label)) :
    foldRows g init.complement w (rows.map (List.map Label.complement)) = (foldRows f init w rows).map Label.complement := by
  have hfold : ∀ acc : List Label, (rows.map (List.map Label.complement)).foldl (fun acc r => acc.zipWith g r) (acc.map Label.complement) =
      (rows.foldl (fun acc r => acc.zipWith f r) acc).map Label.complement := by
    induction rows with
    | nil => exact fun _ => rfl
    | cons r rows ih =>
      intro acc
      have hstep : (acc.map Label.complement).zipWith g (r.map Label.complement) = (acc.zipWith f r).map Label.complement := by
        rw [List.zipWith_map, List.map_zipWith]
        simp only [hfg]
      rw [List.map_cons, List.foldl_cons, List.foldl_cons, hstep, ih]
  rw [foldRows, foldRows, ← hfold, constantRow, constantRow, List.map_replicate]

theorem arrivalRow_complement {f g : Label → Label → Label} (hfg : ∀ a v : Label, g a.complement v.complement = (f a v).complement)
    (init empty : Label) (w : Nat) (rows : List (List Label)) :
    arrivalRow g init.complement empty.complement w (rows.map (List.map Label.complement)) =
      (arrivalRow f init empty w rows).map Label.complement := by
  rw [arrivalRow, arrivalRow, List.isEmpty_map, foldRows_complement hfg]
  split
  · rw [constantRow, constantRow, List.map_replicate]
  · rfl

theorem sentTo_map (F : List Label → List Label) (target : List Int) (rows : List (List Label)) (i : Nat) :
    sentTo target (rows.map F) i = (sentTo target rows i).map F := by
  rw [sentTo, sentTo, List.zip_map_right, List.filter_map, List.map_map, List.map_map]
  rfl

/-- Rows folded at their targets by two folds that the complement turns into each other. -/
theorem scatterReduce_complement {f g : Label → Label → Label}
    (hfg : ∀ a v : Label, g a.complement v.complement = (f a v).complement) (init empty : Label) (x : Tensor) (target : List Int)
    (n : Int) : x.complement.scatterReduce target n .bool init.complement empty.complement g =
      complement <$> x.scatterReduce target n .bool init empty f := by
  have hrows : ((arrivals n.toNat target x.complement.rowList).toList.map fun rows =>
      (arrivalRow g init.complement empty.complement x.cols.toNat rows).map (DType.cast .bool)) =
        ((arrivals n.toNat target x.rowList).toList.map fun rows =>
          (arrivalRow f init empty x.cols.toNat rows).map (DType.cast .bool)).map (List.map Label.complement) := by
    rw [RowsAux.arrivals_eq, RowsAux.arrivals_eq, rowList_complement, List.map_map, List.map_map, List.map_map]
    refine List.map_congr_left fun i _ => ?_
    simp only [Function.comp_apply, sentTo_map, arrivalRow_complement hfg, List.map_map]
    refine List.map_congr_left fun v _ => ?_
    rw [Function.comp_apply, Function.comp_apply, cast_complement, complement_cast]
  rw [scatterReduce, scatterReduce, complement_rows, complement_cols, complement_rowsReach, hrows, ← complement_ofRows x.cols .bool]
  split
  · rfl
  · split
    · rfl
    · split
      · rfl
      · split
        · rfl
        · rfl

theorem truthful_scatterReduce (x : Tensor) (target : List Int) (n : Int) (init empty : Label) (f : Label → Label → Label) :
    EndsIn Truthful (fun _ => True) (x.scatterReduce target n .bool init empty f) := by
  rw [scatterReduce]
  split
  · trivial
  · split
    · trivial
    · split
      · trivial
      · split
        · trivial
        · refine truthful_ofRows fun r hr v hv => ?_
          obtain ⟨rows, -, rfl⟩ := List.mem_map.mp hr
          obtain ⟨u, -, rfl⟩ := List.mem_map.mp hv
          exact isTruth_ofBool _

/-! ## Side by side -/

theorem rowsFault?_complement (rows : Int) (i : Nat) (ts : List Tensor) :
    rowsFault? rows i (ts.map complement) = rowsFault? rows i ts := by
  induction ts generalizing i with
  | nil => rfl
  | cons t ts ih => rw [List.map_cons, rowsFault?, rowsFault?, complement_rows, ih]

theorem foldl_sideBySide_complement (rows : List (List Label)) (ts : List Tensor) :
    (ts.map complement).foldl (fun rows u => sideBySide rows u.rowList) (rows.map (List.map Label.complement)) =
      (ts.foldl (fun rows u => sideBySide rows u.rowList) rows).map (List.map Label.complement) := by
  induction ts generalizing rows with
  | nil => rfl
  | cons t ts ih =>
    have hstep : sideBySide (rows.map (List.map Label.complement)) t.complement.rowList =
        (sideBySide rows t.rowList).map (List.map Label.complement) := by
      rw [sideBySide, sideBySide, rowList_complement, List.zipWith_map, List.map_zipWith]
      simp only [List.map_append]
    rw [List.map_cons, List.foldl_cons, List.foldl_cons, hstep, ih]

/-- Complements side by side, unless the number of rows is negative and there are no rows to take the labels from. -/
theorem concat_complement {ts : List Tensor} (h : ∀ t ∈ ts, 0 ≤ t.rows) : concat (ts.map complement) = complement <$> concat ts := by
  cases ts with
  | nil => rfl
  | cons t rest =>
    have hcols : ∀ us : List Tensor, (us.map complement).foldr (fun u k => u.cols + k) 0 = us.foldr (fun u k => u.cols + k) 0 := by
      intro us
      rw [List.foldr_map]
      rfl
    have hreach : ((t :: rest).map complement).all rowsReach = (t :: rest).all rowsReach := by
      rw [List.all_map]
      simp only [Function.comp_def, complement_rowsReach]
    have hdtype : t.complement.dtype.join ((rest.map complement).map Tensor.dtype) = .bool := by
      rw [DType.join, if_pos]
      · rfl
      · simp [List.all_map]
    have hfault := rowsFault?_complement t.rows 0 (t :: rest)
    have htotal := hcols (t :: rest)
    rw [List.map_cons] at hreach hfault htotal ⊢
    rw [concat, concat]
    dsimp only
    rw [complement_rows, hfault, htotal, hreach, hdtype]
    cases rowsFault? t.rows 0 (t :: rest) with
    | some fault => rfl
    | none =>
      dsimp only
      cases volume? t.rows (word ((t :: rest).foldr (fun u k => u.cols + k) 0)) with
      | none => rfl
      | some k =>
        dsimp only
        have hneg : ¬t.rows < 0 := Int.not_lt.mpr (h t List.mem_cons_self)
        rw [if_neg hneg, if_neg hneg]
        split
        · rename_i hroom
          rw [rowList_complement, foldl_sideBySide_complement]
          exact congrArg (fun y : Tensor => Except.ok { y with rows := t.rows }) (complement_ofRows _ _ _).symm
        · rfl

theorem truthful_concat {ts : List Tensor} (h : ∀ t ∈ ts, 0 ≤ t.rows) (hts : ∀ t ∈ ts, t.Truthful) :
    EndsIn (fun y => Truthful y ∧ ∀ t ∈ ts.head?, y.rows = t.rows) (fun _ => True) (concat ts) := by
  cases ts with
  | nil => trivial
  | cons t rest =>
    -- Labels put side by side are labels of some tensor.
    have hfold : ∀ (us : List Tensor) (rows : List (List Label)), (∀ u ∈ us, u.Truthful) → (∀ r ∈ rows, ∀ v ∈ r, v.IsTruth) →
        ∀ r ∈ us.foldl (fun rows u => sideBySide rows u.rowList) rows, ∀ v ∈ r, v.IsTruth := by
      intro us
      induction us with
      | nil => exact fun rows _ hrows => hrows
      | cons u us ih =>
        intro rows hus hrows
        refine ih _ (fun u' hu' => hus u' (List.mem_cons_of_mem _ hu')) fun r hr v hv => ?_
        have hr' : r ∈ rows.zipWith (· ++ ·) u.rowList := hr
        rw [← List.map_uncurry_zip_eq_zipWith] at hr'
        obtain ⟨⟨a, b⟩, hab, rfl⟩ := List.mem_map.mp hr'
        rcases List.mem_append.mp hv with hv | hv
        · exact hrows a (List.of_mem_zip hab).1 v hv
        · exact hus u List.mem_cons_self v (mem_of_mem_rowList (List.of_mem_zip hab).2 hv)
    have hlabels := hfold rest t.rowList (fun u hu => hts u (List.mem_cons_of_mem _ hu)) fun r hr v hv =>
      hts t List.mem_cons_self v (mem_of_mem_rowList hr hv)
    rw [concat]
    dsimp only
    split
    · trivial
    · split
      · trivial
      · rw [if_neg (Int.not_lt.mpr (h t List.mem_cons_self))]
        split
        · have hmade : (ofRows 0 .bool _).Truthful := truthful_ofRows hlabels
          refine ⟨hmade, fun u hu => ?_⟩
          obtain rfl := Option.some.inj hu
          rfl
        · trivial

/-! ## Equal labels -/

/-- Truth values are equal if their complements are. -/
theorem equal_complement (hx : x.Truthful) (hy : y.Truthful) : x.complement.equal y.complement = x.equal y := by
  have hall : (((x.data.toList.map Label.complement).zip (y.data.toList.map Label.complement)).all fun p => p.1.same p.2) =
      ((x.data.toList.zip y.data.toList).all fun p => p.1.same p.2) := by
    rw [List.zip_map, List.all_map, Bool.eq_iff_iff, List.all_eq_true, List.all_eq_true]
    refine forall₂_congr fun p hp => ?_
    obtain ⟨hu, hv⟩ := List.of_mem_zip hp
    have hu' := hx _ (Array.mem_toList_iff.mp hu)
    have hv' := hy _ (Array.mem_toList_iff.mp hv)
    rw [Function.comp_apply, Prod.map_fst, Prod.map_snd, same_iff (isTruth_complement _) (isTruth_complement _), same_iff hu' hv',
      isZero_complement, isZero_complement, Bool.not_inj_iff]
  rw [equal, equal, complement_rows, complement_rows, complement_cols, complement_cols, complement_size, complement_size, complement_data,
    complement_data, Array.toList_map, Array.toList_map]
  exact congrArg _ hall

end

end Tensor

end ModalGraph
