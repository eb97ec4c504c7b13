import ModalGraph.Proofs.Operator.Width
import ModalGraph.Proofs.Tensor.Decoded
import ModalGraph.Proofs.Tensor.Results

/-!
# Tensors put side by side in groups

Tensors can be put side by side in one go or group by group, the result is the same (`Tensor.concatGroups_ok`), and each part can be
cut out of it again (`Tensor.slice_concat`). Row by row the labels are appended to each other, so what there is to show is about the
shape and the domain: the domain of the result is that of the parts if they have it in common and `float64` otherwise, and it comes out
the same for any groups (`DType.join_append`, `DType.join_join`); the widths are added up in words, which does not mind groups either,
but a width too great for words comes out negative, and then there is no cutting out.

A tensor that has been decoded may have a negative height, with as many labels as its shape calls for in words
(`Tensor.complete_of_decode`).
Such tensors have no rows to append: side by side they are as many zeros, in any groups.
-/

namespace ModalGraph

/-! ## Domains in common -/

namespace DType

theorem join_append (d : DType) (ds es : List DType) : d.join (ds ++ es) = (d.join ds).join es := by
  unfold join
  rw [List.all_append]
  cases hds : ds.all (· == d) with
  | true => rw [Bool.true_and, if_pos rfl]
  | false =>
    rw [Bool.false_and, if_neg Bool.false_ne_true]
    exact (ite_self _).symm

/-- Domains in common with a group are in common with all of the group. -/
theorem join_join (d e : DType) (es : List DType) : d.join [e.join es] = d.join (e :: es) := by
  unfold join
  cases hes : es.all (· == e) with
  | true =>
    rw [if_pos rfl]
    by_cases he : e = d
    · subst he
      simp [hes]
    · simp [he]
  | false =>
    have hne : (e :: es).all (· == d) = false := by
      by_cases he : e = d
      · subst he
        simpa using hes
      · simp [he]
    rw [hne, if_neg Bool.false_ne_true, if_neg Bool.false_ne_true]
    cases d <;> rfl

end DType

namespace Tensor

/-- The domain of tensors side by side. -/
def jointType : List Tensor → DType
  | [] => .float64
  | t :: ts => t.dtype.join (ts.map Tensor.dtype)

/-- A tensor of the domain of a group does for the group. -/
theorem jointType_splice (before after : List Tensor) {group : List Tensor} (h : group ≠ []) {x : Tensor}
    (hx : x.dtype = jointType group) : jointType (before ++ x :: after) = jointType (before ++ group ++ after) := by
  cases group with
  | nil => exact absurd rfl h
  | cons g gs =>
    cases before with
    | nil =>
      rw [List.nil_append, List.nil_append, List.cons_append, jointType, jointType, hx, jointType, List.map_append, DType.join_append]
    | cons t ts =>
      have hgroup : (x :: after).map Tensor.dtype = [g.dtype.join (gs.map Tensor.dtype)] ++ after.map Tensor.dtype := by
        rw [List.map_cons, hx]
        rfl
      rw [List.cons_append, List.cons_append, List.cons_append, jointType, jointType, List.map_append, hgroup, List.map_append,
        List.map_append, DType.join_append, DType.join_append, DType.join_append, DType.join_append, DType.join_join]
      rfl

/-! ## Side by side -/

/-- As many labels as the shape calls for, counted in words. A tensor of a negative height can have columns only so. -/
def Complete (t : Tensor) : Prop :=
  word (t.rows * t.cols) = t.data.size

/-- How many labels some tensors have. -/
def labelCount (ts : List Tensor) : Nat :=
  (ts.map fun t => t.data.size).sum

/-- Tensors of one height side by side, row by row. Of a negative height there are no rows, and all labels are zero. -/
def joined (n : Int) (ts : List Tensor) : Tensor :=
  if n < 0 then ⟨n, word (ts.map Tensor.cols).sum, jointType ts, Array.replicate (labelCount ts) Label.zero⟩
  else
    { ofRows (word (ts.map Tensor.cols).sum) (jointType ts) ((List.range n.toNat).map fun i => (ts.map fun t => t.row i).flatten) with
      rows := n }

/-- A tensor of a height: if there are rows, it has as many labels as its shape calls for, and also in words if the height is
negative. -/
structure Level (n : Int) (t : Tensor) : Prop where
  rows_eq : t.rows = n
  complete : n < 0 → t.Complete
  size_eq : 0 < n → (t.data.size : Int) = n * t.cols

/-- Tensors that go side by side at a height: each has this height, and there is room for all labels. -/
structure Alongside (n : Int) (ts : List Tensor) : Prop where
  level : ∀ t ∈ ts, Level n t
  room : n ≠ 0 → labelCount ts ≤ capacity

namespace GroupingAux

section

variable {n : Int} {before group after ts : List Tensor} {t x y : Tensor}

@[simp]
theorem joined_rows (n : Int) (ts : List Tensor) : (joined n ts).rows = n := by
  unfold joined
  split <;> rfl

@[simp]
theorem joined_cols (n : Int) (ts : List Tensor) : (joined n ts).cols = word (ts.map Tensor.cols).sum := by
  unfold joined
  split <;> rfl

@[simp]
theorem joined_dtype (n : Int) (ts : List Tensor) : (joined n ts).dtype = jointType ts := by
  unfold joined
  split <;> rfl

@[simp]
theorem labelCount_append (ts us : List Tensor) : labelCount (ts ++ us) = labelCount ts + labelCount us := by
  rw [labelCount, List.map_append, List.sum_append]
  rfl

@[simp]
theorem labelCount_cons (t : Tensor) (ts : List Tensor) : labelCount (t :: ts) = t.data.size + labelCount ts := by
  rw [labelCount, List.map_cons, List.sum_cons]
  rfl

theorem shaped_of_level (h : Level n t) (hn : 0 < n) : t.Shaped n.toNat t.cols.toNat := by
  have hcols : 0 ≤ t.cols := by
    by_contra hneg
    have := Int.mul_neg_of_pos_of_neg hn (Int.not_le.mp hneg)
    have := h.size_eq hn
    omega
  have hformed : t.WellFormed := ⟨h.rows_eq ▸ hn.le, hcols, by rw [h.size_eq hn, h.rows_eq]⟩
  have hshaped := hformed.shaped (Int.toNat_of_nonneg hcols).symm
  rwa [h.rows_eq] at hshaped

theorem sum_cols_of_level (h : ∀ t ∈ ts, Level n t) (hn : 0 < n) : (ts.map Tensor.cols).sum = totalWidth ts := by
  refine ResultsAux.sum_toNat fun t ht => ?_
  rw [(shaped_of_level (h t ht) hn).cols_eq]
  exact Int.natCast_nonneg _

/-- The labels of tensors side by side are counted by their widths together. -/
theorem labelCount_of_size (h : ∀ t ∈ ts, (t.data.size : Int) = n * t.cols) : (labelCount ts : Int) = n * (ts.map Tensor.cols).sum := by
  induction ts with
  | nil => exact (Int.mul_zero n).symm
  | cons t ts ih =>
    obtain ⟨ht, hts⟩ := List.forall_mem_cons.mp h
    rw [labelCount_cons, Int.natCast_add, ht, ih hts, List.map_cons, List.sum_cons, Int.mul_add]

theorem labelCount_of_level (h : ∀ t ∈ ts, Level n t) (hn : 0 < n) : labelCount ts = n.toNat * totalWidth ts := by
  have hcount := labelCount_of_size fun t ht => (h t ht).size_eq hn
  rw [sum_cols_of_level h hn, ← Int.toNat_of_nonneg hn.le] at hcount
  exact_mod_cast hcount

/-- Also in words, the labels are counted by the widths together. -/
theorem word_labelCount (h : ∀ t ∈ ts, Level n t) (hn : n < 0) : word (n * (ts.map Tensor.cols).sum) = word (labelCount ts) := by
  induction ts with
  | nil => rw [List.map_nil, List.sum_nil, Int.mul_zero]; rfl
  | cons t ts ih =>
    obtain ⟨ht, hts⟩ := List.forall_mem_cons.mp h
    have hsize : word (n * t.cols) = t.data.size := ht.rows_eq ▸ ht.complete hn
    rw [List.map_cons, List.sum_cons, labelCount_cons, Int.natCast_add]
    calc word (n * (t.cols + (ts.map Tensor.cols).sum))
        = word (word (n * t.cols) + word (n * (ts.map Tensor.cols).sum)) := by
          rw [Int.mul_add]
          exact (Int.bmod_add_bmod.trans Int.add_bmod_bmod).symm
      _ = word (t.data.size + word (labelCount ts)) := by rw [hsize, ih hts]
      _ = word (t.data.size + labelCount ts) := Int.add_bmod_bmod

/-- With rows there, the width is bounded by the room for the labels. -/
theorem totalWidth_le (h : Alongside n ts) (hn : 0 < n) : n.toNat * totalWidth ts ≤ capacity ∧ totalWidth ts ≤ capacity := by
  have hfits := h.room hn.ne'
  rw [labelCount_of_level h.level hn] at hfits
  exact ⟨hfits, (Nat.le_mul_of_pos_left _ (by omega)).trans hfits⟩

/-- With rows there, tensors side by side are made from rows as wide as all of them. -/
theorem joined_eq_ofRows (h : Alongside n ts) (hn : 0 < n) : joined n ts =
    ofRows (totalWidth ts) (jointType ts) ((List.range n.toNat).map fun i => (ts.map fun t => t.row i).flatten) := by
  rw [joined, if_neg hn.not_gt, sum_cols_of_level h.level hn, word_natCast (by have := totalWidth_le h hn; omega)]
  simp only [ofRows, List.length_map, List.length_range, Int.toNat_of_nonneg hn.le]

theorem length_rows_of_alongside (h : Alongside n ts) {i : Nat} (hi : i < n.toNat) :
    (ts.map fun t => t.row i).flatten.length = totalWidth ts :=
  length_sideBySide (fun _ ht => ⟨_, shaped_of_level (h.level _ ht) (by omega)⟩) hi

theorem joined_shaped (h : Alongside n ts) (hn : 0 < n) : (joined n ts).Shaped n.toNat (totalWidth ts) := by
  rw [joined_eq_ofRows h hn]
  exact ofRows_range_shaped fun i hi => length_rows_of_alongside h hi

theorem row_joined (h : Alongside n ts) {i : Nat} (hi : i < n.toNat) : (joined n ts).row i = (ts.map fun t => t.row i).flatten := by
  rw [joined_eq_ofRows h (by omega)]
  exact row_ofRows_range (fun i hi => length_rows_of_alongside h hi) hi

/-- Of a negative height, tensors side by side call in words for as many labels as they have. -/
theorem word_of_neg (h : Alongside n ts) (hn : n < 0) : word (n * word (ts.map Tensor.cols).sum) = labelCount ts := by
  have hroom := h.room hn.ne
  calc word (n * word (ts.map Tensor.cols).sum) = word (n * (ts.map Tensor.cols).sum) := Int.mul_bmod_bmod
    _ = word (labelCount ts) := word_labelCount h.level hn
    _ = labelCount ts := word_natCast (by omega)

theorem volume?_of_neg (h : Alongside n ts) (hn : n < 0) : volume? n (word (ts.map Tensor.cols).sum) = some (labelCount ts) := by
  have hroom := h.room hn.ne
  rw [volume?, word_of_neg h hn, if_pos ⟨Int.natCast_nonneg _, by exact_mod_cast hroom⟩]
  rfl

theorem size_joined (h : Alongside n ts) (hn : n ≠ 0) : (joined n ts).data.size = labelCount ts := by
  rcases lt_or_gt_of_ne hn with hn | hn
  · rw [joined, if_pos hn, Array.size_replicate]
  · rw [(joined_shaped h hn).size_eq, labelCount_of_level h.level hn]

theorem foldl_sideBySide_nil (ts : List Tensor) : ts.foldl (fun rows u => sideBySide rows u.rowList) [] = [] := by
  induction ts with
  | nil => rfl
  | cons t ts ih => rwa [List.foldl_cons, sideBySide, List.zipWith_nil_left]

theorem joined_zero (ts : List Tensor) : joined 0 ts = ⟨0, word (ts.map Tensor.cols).sum, jointType ts, #[]⟩ := rfl

/-- Tensors that go side by side are put side by side. -/
theorem concat_eq_joined (hne : ts ≠ []) (h : Alongside n ts) : concat ts = .ok (joined n ts) := by
  cases ts with
  | nil => exact absurd rfl hne
  | cons t rest =>
    have hrows : t.rows = n := (h.level t List.mem_cons_self).rows_eq
    have hfault : rowsFault? n 0 (t :: rest) = none := (ResultsAux.rowsFault?_eq_none_iff 0).mpr fun u hu => (h.level u hu).rows_eq
    rcases lt_trichotomy n 0 with hn | rfl | hn
    · rw [concat]
      dsimp only
      rw [hrows, hfault, ResultsAux.foldr_add]
      dsimp only
      rw [volume?_of_neg h hn, joined, if_pos hn]
      exact if_pos hn
    · have hreach : (t :: rest).all rowsReach = true := by
        rw [List.all_eq_true]
        intro u hu
        rw [rowsReach, (h.level u hu).rows_eq]
        rfl
      have hvolume : volume? 0 (word ((t :: rest).map Tensor.cols).sum) = some 0 := by
        rw [volume?, Int.zero_mul]
        rfl
      have hrowList : t.rowList = [] := by
        rw [rowList, hrows]
        rfl
      rw [joined_zero, concat]
      dsimp only
      rw [hrows, hfault, ResultsAux.foldr_add]
      dsimp only
      have hroom : (t :: rest).all rowsReach = true ∧ 0 * ((t :: rest).map Tensor.cols).sum ≤ ((0 : Nat) : Int) :=
        ⟨hreach, by rw [Int.zero_mul]; rfl⟩
      rw [hvolume]
      dsimp only
      rw [if_neg (Int.lt_irrefl 0), if_pos hroom, hrowList, foldl_sideBySide_nil]
      rfl
    · have hall : ∀ u ∈ t :: rest, ∃ w, u.Shaped n.toNat w := fun u hu => ⟨_, shaped_of_level (h.level u hu) hn⟩
      obtain ⟨hfits, hwidth⟩ := totalWidth_le h hn
      rw [concat_eq hall hfits (Nat.lt_of_le_of_lt hwidth (by decide)), joined_eq_ofRows h hn]
      rfl

/-- Tensors that are put side by side have the height of the result, and if there are rows, the labels of the result are those of their
rows. -/
theorem concat_inv (h : concat ts = .ok y) : (∀ t ∈ ts, t.rows = y.rows) ∧ (0 < y.rows → (∀ t ∈ ts, t.rowsReach = true) ∧
    ∃ t rest, ts = t :: rest ∧ y.data = (rest.foldl (fun rows u => sideBySide rows u.rowList) t.rowList).flatten.toArray) := by
  cases ts with
  | nil => cases h
  | cons t rest =>
    rw [concat] at h
    dsimp only at h
    split at h
    · cases h
    rename_i hfault
    have hrows := (ResultsAux.rowsFault?_eq_none_iff 0).mp hfault
    split at h
    · cases h
    split at h
    · rename_i hneg
      obtain rfl := Except.ok.inj h
      exact ⟨hrows, fun hpos => absurd hneg (Int.not_lt.mpr (Int.le_of_lt hpos))⟩
    split at h
    · rename_i hreach
      obtain rfl := Except.ok.inj h
      exact ⟨hrows, fun _ => ⟨List.all_eq_true.mp hreach.1, t, rest, rfl, rfl⟩⟩
    · cases h

/-- What is put side by side goes side by side, if there is room for the result. -/
theorem alongside_of_concat (h : concat ts = .ok y) (hroom : 0 < y.rows → y.data.size ≤ capacity)
    (hlow : y.rows < 0 → Alongside y.rows ts) : Alongside y.rows ts := by
  obtain ⟨hrows, hlabels⟩ := concat_inv h
  rcases lt_trichotomy y.rows 0 with hn | hn | hn
  · exact hlow hn
  · exact ⟨fun t ht => ⟨hrows t ht, fun hneg => absurd hn hneg.ne, fun hpos => absurd hn hpos.ne'⟩, fun hne => absurd hn hne⟩
  obtain ⟨hreach, t, rest, rfl, hdata⟩ := hlabels hn
  have hlevel : ∀ u ∈ t :: rest, Level y.rows u := by
    intro u hu
    refine ⟨hrows u hu, fun hneg => absurd hn hneg.not_gt, fun _ => ?_⟩
    have hreach := hreach u hu
    rw [rowsReach, hrows u hu, decide_eq_false (Int.not_le.mpr hn), Bool.false_or, beq_iff_eq] at hreach
    exact hreach
  have hshaped : ∀ u ∈ t :: rest, ∃ w, u.Shaped y.rows.toNat w := fun u hu => ⟨_, shaped_of_level (hlevel u hu) hn⟩
  refine ⟨hlevel, fun _ => ?_⟩
  -- The labels of the result are those of all rows, each as wide as all parts together.
  have hcount : y.data.size = y.rows.toNat * totalWidth (t :: rest) := by
    obtain ⟨w, ht⟩ := hshaped t List.mem_cons_self
    rw [hdata, List.size_toArray, rowList_eq ht, RowsAux.foldl_sideBySide fun u hu => hshaped u (List.mem_cons_of_mem _ hu),
      RowsAux.length_flatten_of_width, List.length_map, List.length_range]
    intro r hr
    obtain ⟨i, hi, rfl⟩ := List.mem_map.mp hr
    exact length_sideBySide hshaped (List.mem_range.mp hi)
  rw [labelCount_of_level hlevel hn, ← hcount]
  exact hroom hn

/-! ### A group in place of its tensors -/

theorem joined_level (h : Alongside n ts) : Level n (joined n ts) where
  rows_eq := joined_rows n ts
  complete hn := by rw [Complete, size_joined h hn.ne, joined_rows, joined_cols, word_of_neg h hn]
  size_eq hn := by
    rw [(joined_shaped h hn).size_eq, (joined_shaped h hn).cols_eq, Int.natCast_mul, Int.toNat_of_nonneg hn.le]

theorem labelCount_splice (hgroup : Alongside n group) (hn : n ≠ 0) :
    labelCount (before ++ joined n group :: after) = labelCount (before ++ group ++ after) := by
  simp only [labelCount_append, labelCount_cons, size_joined hgroup hn, Nat.add_assoc]

/-- A group put side by side goes alongside other tensors where the tensors of the group do. -/
theorem alongside_splice (hgroup : Alongside n group) :
    Alongside n (before ++ joined n group :: after) ↔ Alongside n (before ++ group ++ after) := by
  constructor
  · rintro ⟨hlevel, hroom⟩
    simp only [List.forall_mem_append, List.forall_mem_cons] at hlevel
    refine ⟨?_, fun hn => labelCount_splice hgroup hn ▸ hroom hn⟩
    simp only [List.forall_mem_append]
    exact ⟨⟨hlevel.1, hgroup.level⟩, hlevel.2.2⟩
  · rintro ⟨hlevel, hroom⟩
    simp only [List.forall_mem_append] at hlevel
    refine ⟨?_, fun hn => (labelCount_splice hgroup hn).symm ▸ hroom hn⟩
    simp only [List.forall_mem_append, List.forall_mem_cons]
    exact ⟨hlevel.1.1, joined_level hgroup, hlevel.2⟩

/-- A group of tensors that go side by side goes side by side by itself. -/
theorem alongside_group (h : Alongside n (before ++ group ++ after)) : Alongside n group := by
  refine ⟨fun t ht => h.level t (List.mem_append_left _ (List.mem_append_right _ ht)), fun hn => ?_⟩
  have hroom := h.room hn
  simp only [labelCount_append] at hroom
  omega

/-- A tensor that goes alongside others has no more labels than there is room for. -/
theorem size_le_of_alongside (h : Alongside n (before ++ x :: after)) (hn : n ≠ 0) : x.data.size ≤ capacity := by
  have hroom := h.room hn
  simp only [labelCount_append, labelCount_cons] at hroom
  omega

/-- A group in place of its tensors makes no difference to what is put side by side. -/
theorem joined_splice (hne : group ≠ []) (hgroup : Alongside n group) :
    joined n (before ++ joined n group :: after) = joined n (before ++ group ++ after) := by
  have hcols : word ((before ++ joined n group :: after).map Tensor.cols).sum =
      word ((before ++ group ++ after).map Tensor.cols).sum := by
    simp only [List.map_append, List.map_cons, List.sum_append, List.sum_cons, joined_cols]
    generalize (before.map Tensor.cols).sum = b, (group.map Tensor.cols).sum = g, (after.map Tensor.cols).sum = a
    calc word (b + (word g + a)) = word (b + a + word g) := by rw [Int.add_comm (word g), Int.add_assoc]
      _ = word (b + a + g) := Int.add_bmod_bmod
      _ = word (b + g + a) := by rw [Int.add_right_comm]
  have htype := jointType_splice before after hne (joined_dtype n group)
  rcases Int.lt_or_le n 0 with hn | hn
  · rw [joined, if_pos hn, hcols, htype, labelCount_splice hgroup hn.ne, joined, if_pos hn]
  · have hrows : ((List.range n.toNat).map fun i => ((before ++ joined n group :: after).map fun t => t.row i).flatten) =
        (List.range n.toNat).map fun i => ((before ++ group ++ after).map fun t => t.row i).flatten := by
      refine List.map_congr_left fun i hi => ?_
      rw [List.map_append, List.map_cons, row_joined hgroup (List.mem_range.mp hi)]
      simp only [List.map_append, List.flatten_append, List.flatten_cons, List.append_assoc]
    rw [joined, if_neg hn.not_gt, hcols, htype, hrows, joined, if_neg hn.not_gt]

end

end GroupingAux

open GroupingAux

/-- A group can be put side by side before it is put alongside other tensors, or its tensors can be put there one by one. -/
theorem concat_splice {before group after : List Tensor} {y : Tensor} (hne : group ≠ []) (hroom : y.data.size ≤ capacity)
    (hlow : y.rows < 0 → Alongside y.rows (before ++ group ++ after)) :
    (∃ x, concat group = .ok x ∧ concat (before ++ x :: after) = .ok y) ↔ concat (before ++ group ++ after) = .ok y := by
  constructor
  · rintro ⟨x, hx, hy⟩
    have hrows : x.rows = y.rows := (concat_inv hy).1 x (by simp)
    have hall : Alongside y.rows (before ++ x :: after) := by
      refine alongside_of_concat hy (fun _ => hroom) fun hneg => ?_
      have hgroup := alongside_group (hlow hneg)
      obtain rfl := Except.ok.inj (hx.symm.trans (concat_eq_joined hne hgroup))
      exact (alongside_splice hgroup).mpr (hlow hneg)
    have hgroup : Alongside y.rows group := by
      refine hrows ▸ alongside_of_concat hx (fun hn => size_le_of_alongside hall (hrows ▸ hn.ne')) fun hneg => ?_
      exact hrows ▸ alongside_group (hlow (hrows ▸ hneg))
    obtain rfl := Except.ok.inj (hx.symm.trans (concat_eq_joined hne hgroup))
    rw [← hy, concat_eq_joined (by simp) hall, joined_splice hne hgroup]
    exact concat_eq_joined (by simp [hne]) ((alongside_splice hgroup).mp hall)
  · intro hy
    have hall := alongside_of_concat hy (fun _ => hroom) hlow
    have hgroup := alongside_group hall
    refine ⟨joined y.rows group, concat_eq_joined hne hgroup, ?_⟩
    rw [concat_eq_joined (by simp) ((alongside_splice hgroup).mpr hall), joined_splice hne hgroup,
      ← concat_eq_joined (by simp [hne]) hall, hy]

/-- Tensors are put side by side group by group as in one go. -/
theorem concat_groups {groups : List (List Tensor)} {y : Tensor} (before : List Tensor) (hne : ∀ group ∈ groups, group ≠ [])
    (hroom : y.data.size ≤ capacity) (hlow : y.rows < 0 → Alongside y.rows (before ++ groups.flatten)) :
    (∃ xs, groups.mapM concat = .ok xs ∧ concat (before ++ xs) = .ok y) ↔ concat (before ++ groups.flatten) = .ok y := by
  induction groups generalizing before with
  | nil => exact ⟨fun ⟨_, hxs, hy⟩ => by cases hxs; exact hy, fun hy => ⟨[], rfl, hy⟩⟩
  | cons group groups ih =>
    obtain ⟨hgroup, hgroups⟩ := List.forall_mem_cons.mp hne
    rw [List.flatten_cons, ← List.append_assoc] at hlow ⊢
    rw [List.mapM_cons, ← concat_splice hgroup hroom hlow]
    simp only [exists_bind_ok, exists_pure_ok]
    refine exists_congr fun x => and_congr_right fun hx => ?_
    -- The group, put side by side, is one more tensor that stands before the other groups.
    have hlow' : y.rows < 0 → Alongside y.rows (before ++ [x] ++ groups.flatten) := by
      intro hneg
      have hjoined := alongside_group (hlow hneg)
      obtain rfl := Except.ok.inj (hx.symm.trans (concat_eq_joined hgroup hjoined))
      rw [List.append_assoc]
      exact (alongside_splice hjoined).mpr (hlow hneg)
    have hrest := ih (before ++ [x]) hgroups hlow'
    simpa only [List.append_assoc, List.singleton_append] using hrest

/-- Tensors put side by side group by group, and then the groups. -/
def concatGroups (groups : List (List Tensor)) : Except Failure Tensor :=
  groups.mapM concat >>= concat

theorem concatGroups_ok {groups : List (List Tensor)} {y : Tensor} (hne : ∀ group ∈ groups, group ≠ [])
    (hroom : y.data.size ≤ capacity) (hlow : y.rows < 0 → Alongside y.rows groups.flatten) :
    concatGroups groups = .ok y ↔ concat groups.flatten = .ok y := by
  have hgroups := concat_groups [] hne hroom hlow
  simp only [List.nil_append] at hgroups
  rw [← hgroups, concatGroups]
  exact ⟨bind_ok, fun ⟨xs, hxs, hy⟩ => by rw [hxs]; exact hy⟩

/-- Tensors of a negative height go side by side if each has as many labels as its shape calls for in words, and there is room for all
labels. -/
theorem alongside_of_complete {n : Int} {ts : List Tensor} (hn : n < 0) (h : ∀ t ∈ ts, t.rows = n ∧ t.Complete)
    (hroom : labelCount ts ≤ capacity) : Alongside n ts :=
  ⟨fun t ht => ⟨(h t ht).1, fun _ => (h t ht).2, fun hpos => absurd hn hpos.not_gt⟩, fun _ => hroom⟩

/-- Decoded tensors have as many labels as their shapes call for in words. -/
theorem complete_of_decode {bs : Bytes} {x : Tensor} (h : decode bs = .ok x) (hsize : x.data.size < 2 ^ 63) : x.Complete := by
  obtain ⟨-, -, hcount, -⟩ := decode_ok h
  have hpow : ((Nat.pow 2 64 : Nat) : Int) = 2 ^ 64 := rfl
  have hword : ∀ n : Int, (toWord n : Int) = n % 2 ^ 64 := fun n => Int.toNat_of_nonneg (Int.emod_nonneg n (by decide))
  have hrest : x.rows * x.cols % 2 ^ 64 = x.data.size := by
    rw [hcount, Int.natCast_mod, Int.natCast_mul, hword, hword, Int.mul_emod]
    rfl
  rw [Complete, word, Int.bmod_def, hpow, hrest]
  exact if_pos (by omega)

/-! ## Cutting a part out -/

/-- A tensor with as many labels as its shape calls for. One of a negative height is without columns. -/
structure Filled (t : Tensor) : Prop where
  cols_nonneg : 0 ≤ t.cols
  size_eq : (t.data.size : Int) = t.rows * t.cols

theorem WellFormed.filled {t : Tensor} (h : t.WellFormed) : t.Filled :=
  ⟨h.2.1, h.2.2⟩

section

variable {n : Int} {before after ts : List Tensor} {t y : Tensor}

theorem Filled.cols_eq_zero (h : t.Filled) (hneg : t.rows < 0) : t.cols = 0 := by
  by_contra hne
  have hcols : 0 < t.cols := by
    have := h.cols_nonneg
    omega
  have hsize := h.size_eq
  have := Int.mul_neg_of_neg_of_pos hneg hcols
  omega

theorem Filled.level (h : t.Filled) (hrows : t.rows = n) : Level n t := by
  refine ⟨hrows, fun hneg => ?_, fun _ => hrows ▸ h.size_eq⟩
  rw [Complete, h.size_eq, h.cols_eq_zero (hrows ▸ hneg), Int.mul_zero]
  rfl

theorem alongside_of_filled (hts : ∀ t ∈ ts, t.Filled ∧ t.rows = n) (hroom : n * (ts.map Tensor.cols).sum ≤ capacity) :
    Alongside n ts := by
  refine ⟨fun t ht => (hts t ht).1.level (hts t ht).2, fun _ => ?_⟩
  rw [← labelCount_of_size fun t ht => (hts t ht).2 ▸ (hts t ht).1.size_eq] at hroom
  exact_mod_cast hroom

theorem sum_cols_nonneg (h : ∀ t ∈ ts, t.Filled) : 0 ≤ (ts.map Tensor.cols).sum := by
  rw [ResultsAux.sum_toNat fun t ht => (h t ht).cols_nonneg]
  exact Int.natCast_nonneg _

/-- Tensors of one height are put side by side in any groups if there is room for all labels. -/
theorem concatGroups_of_filled {groups : List (List Tensor)} (hsome : groups ≠ []) (hne : ∀ group ∈ groups, group ≠ [])
    (hts : ∀ t ∈ groups.flatten, t.Filled ∧ t.rows = n) (hroom : n * (groups.flatten.map Tensor.cols).sum ≤ capacity) :
    ∃ y, concatGroups groups = .ok y ∧ concat groups.flatten = .ok y := by
  have hflat : groups.flatten ≠ [] := by
    obtain ⟨group, hgroup⟩ := List.exists_mem_of_ne_nil groups hsome
    exact fun hnil => hne group hgroup (List.flatten_eq_nil_iff.mp hnil group hgroup)
  have hall := alongside_of_filled hts hroom
  have hy := concat_eq_joined hflat hall
  refine ⟨joined n groups.flatten, (concatGroups_ok hne ?_ fun _ => ?_).mpr hy, hy⟩
  · by_cases hn : n = 0
    · subst hn
      exact Nat.zero_le _
    · exact size_joined hall hn ▸ hall.room hn
  · rwa [joined_rows]

theorem Filled.data_eq_empty (h : t.Filled) (hrows : t.rows ≤ 0) : t.data = #[] := by
  have hsize : (t.data.size : Int) ≤ 0 := h.size_eq ▸ Int.mul_nonpos_of_nonpos_of_nonneg hrows h.cols_nonneg
  exact Array.eq_empty_of_size_eq_zero (by omega)

/-- The labels of a tensor are its rows laid end to end. -/
theorem flatten_rowList_of_filled (h : t.Filled) : t.rowList.flatten.toArray = t.data := by
  rcases Int.lt_or_le 0 t.rows with hrows | hrows
  · have hformed : t.WellFormed := ⟨hrows.le, h.cols_nonneg, h.size_eq⟩
    rw [flatten_rowList (hformed.shaped (Int.toNat_of_nonneg h.cols_nonneg).symm)]
  · rw [rowList, Int.toNat_of_nonpos hrows, h.data_eq_empty hrows]
    rfl

theorem rowsReach_joined (h : Alongside n ts) (hn : 0 ≤ n) : (joined n ts).rowsReach = true := by
  rcases hn.lt_or_eq with hn | rfl
  · exact rowsReach_of_shaped (joined_shaped h hn)
  · rw [rowsReach, joined_rows]
    rfl

/-- The rows of a tensor are found in the rows of tensors side by side, after the labels of those before it. -/
theorem map_rowList_joined (h : Alongside n (before ++ t :: after)) (hbefore : ∀ u ∈ before, u.Filled) :
    ((joined n (before ++ t :: after)).rowList.map fun r => (r.drop (before.map Tensor.cols).sum.toNat).take t.cols.toNat) =
      t.rowList := by
  have ht := (h.level t (by simp)).rows_eq
  rw [rowList, rowList, List.map_map, joined_rows, ht]
  refine List.map_congr_left fun i hi => ?_
  have hi : i < n.toNat := List.mem_range.mp hi
  have hshaped : ∀ u ∈ before ++ t :: after, u.Shaped n.toNat u.cols.toNat :=
    fun u hu => shaped_of_level (h.level u hu) (by omega)
  have hlength : (before.map fun u => u.row i).flatten.length = (before.map Tensor.cols).sum.toNat := by
    rw [length_sideBySide (fun u hu => ⟨_, hshaped u (List.mem_append_left _ hu)⟩) hi,
      ResultsAux.sum_toNat fun u hu => (hbefore u hu).cols_nonneg, Int.toNat_natCast, totalWidth]
  rw [Function.comp_apply, row_joined h hi, List.map_append, List.flatten_append, List.drop_left' hlength, List.map_cons,
    List.flatten_cons, List.take_left' (length_row (hshaped t (by simp)) hi)]

theorem slice_joined (h : Alongside n (before ++ t :: after)) (hfilled : ∀ u ∈ before ++ t :: after, u.Filled)
    (hwidth : ((before ++ t :: after).map Tensor.cols).sum < 2 ^ 63) :
    (joined n (before ++ t :: after)).slice (before.map Tensor.cols).sum ((before.map Tensor.cols).sum + t.cols) =
      .ok { t with dtype := jointType (before ++ t :: after) } := by
  have hcols : (joined n (before ++ t :: after)).cols = ((before ++ t :: after).map Tensor.cols).sum :=
    (joined_cols _ _).trans (word_eq ((by decide : (-2 ^ 63 : Int) ≤ 0).trans (sum_cols_nonneg hfilled)) hwidth)
  obtain ⟨hbefore, ht, hafter⟩ : (∀ u ∈ before, u.Filled) ∧ t.Filled ∧ ∀ u ∈ after, u.Filled := by
    simpa only [List.forall_mem_append, List.forall_mem_cons] using hfilled
  have hbelow := sum_cols_nonneg hbefore
  have habove := sum_cols_nonneg hafter
  have hthick := ht.cols_nonneg
  have hrows := (h.level t (by simp)).rows_eq
  rw [List.map_append, List.sum_append, List.map_cons, List.sum_cons] at hcols
  rw [slice, hcols, if_neg (by omega), joined_rows, joined_dtype, add_sub_cancel_left]
  rcases Int.lt_or_le n 0 with hn | hn
  · -- Of a negative height, the part has neither columns nor labels.
    have hpart : { t with dtype := jointType (before ++ t :: after) } = (⟨n, 0, jointType (before ++ t :: after), #[]⟩ : Tensor) := by
      rw [hrows, ht.cols_eq_zero (hrows ▸ hn), ht.data_eq_empty (hrows ▸ hn.le)]
    have hvolume : volume? n 0 = some 0 := by
      rw [volume?, Int.mul_zero]
      rfl
    rw [hpart, ht.cols_eq_zero (hrows ▸ hn), if_pos hn, hvolume]
    rfl
  · rw [if_neg hn.not_gt, rowsReach_joined h hn, map_rowList_joined h hbefore, if_neg (by decide), ← hrows]
    simp only [ofRows, flatten_rowList_of_filled ht]

/-- Each part can be cut out of tensors put side by side, as long as their width can be counted in words. -/
theorem slice_concat (hfilled : ∀ u ∈ before ++ t :: after, u.Filled)
    (hwidth : ((before ++ t :: after).map Tensor.cols).sum < 2 ^ 63) (hy : concat (before ++ t :: after) = .ok y)
    (hroom : y.data.size ≤ capacity) :
    y.slice (before.map Tensor.cols).sum ((before.map Tensor.cols).sum + t.cols) = .ok { t with dtype := y.dtype } := by
  have hlow : y.rows < 0 → Alongside y.rows (before ++ t :: after) := by
    refine fun hneg => alongside_of_filled (fun u hu => ⟨hfilled u hu, (concat_inv hy).1 u hu⟩) ?_
    have hwide := Int.mul_nonpos_of_nonpos_of_nonneg hneg.le (sum_cols_nonneg hfilled)
    exact hwide.trans (Int.natCast_nonneg _)
  have h := alongside_of_concat hy (fun _ => hroom) hlow
  have hjoined : joined y.rows (before ++ t :: after) = y := Except.ok.inj ((concat_eq_joined (by simp) h).symm.trans hy)
  have hslice := slice_joined h hfilled hwidth
  rwa [hjoined, show jointType (before ++ t :: after) = y.dtype from hjoined ▸ (joined_dtype _ _).symm] at hslice

end

end Tensor

end ModalGraph
