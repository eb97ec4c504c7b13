import ModalGraph.Proofs.Operator.Height
import ModalGraph.Proofs.Operator.Messages

/-!
# Builtin operators where there is room

On labels of a known shape, if what a builtin operator gives can be stored, it does not run out of room: it gives labels of the shape
that goes with its declared width, or it complains. If what it gives cannot be stored, it gives nothing.
-/

namespace ModalGraph

open Tensor

/-- Labels that are there, with the labels of `n` rows of width `w`. -/
def Labels.HasShape (n w : Nat) (out : Labels) : Prop :=
  ∃ y, out = some y ∧ y.Shaped n w

namespace Tensor

variable {x : Tensor} {n k w : Nat}

/-! ## Operations on rows -/

theorem Shaped.of_wellFormed (h : x.WellFormed) : x.Shaped x.rows.toNat x.cols.toNat := by
  obtain ⟨hrows, hcols, hsize⟩ := h
  refine ⟨(Int.toNat_of_nonneg hrows).symm, (Int.toNat_of_nonneg hcols).symm, ?_⟩
  rw [← Int.toNat_mul hrows hcols, ← hsize, Int.toNat_natCast]

theorem repeatRows_shaped {counts : List Nat} (hx : x.Shaped counts.length w) (hstore : Storable counts.sum w) :
    ∃ y, x.repeatRows (counts.map Int.ofNat) = .ok y ∧ y.Shaped counts.sum w := by
  have hwidth := width_of_mem_rowList hx
  have hrepeat := PartsAux.repeatRows_eq (d := x.dtype) (length_rowList hx) hwidth hstore
  rw [ofRows_rowList hx] at hrepeat
  refine ⟨_, hrepeat, ?_⟩
  have hrows : ∀ r ∈ (counts.zip x.rowList).flatMap fun p => List.replicate p.1 p.2, r.length = w := by
    intro r hr
    obtain ⟨p, hp, hr⟩ := List.mem_flatMap.mp hr
    rw [(List.mem_replicate.mp hr).2]
    exact hwidth p.2 (List.of_mem_zip hp).2
  have hlen : ((counts.zip x.rowList).flatMap fun p => List.replicate p.1 p.2).length = counts.sum := by
    have hzip : counts.length ≤ x.rowList.length := (length_rowList hx).ge
    rw [List.length_flatMap]
    simp only [List.length_replicate]
    rw [List.map_fst_zip hzip]
  have h := ofRows_shaped x.dtype hrows
  rwa [hlen] at h

theorem segmentReduce_shaped {index : List Int} {counts : List Nat} (hx : x.Shaped n w) (hlen : index.length = n)
    (hcounts : segmentCounts index = .ok counts) {dtype : DType} (init : Label) (f : Label → Label → Label) :
    ∃ y, x.segmentReduce index dtype init f = .ok y ∧ y.Shaped counts.length w := by
  refine ⟨_, PartsAux.segmentReduce_eq hx hlen hcounts init f, ?_⟩
  have hrows : ∀ r ∈ (pieces counts x.rowList).map fun rows => (foldRows f init w rows).map dtype.cast, r.length = w := by
    intro r hr
    obtain ⟨piece, hpiece, rfl⟩ := List.mem_map.mp hr
    rw [List.length_map]
    exact length_foldRows fun r' hr' => width_of_mem_rowList hx r' (PartsAux.mem_pieces hpiece r' hr')
  have h := ofRows_shaped dtype hrows
  rwa [List.length_map, PartsAux.length_pieces] at h

theorem scatterReduce_shaped {target : List Int} (hx : x.Shaped k w) (hlen : target.length = k)
    (htarget : ∀ d ∈ target, 0 ≤ d ∧ d < n) (hfit : Storable n w) (hn : (n : Int) ≤ seats) (dtype : DType) (init empty : Label)
    (f : Label → Label → Label) : ∃ y, x.scatterReduce target n dtype init empty f = .ok y ∧ y.Shaped n w := by
  refine ⟨_, scatterReduce_eq hx hlen htarget hfit hn dtype init empty f, ?_⟩
  exact ofRows_range_shaped fun i _ => scatterReduce_width hx target dtype init empty f i

theorem concat_shaped {ts : List Tensor} (hne : ts ≠ []) (h : ∀ t ∈ ts, ∃ w, t.Shaped n w) (hstore : Storable n (totalWidth ts))
    (hwidth : totalWidth ts < 2 ^ 63) : ∃ y, concat ts = .ok y ∧ y.Shaped n (totalWidth ts) := by
  cases ts with
  | nil => exact absurd rfl hne
  | cons t rest =>
    refine ⟨_, concat_eq h hstore hwidth, ?_⟩
    exact ofRows_range_shaped fun i hi => length_sideBySide h hi

/-- What is put side by side can be stored. -/
theorem concat_takesRoom {ts : List Tensor} {y : Tensor} (h : ∀ t ∈ ts, ∃ w, t.Shaped n w) (hy : concat ts = .ok y) :
    Storable n (totalWidth ts) := by
  cases ts with
  | nil => cases hy
  | cons t rest =>
    by_contra hfit
    rw [concat_aborts h (Nat.not_le.mp hfit)] at hy
    cases hy

/-- What is gathered can be stored. -/
theorem gather_takesRoom {idx : List Int} {y : Tensor} (hx : x.Shaped n w) (hn : Storable n w) (hidx : ∀ i ∈ idx, 0 ≤ i ∧ i < n)
    (hy : x.gather idx = .ok y) : Storable idx.length w := by
  by_contra hfit
  rw [gather_aborts hx (Nat.lt_of_le_of_lt hn (by decide)) hidx (Nat.not_le.mp hfit)] at hy
  cases hy

theorem gather_fits {idx : List Int} (hx : x.Shaped n w) (hidx : ∀ i ∈ idx, 0 ≤ i ∧ i < n) (hn : Storable n w)
    (hk : Storable idx.length w) : ∃ y, x.gather idx = .ok y ∧ y.Shaped idx.length w :=
  ⟨_, gather_eq hx hn hidx hk, gather_shaped hx hidx⟩

end Tensor

/-! ## Psi -/

/-- An operator of some name that does not run out of room where what it makes can be stored, on one graph and on a batch. -/
structure Psi.FindsRoom (name : Bytes) (op : Psi) : Prop where
  single : ∀ {n w : Nat} {x : Tensor}, x.Shaped n w → Storable (psiRows false name n) (op.width w).toNat →
    EndsIn (Labels.HasShape n (op.width w).toNat) (· ≠ .aborted) (op.single (some x))
  multiple : ∀ {n w : Nat} {x : Tensor} {index : List Int} {counts : List Nat}, x.Shaped n w →
    Storable (psiRows true name n) (op.width w).toNat → index.length = n → segmentCounts index = .ok counts →
      EndsIn (Labels.HasShape n (op.width w).toNat) (· ≠ .aborted) (op.multiple (some x) (some index))

section

variable {name : Bytes} {width : Int → Int}

theorem pointwise_findsRoom {f : Labels → Except Failure Labels} (h : ∀ (n w : Nat) (x : Tensor), x.Shaped n w →
    Storable n (width w).toNat → EndsIn (Labels.HasShape n (width w).toNat) (· ≠ .aborted) (f (some x))) :
    (Psi.pointwise width f).FindsRoom name :=
  ⟨fun hx hstore => h _ _ _ hx (hstore.mono (le_psiRows _ _ _)), fun hx hstore _ _ => h _ _ _ hx (hstore.mono (le_psiRows _ _ _))⟩

theorem total_findsRoom {f : Tensor → Tensor} (h : ∀ (n w : Nat) (x : Tensor), x.Shaped n w → (f x).Shaped n (width w).toNat) :
    (Psi.total width f).FindsRoom name :=
  pointwise_findsRoom fun n w x hx _ => ⟨f x, rfl, h n w x hx⟩

theorem stored_findsRoom {f : Tensor → Option Tensor} (h : ∀ (n w : Nat) (x : Tensor), x.Shaped n w → Storable n (width w).toNat →
    ∃ y, f x = some y ∧ y.Shaped n (width w).toNat) : (Psi.stored width f).FindsRoom name := by
  refine pointwise_findsRoom fun n w x hx hstore => ?_
  obtain ⟨y, hy, hshaped⟩ := h n w x hx hstore
  show EndsIn _ _ (some <$> orAborted (f x))
  rw [hy]
  exact ⟨y, rfl, hshaped⟩

theorem constant_findsRoom (dtype : DType) (v : Label) : (Builtin.constant dtype v).FindsRoom name := by
  refine stored_findsRoom fun n w x hx hstore => ⟨_, by rw [hx.rows_eq]; exact full?_eq hstore, ?_⟩
  rw [full_eq]
  exact ofRows_range_shaped fun _ _ => rfl

theorem reduceRows_findsRoom (dtype : DType) (f : List Label → Label) :
    (Psi.stored (Width.fixed 1) fun x => x.reduceRows? dtype f).FindsRoom name := by
  refine stored_findsRoom fun n w x hx hstore => ⟨_, reduceRows?_eq hx (Nat.mul_one n ▸ hstore) dtype f, ?_⟩
  rw [reduceRows_eq hx]
  exact ofRows_range_shaped fun _ _ => rfl

theorem difference_findsRoom : Builtin.difference.FindsRoom name := by
  refine pointwise_findsRoom fun n w x hx hstore => ?_
  show EndsIn _ _ (Builtin.differences x)
  rw [Builtin.differences]
  split
  · exact fun h => by cases h
  · rename_i hcols
    rw [hx.cols_eq] at hcols ⊢
    have hwidth : Builtin.differencesWidth w = ((w - 1 : Nat) : Int) := by
      rw [Builtin.differencesWidth, if_neg hcols]
      omega
    have hrows : ∀ r ∈ x.rowList.map (Builtin.rowDifferences x.dtype), r.length = w - 1 := by
      intro r hr
      obtain ⟨r', hr', rfl⟩ := List.mem_map.mp hr
      have hlen := width_of_mem_rowList hx r' hr'
      cases r' with
      | nil =>
        subst hlen
        rfl
      | cons v r' =>
        rw [Builtin.rowDifferences, List.length_map]
        simp only [List.length_cons] at hlen
        omega
    have hshaped := ofRows_shaped x.dtype hrows
    rw [List.length_map, Tensor.length_rowList hx] at hshaped
    rw [hwidth, Int.toNat_natCast] at hstore ⊢
    rw [show (w : Int) - 1 = ((w - 1 : Nat) : Int) by omega, rowsInto_eq hx hstore]
    exact ⟨_, rfl, hshaped⟩

theorem poolAll_shaped {n w : Nat} {x : Tensor} (hx : x.Shaped n w) (hw : w ≤ capacity) (init : Label)
    (f : Label → Label → Label) : ∃ y, Builtin.poolAll init f x = .ok y ∧ y.Shaped 1 w := by
  have hroom : ¬(x.cols < 0 ∨ (capacity : Int) < x.cols ∨ (!x.rowsReach) = true) := by
    rw [rowsReach_of_shaped hx, hx.cols_eq]
    simp only [Bool.not_true, Bool.false_eq_true, or_false, not_or, Int.not_lt]
    omega
  rw [Builtin.poolAll, if_neg hroom]
  refine ⟨_, rfl, ?_⟩
  have hrow : (Builtin.pooledRow init f x).length = w := by
    rw [Builtin.pooledRow, hx.cols_eq, Int.toNat_natCast]
    split
    · exact List.length_replicate
    · rw [List.length_map]
      exact length_foldRows (width_of_mem_rowList hx)
  have hrows : ∀ r ∈ [Builtin.pooledRow init f x], r.length = w := fun r hr => by rw [List.mem_singleton.mp hr, hrow]
  have h := ofRows_shaped x.dtype hrows
  rwa [List.length_singleton, ← hx.cols_eq] at h

theorem pool_findsRoom {pooling : String} (hpools : pools (Bytes.ofString pooling) = true) (init : Label)
    (f : Label → Label → Label) : (Builtin.pool pooling init f).FindsRoom (Bytes.ofString pooling) where
  single := by
    intro n w x hx hstore
    have hwidth : ((Builtin.pool pooling init f).width w).toNat = w := Int.toNat_natCast w
    rw [hwidth, psiRows, hpools] at hstore
    rw [hwidth]
    have hone : 1 * w ≤ capacity := hstore.mono (Nat.le_max_left 1 n)
    obtain ⟨pooled, hpooled, hrow⟩ := poolAll_shaped hx (Nat.one_mul w ▸ hone) init f
    have hcounts : Storable [n].sum w := by
      rw [List.sum_singleton]
      exact hstore.mono (Nat.le_max_right 1 n)
    have hpooledOne : pooled.Shaped [n].length w := hrow
    obtain ⟨y, hy, hshaped⟩ := repeatRows_shaped hpooledOne hcounts
    rw [List.sum_singleton] at hshaped
    show EndsIn _ _ (Builtin.poolAll init f x >>= Psi.spreadOne (Bytes.ofString pooling) (some x))
    rw [hpooled, ok_bind, Psi.spreadOne, if_neg (by rw [hrow.rows_eq]; simp)]
    show EndsIn _ _ (some <$> pooled.repeatRows [x.rows])
    rw [hx.rows_eq, show pooled.repeatRows [(n : Int)] = .ok y from hy]
    exact ⟨y, rfl, hshaped⟩
  multiple := by
    intro n w x index counts hx hstore hlen hcounts
    have hwidth : ((Builtin.pool pooling init f).width w).toNat = w := Int.toNat_natCast w
    have hsum : counts.sum = n := (segmentCounts_sum hcounts).trans hlen
    replace hstore := hstore.mono (le_psiRows _ _ _)
    rw [hwidth] at hstore ⊢
    obtain ⟨pooled, hpooled, hrows⟩ := segmentReduce_shaped hx hlen hcounts init f
    obtain ⟨y, hy, hshaped⟩ := repeatRows_shaped hrows (by rwa [hsum])
    rw [hsum] at hshaped
    show EndsIn _ _ (Tensor.segmentCounts index >>= fun counts =>
      x.segmentReduce index x.dtype init f >>= Psi.spreadAll (Bytes.ofString pooling) counts)
    rw [hcounts, ok_bind, hpooled, ok_bind, Psi.spreadAll, if_neg (not_not.mpr hrows.rows_eq), hy]
    exact ⟨y, rfl, hshaped⟩

end

/-- No builtin psi runs out of room where its result can be stored. -/
theorem Builtin.psi_findsRoom {name : Bytes} {arg : Argument} {op : Psi} (h : Builtin.psi.get name arg = .ok op) :
    op.FindsRoom name := by
  have hevery : Builtin.psi.Every fun name _ op => op.FindsRoom name := by
    refine psi_every ?_ ?_ ?_ ?_ ?_ ?_ ?_ ?_ ?_ ?_ ?_
    · exact fun _ _ _ k => total_findsRoom fun n w x hx => map_shaped hx _ _
    · exact fun _ v => constant_findsRoom _ v
    · exact fun _ _ _ v => constant_findsRoom _ v
    · exact fun _ => reduceRows_findsRoom _ _
    · exact fun _ => reduceRows_findsRoom _ _
    · exact fun _ => total_findsRoom fun n w x hx => map_shaped hx _ _
    · exact fun _ => pointwise_findsRoom fun n w x hx _ => ⟨x, rfl, hx⟩
    · exact fun _ => total_findsRoom fun n w x hx => map_shaped hx _ _
    · exact fun _ _ _ => difference_findsRoom
    · exact fun _ => pool_findsRoom rfl _ _
    · exact fun _ => pool_findsRoom rfl _ _
  exact hevery.get h

/-- An operator that gives labels that can be stored, and so gives none if they cannot. -/
def Psi.TakesRoom (op : Psi) : Prop :=
  ∀ (n w : Nat) (x y : Tensor), x.Shaped n w → Storable n w →
    (op.single (some x) = .ok (some y) ∨ ∃ index, op.multiple (some x) index = .ok (some y)) → Storable n (op.width w).toNat

section

variable {width : Int → Int}

/-- Labels that are no wider than those they are made of can be stored. -/
theorem takesRoom_of_le {op : Psi} (h : ∀ w : Nat, (op.width w).toNat ≤ w) : op.TakesRoom :=
  fun _ _ _ _ _ hstore _ => hstore.narrow (h _)

theorem stored_takesRoom {f : Tensor → Option Tensor}
    (h : ∀ (n w : Nat) (x y : Tensor), x.Shaped n w → f x = some y → Storable n (width w).toNat) : (Psi.stored width f).TakesRoom := by
  rintro n w x y hx - (hy | ⟨index, hy⟩)
  · exact h n w x y hx (Psi.stored_ok width hy)
  · have hindex : (if index.isNone then .error (Psi.indexMissing (Bytes.ofString "local")) else
      (Psi.stored width f).single (some x)) = .ok (some y) := hy
    split at hindex
    · cases hindex
    · exact h n w x y hx (Psi.stored_ok width hindex)

theorem constant_takesRoom (dtype : DType) (v : Label) : (Builtin.constant dtype v).TakesRoom := by
  refine stored_takesRoom fun n w x y hx hy => ?_
  rw [hx.rows_eq] at hy
  by_contra hfit
  rw [full?_eq_none (Nat.not_le.mp hfit)] at hy
  cases hy

theorem reduceRows_takesRoom (dtype : DType) (f : List Label → Label) :
    (Psi.stored (Width.fixed 1) fun x => x.reduceRows? dtype f).TakesRoom := by
  refine stored_takesRoom fun n w x y hx hy => ?_
  have hrows := (reduceRows?_some hy).1.2.1
  rw [hx.rows_eq] at hrows
  rw [Storable, Width.fixed, Int.toNat_one, Nat.mul_one]
  exact_mod_cast hrows

theorem difference_takesRoom : Builtin.difference.TakesRoom := by
  refine takesRoom_of_le fun w => ?_
  show (Builtin.differencesWidth w).toNat ≤ w
  rw [Builtin.differencesWidth]
  split
  · exact Nat.zero_le w
  · omega

end

/-- What a builtin psi gives can be stored. -/
theorem Builtin.psi_takesRoom {name : Bytes} {arg : Argument} {op : Psi} (h : Builtin.psi.get name arg = .ok op) : op.TakesRoom := by
  have hsame : ∀ {op : Psi}, op.width = Width.same → op.TakesRoom := by
    intro op hwidth
    refine takesRoom_of_le fun w => ?_
    rw [hwidth]
    exact le_refl w
  have hevery : Builtin.psi.Every fun _ _ op => op.TakesRoom := by
    refine psi_every ?_ ?_ ?_ ?_ ?_ ?_ ?_ ?_ ?_ ?_ ?_
    · exact fun _ _ _ _ => hsame rfl
    · exact fun _ v => constant_takesRoom _ v
    · exact fun _ _ _ v => constant_takesRoom _ v
    · exact fun _ => reduceRows_takesRoom _ _
    · exact fun _ => reduceRows_takesRoom _ _
    · exact fun _ => hsame rfl
    · exact fun _ => hsame rfl
    · exact fun _ => hsame rfl
    · exact fun _ _ _ => difference_takesRoom
    · exact fun _ => hsame rfl
    · exact fun _ => hsame rfl
  exact hevery.get h

/-! ## Sigma and phi -/

/-- No builtin sigma runs out of room where the labels of all nodes can be stored. -/
theorem Builtin.sigma_findsRoom {key : Bytes} {op : Sigma} (h : Builtin.sigma.resolve key = .ok op) {k n w : Nat} {m : Tensor}
    (x : Tensor) {targets : List Int} (hm : m.Shaped k w) (hlen : targets.length = k) (htargets : ∀ d ∈ targets, 0 ≤ d ∧ d < n)
    (hstore : Storable n w) (hn : (n : Int) ≤ seats) :
    EndsIn (Labels.HasShape n w) (· ≠ .aborted) (op.aggregate (some m) targets n (some x)) := by
  have hgather : ∀ dtype init empty f,
      EndsIn (Labels.HasShape n w) (· ≠ .aborted) ((gather dtype init empty f).aggregate (some m) targets n (some x)) := by
    intro dtype init empty f
    obtain ⟨y, hy, hshaped⟩ := scatterReduce_shaped hm hlen htargets hstore hn (dtype.getD m.dtype) init empty f
    show EndsIn _ _ (some <$> m.scatterReduce targets n (dtype.getD m.dtype) init empty f)
    rw [hy]
    exact ⟨y, rfl, hshaped⟩
  have hevery : Builtin.sigma.Every fun _ _ op =>
      EndsIn (Labels.HasShape n w) (· ≠ .aborted) (op.aggregate (some m) targets n (some x)) :=
    sigma_every (fun _ _ _ _ _ _ => hgather _ _ _ _) fun _ _ _ _ _ _ => hgather _ _ _ _
  exact hevery.resolve h

/-- A builtin sigma gives the labels of all nodes only if they can be stored. -/
theorem Builtin.sigma_takesRoom {key : Bytes} {op : Sigma} (h : Builtin.sigma.resolve key = .ok op) {k n w : Nat} {m : Tensor}
    {x out : Labels} {targets : List Int} (hm : m.Shaped k w) (hlen : targets.length = k) (htargets : ∀ d ∈ targets, 0 ≤ d ∧ d < n)
    (hout : op.aggregate (some m) targets n x = .ok out) : Storable n w ∧ (n : Int) ≤ seats := by
  have hgather : ∀ dtype init empty f, (gather dtype init empty f).aggregate (some m) targets n x = .ok out →
      Storable n w ∧ (n : Int) ≤ seats := by
    intro dtype init empty f hok
    have hok : some <$> m.scatterReduce targets n (dtype.getD m.dtype) init empty f = .ok out := hok
    by_contra hroom
    rw [scatterReduce_aborts hm hlen htargets hroom] at hok
    cases hok
  have hevery : Builtin.sigma.Every fun _ _ op => op.aggregate (some m) targets n x = .ok out → Storable n w ∧ (n : Int) ≤ seats :=
    sigma_every (fun _ _ _ _ _ _ => hgather _ _ _ _) fun _ _ _ _ _ _ => hgather _ _ _ _
  exact hevery.resolve h hout

/-- No builtin phi runs out of room where the labels at the ends of all edges can be stored. -/
theorem Builtin.phi_findsRoom {key : Bytes} {op : Phi} (h : Builtin.phi.resolve key = .ok op) {k w we : Nat} {s t : Tensor}
    {e : Labels} (hs : s.Shaped k w) (ht : t.Shaped k w) (he : ∀ e' ∈ e, e'.Shaped k we) (hstore : Storable k w) :
    EndsIn (Labels.HasShape k (phiWidth we w (some key))) (· ≠ .aborted) (op.messages (some s) e (some t)) := by
  have hevery : Builtin.phi.Every fun name _ op =>
      EndsIn (Labels.HasShape k (if name == Bytes.ofString "edge" then we else w)) (· ≠ .aborted)
        (op.messages (some s) e (some t)) := by
    refine phi_every ?_ ?_ ?_ ?_
    · intro _
      show EndsIn _ _ (zeroEdge e (some t))
      cases e with
      | none => exact fun h => by cases h
      | some e =>
        have he' := he e rfl
        by_cases hw : we = 1 ∨ we = w
        · rw [zeroEdge_eq he' ht hw hstore]
          refine ⟨_, rfl, ofRows_range_shaped fun i hi => ?_⟩
          rw [List.length_map, List.length_zipIdx, length_row ht hi]
          rfl
        · obtain ⟨f, hf, hkind⟩ := zeroEdge_fails he' ht hw
          rw [hf]
          rintro rfl
          cases hkind
    · exact fun _ => ⟨s, rfl, hs⟩
    · exact fun _ => ⟨t, rfl, ht⟩
    · intro _
      cases e with
      | none => exact fun h => by cases h
      | some e => exact ⟨e, rfl, he e rfl⟩
  exact hevery.resolve h

end ModalGraph
