import ModalGraph.Proofs.Operator.Parts

/-!
# The rows that builtin operators give, and what they complain of

A builtin operator on labels with a row for each node gives labels with a row for each node, whatever their width: as many rows of
pooled labels as there are graphs, spread over the nodes of each; one message for each edge; one row for each node that messages
are sent to. It complains of a width, or of missing edge labels, and of nothing else (`Psi.Fault`, `Phi.Fault`), unless the labels
cannot be stored.
-/

namespace ModalGraph

/-- Labels that are there, with some number of rows. -/
def Labels.HasHeight (n : Int) (out : Labels) : Prop :=
  ∃ y, out = some y ∧ y.rows = n

namespace Tensor

variable {x : Tensor} {n : Int}

/-! ## Operations on rows -/

theorem gather_rows {idx : List Int} (h : ∀ i ∈ idx, 0 ≤ i ∧ i < x.rows) :
    EndsIn (fun y : Tensor => y.rows = idx.length) (· = .aborted) (x.gather idx) := by
  have hrow : ∀ i ∈ idx, EndsIn (fun _ => True) (· = .aborted) (x.rowAt i) := by
    intro i hi
    have hrange := h i hi
    rw [rowAt, if_neg (by omega)]
    split
    · exact trivial
    · exact rfl
  rw [gather]
  split
  · exact rfl
  · refine (EndsIn.mapM hrow).bind fun rows hrows => ?_
    split
    · exact congrArg Int.ofNat hrows.1
    · exact rfl

theorem repeatRows_rows {counts : List Nat} (h : (counts.length : Int) = x.rows) :
    EndsIn (fun y : Tensor => y.rows = counts.sum) (· = .aborted) (x.repeatRows (counts.map Int.ofNat)) := by
  have hlen : x.rowList.length = counts.length := by
    rw [rowList, List.length_map, List.length_range]
    omega
  have hsum : ∀ (counts : List Nat) (rows : List (List Label)), rows.length = counts.length →
      (((counts.map Int.ofNat).zip rows).flatMap fun p => List.replicate p.1.toNat p.2).length = counts.sum := by
    intro counts
    induction counts with
    | nil => exact fun rows _ => rfl
    | cons c counts ih =>
      intro rows hrows
      cases rows with
      | nil => cases hrows
      | cons r rows =>
        rw [List.map_cons, List.zip_cons_cons, List.flatMap_cons, List.length_append, List.length_replicate,
          ih rows (Nat.succ.inj hrows), List.sum_cons]
        rfl
  rw [repeatRows, if_neg (by rw [List.length_map]; omega), PartsAux.find?_negative]
  dsimp only
  split
  · exact congrArg Int.ofNat (hsum counts x.rowList hlen)
  · exact rfl

theorem segmentReduce_rows {index : List Int} {counts : List Nat} (hlen : (index.length : Int) = x.rows)
    (hcounts : segmentCounts index = .ok counts) (dtype : DType) (init : Label) (f : Label → Label → Label) :
    EndsIn (fun y : Tensor => y.rows = counts.length) (· = .aborted) (x.segmentReduce index dtype init f) := by
  rw [segmentReduce, if_neg (by omega), hcounts, ok_bind]
  split
  · exact rfl
  · refine congrArg Int.ofNat ?_
    rw [List.length_map, PartsAux.length_pieces]

theorem scatterReduce_rows {target : List Int} (hlen : (target.length : Int) = x.rows) (hn : 0 ≤ n)
    (htarget : ∀ d ∈ target, 0 ≤ d ∧ d < n) (dtype : DType) (init empty : Label) (f : Label → Label → Label) :
    EndsIn (fun y : Tensor => y.rows = n) (· = .aborted) (x.scatterReduce target n dtype init empty f) := by
  obtain ⟨k, rfl⟩ := Int.eq_ofNat_of_zero_le hn
  have hnone : (if x.rowsReach then target else target.take 1).findSome? (targetFault k) = none := by
    refine RowsAux.findSome?_targetFault_eq_none.mpr fun d hd => htarget d ?_
    split at hd
    · exact hd
    · exact List.mem_of_mem_take hd
  rw [scatterReduce, if_neg (by omega), hnone]
  split
  · exact rfl
  · dsimp only
    split
    · exact rfl
    · refine congrArg Int.ofNat ?_
      rw [List.length_map, Int.toNat_natCast, RowsAux.arrivals_eq, List.length_map, List.length_range]

theorem concat_rows {ts : List Tensor} (hne : ts ≠ []) (hn : 0 ≤ n) (h : ∀ t ∈ ts, t.rows = n) :
    EndsIn (fun y : Tensor => y.rows = n) (· = .aborted) (concat ts) := by
  obtain ⟨k, rfl⟩ := Int.eq_ofNat_of_zero_le hn
  cases ts with
  | nil => exact absurd rfl hne
  | cons t rest =>
    have ht := h t List.mem_cons_self
    rw [concat]
    dsimp only
    rw [ht, RowsAux.rowsFault?_eq_none h]
    dsimp only
    split
    · exact rfl
    · split
      · exact rfl
      · split
        · exact rfl
        · exact rfl

end Tensor

/-! ## Psi -/

/-- What a builtin psi of some name complains of: too few features to take differences of. -/
inductive Psi.Fault (name : Bytes) : Failure → Prop where
  | features {word : String} {w : Int} : word ∈ ["min", "sub"] → name = Bytes.ofString word → w < 2 →
      Psi.Fault name (.shapeIn "min" (.tooFewFeatures w))

/-- An operator that gives a row for each node, on one graph and on a batch, unless it complains or there is no room. -/
structure Psi.KeepsHeight (name : Bytes) (op : Psi) : Prop where
  single : ∀ x : Tensor, 0 ≤ x.rows →
    EndsIn (Labels.HasHeight x.rows) (fun f => Psi.Fault name f ∨ f = .aborted) (op.single (some x))
  multiple : ∀ (x : Tensor) (index : List Int) (counts : List Nat), (index.length : Int) = x.rows →
    Tensor.segmentCounts index = .ok counts →
      EndsIn (Labels.HasHeight x.rows) (fun f => Psi.Fault name f ∨ f = .aborted) (op.multiple (some x) (some index))

section

variable {name : Bytes} {width : Int → Int}

theorem pointwise_keepsHeight {f : Labels → Except Failure Labels}
    (h : ∀ x : Tensor, 0 ≤ x.rows → EndsIn (Labels.HasHeight x.rows) (fun f => Psi.Fault name f ∨ f = .aborted) (f (some x))) :
    (Psi.pointwise width f).KeepsHeight name :=
  ⟨h, fun x index _ hlen _ => h x (by omega)⟩

theorem total_keepsHeight {f : Tensor → Tensor} (h : ∀ x : Tensor, 0 ≤ x.rows → (f x).rows = x.rows) :
    (Psi.total width f).KeepsHeight name :=
  pointwise_keepsHeight fun x hx => ⟨f x, rfl, h x hx⟩

theorem stored_keepsHeight {f : Tensor → Option Tensor} (h : ∀ x y : Tensor, 0 ≤ x.rows → f x = some y → y.rows = x.rows) :
    (Psi.stored width f).KeepsHeight name :=
  pointwise_keepsHeight fun x hx => (EndsIn.orAborted (h x · hx) fun _ => .inr rfl).map fun y hy => ⟨y, rfl, hy⟩

theorem constant_keepsHeight (dtype : DType) (v : Label) : (Builtin.constant dtype v).KeepsHeight name := by
  refine stored_keepsHeight fun x y _ hy => ?_
  obtain ⟨rfl, -⟩ := Tensor.full?_some hy
  exact Tensor.full_rows _ _ _

theorem length_rowList {x : Tensor} (hx : 0 ≤ x.rows) : (x.rowList.length : Int) = x.rows := by
  rw [Tensor.rowList, List.length_map, List.length_range, Int.toNat_of_nonneg hx]

theorem reduceRows_keepsHeight (dtype : DType) (f : List Label → Label) :
    (Psi.stored width fun x => x.reduceRows? dtype f).KeepsHeight name := by
  refine stored_keepsHeight fun x y hx hy => ?_
  obtain ⟨-, rfl⟩ := Tensor.reduceRows?_some hy
  rw [Tensor.reduceRows, Tensor.ofRows, List.length_map, length_rowList hx]

/-- As many rows as there are, unless as many rows of another width cannot be stored, or the width is negative. -/
theorem rowsInto_ends {x : Tensor} (hx : 0 ≤ x.rows) (k : Int) :
    EndsIn (fun rows : List (List Label) => (rows.length : Int) = x.rows)
      (fun f => k < 0 ∧ f = .shapeIn "new" (.negativeShape x.rows k) ∨ f = .aborted) (x.rowsInto k) := by
  rw [Tensor.rowsInto, Tensor.zeros]
  split
  · rename_i hnegative
    exact .inl ⟨by omega, rfl⟩
  · split
    · exact .inr rfl
    · rw [ok_bind]
      split
      · exact length_rowList hx
      · exact .inr rfl

theorem poolAll_ends (init : Label) (f : Label → Label → Label) (x : Tensor) :
    EndsIn (fun y : Tensor => y.rows = 1) (· = .aborted) (Builtin.poolAll init f x) := by
  rw [Builtin.poolAll]
  split
  · exact rfl
  · exact rfl

theorem difference_keepsHeight {word : String} (hword : word ∈ ["min", "sub"]) :
    Builtin.difference.KeepsHeight (Bytes.ofString word) := by
  refine pointwise_keepsHeight fun x hx => ?_
  show EndsIn _ _ (Builtin.differences x)
  rw [Builtin.differences]
  split
  · rename_i hcols
    exact .inl (.features hword rfl hcols)
  · refine ((rowsInto_ends hx (x.cols - 1)).weaken fun f hf => .inr (hf.resolve_left (by omega))).bind fun rows hrows => ⟨_, rfl, ?_⟩
    rw [Tensor.ofRows, List.length_map, hrows]

/-- Pooled rows are spread over the nodes of their graphs. -/
theorem pool_keepsHeight (pooling : String) (init : Label) (f : Label → Label → Label) :
    (Builtin.pool pooling init f).KeepsHeight name where
  single := by
    intro x hx
    show EndsIn _ _ (Builtin.poolAll init f x >>= Psi.spreadOne (Bytes.ofString pooling) (some x))
    refine ((poolAll_ends init f x).weaken fun f hf => .inr hf).bind fun pooled hone => ?_
    rw [Psi.spreadOne, if_neg (by rw [hone]; simp)]
    have hrepeat : EndsIn (fun y : Tensor => y.rows = [x.rows.toNat].sum) (· = .aborted)
        (pooled.repeatRows ([x.rows.toNat].map Int.ofNat)) := Tensor.repeatRows_rows hone.symm
    rw [show [x.rows.toNat].map Int.ofNat = [x.rows] by simp [Int.toNat_of_nonneg hx]] at hrepeat
    refine (hrepeat.weaken fun f hf => .inr hf).map fun y hy => ⟨y, rfl, ?_⟩
    rw [hy, List.sum_singleton, Int.toNat_of_nonneg hx]
  multiple := by
    intro x index counts hlen hcounts
    have hsum := segmentCounts_sum hcounts
    show EndsIn _ _ (Tensor.segmentCounts index >>= fun counts =>
      x.segmentReduce index x.dtype init f >>= Psi.spreadAll (Bytes.ofString pooling) counts)
    rw [hcounts, ok_bind]
    refine ((Tensor.segmentReduce_rows hlen hcounts x.dtype init f).weaken fun g hg => .inr hg).bind fun pooled hpooled => ?_
    rw [Psi.spreadAll, if_neg (not_not.mpr hpooled)]
    refine ((Tensor.repeatRows_rows hpooled.symm).weaken fun g hg => .inr hg).map fun y hy => ⟨y, rfl, ?_⟩
    rw [hy, hsum, hlen]

end

/-- Every builtin psi gives a row for each node. -/
theorem Builtin.psi_keepsHeight {name : Bytes} {arg : Argument} {op : Psi} (h : Builtin.psi.get name arg = .ok op) :
    op.KeepsHeight name := by
  have hevery : Builtin.psi.Every fun name _ op => op.KeepsHeight name := by
    refine psi_every ?_ ?_ ?_ ?_ ?_ ?_ ?_ ?_ ?_ ?_ ?_
    · exact fun _ _ _ k => total_keepsHeight fun x _ => rfl
    · exact fun _ v => constant_keepsHeight _ v
    · exact fun _ _ _ v => constant_keepsHeight _ v
    · exact fun _ => reduceRows_keepsHeight _ _
    · exact fun _ => reduceRows_keepsHeight _ _
    · exact fun _ => total_keepsHeight fun x _ => rfl
    · exact fun _ => pointwise_keepsHeight fun x _ => ⟨x, rfl, rfl⟩
    · exact fun _ => total_keepsHeight fun x _ => rfl
    · exact fun word hword _ => difference_keepsHeight hword
    · exact fun _ => pool_keepsHeight _ _ _
    · exact fun _ => pool_keepsHeight _ _ _
  exact hevery.get h

/-! ## Sigma and phi -/

/-- Every builtin sigma gives a row for each node that messages may be sent to. -/
theorem Builtin.sigma_keepsHeight {key : Bytes} {op : Sigma} (h : Builtin.sigma.resolve key = .ok op) (m x : Tensor)
    {targets : List Int} {n : Int} (hlen : (targets.length : Int) = m.rows) (hn : 0 ≤ n) (htargets : ∀ d ∈ targets, 0 ≤ d ∧ d < n) :
    EndsIn (Labels.HasHeight n) (· = .aborted) (op.aggregate (some m) targets n (some x)) := by
  have hgather : ∀ dtype init empty f,
      EndsIn (Labels.HasHeight n) (· = .aborted) ((gather dtype init empty f).aggregate (some m) targets n (some x)) := by
    intro dtype init empty f
    show EndsIn _ _ (some <$> m.scatterReduce targets n (dtype.getD m.dtype) init empty f)
    exact (Tensor.scatterReduce_rows hlen hn htargets _ init empty f).map fun y hy => ⟨y, rfl, hy⟩
  have hevery : Builtin.sigma.Every fun _ _ op =>
      EndsIn (Labels.HasHeight n) (· = .aborted) (op.aggregate (some m) targets n (some x)) :=
    sigma_every (fun _ _ _ _ _ _ => hgather _ _ _ _) fun _ _ _ _ _ _ => hgather _ _ _ _
  exact hevery.resolve h

/-- What a builtin phi of some name complains of: edge labels that are missing, or whose width goes with no other, and widths that
have become negative in words. -/
inductive Phi.Fault (name : Bytes) : Failure → Prop where
  | required {word : String} : word ∈ ["z", "edge"] → name = Bytes.ofString word → Phi.Fault name (.shapeIn word .edgeLabelsRequired)
  | width {e w : Int} : name = Bytes.ofString "z" → e ≠ 1 → e ≠ w → Phi.Fault name (.shapeIn "z" (.edgeWidth e w))
  | negative {n w : Int} : name = Bytes.ofString "z" → w < 0 → Phi.Fault name (.shapeIn "new" (.negativeShape n w))

theorem zeroEdgeRow_ends (edge : Tensor) (i : Nat) (row : List Label) :
    EndsIn (fun _ => True) (· = .aborted) (Builtin.zeroEdgeRow edge i row) := by
  rw [Builtin.zeroEdgeRow]
  refine EndsIn.imp (EndsIn.mapM (P := fun _ => True) fun p _ => ?_) fun _ _ => trivial
  dsimp only
  split
  · exact trivial
  · split
    · exact rfl
    · exact trivial

/-- Every builtin phi makes a message for each edge, unless it complains or there is no room. -/
theorem Builtin.phi_keepsHeight {key : Bytes} {op : Phi} (h : Builtin.phi.resolve key = .ok op) (s t : Tensor) (e : Labels) {k : Nat}
    (hs : s.rows = k) (ht : t.rows = k) (he : ∀ e' ∈ e, e'.rows = k) :
    EndsIn (Labels.HasHeight k) (fun f => Phi.Fault (parseKey key).1 f ∨ f = .aborted) (op.messages (some s) e (some t)) := by
  have hevery : Builtin.phi.Every fun name _ op =>
      EndsIn (Labels.HasHeight k) (fun f => Phi.Fault name f ∨ f = .aborted) (op.messages (some s) e (some t)) := by
    refine phi_every ?_ ?_ ?_ ?_
    · intro _
      show EndsIn _ _ (zeroEdge e (some t))
      cases e with
      | none => exact .inl (.required (List.mem_cons_self) rfl)
      | some e =>
        rw [zeroEdge]
        show EndsIn _ _ (if e.cols ≠ 1 ∧ e.cols ≠ t.cols then _ else _)
        split
        · rename_i hcols
          exact .inl (.width rfl hcols.1 hcols.2)
        · refine ((rowsInto_ends (x := t) (by omega) t.cols).weaken ?_).bind fun rows hrows => ?_
          · rintro f (⟨hnegative, rfl⟩ | rfl)
            · exact .inl (.negative rfl hnegative)
            · exact .inr rfl
          refine ((EndsIn.mapM fun p _ => zeroEdgeRow_ends e p.2 p.1).weaken fun f hf => .inr hf).bind fun out hout => ?_
          refine ⟨_, rfl, ?_⟩
          rw [Tensor.ofRows, hout.1, List.length_zipIdx, hrows, ht]
    · exact fun _ => ⟨s, rfl, hs⟩
    · exact fun _ => ⟨t, rfl, ht⟩
    · intro _
      cases e with
      | none => exact .inl (.required (by simp) rfl)
      | some e => exact ⟨e, rfl, he e rfl⟩
  exact hevery.resolve h

end ModalGraph
