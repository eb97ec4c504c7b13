import ModalGraph.Proofs.Operator.Registry

/-!
# The widths that builtin operators declare

Every operator declares how wide its result is, apart from what it computes. For the builtin ones the two agree, on labels of any
shape: where a width is declared for labels as wide as those that an operator is used on, its result has that width.
-/

namespace ModalGraph

namespace Tensor

/-! ## Columns of results -/

variable {x y : Tensor}

theorem gather_cols {idx : List Int} (h : x.gather idx = .ok y) : y.cols = x.cols := by
  obtain ⟨rows, -, rfl⟩ := gather_ok h
  rfl

theorem repeatRows_cols {counts : List Int} (h : x.repeatRows counts = .ok y) : y.cols = x.cols := by
  unfold repeatRows at h
  split at h
  · cases h
  · split at h
    · cases h
    · dsimp only at h
      split at h
      · cases h
        rfl
      · cases h

theorem segmentReduce_cols {index : List Int} {dtype : DType} {init : Label} {f : Label → Label → Label}
    (h : x.segmentReduce index dtype init f = .ok y) : y.cols = x.cols := by
  unfold segmentReduce at h
  split at h
  · cases h
  · obtain ⟨counts, -, h⟩ := bind_ok h
    dsimp only at h
    split at h
    · cases h
    · cases h
      rfl

theorem scatterReduce_cols {target : List Int} {n : Int} {dtype : DType} {init empty : Label} {f : Label → Label → Label}
    (h : x.scatterReduce target n dtype init empty f = .ok y) : y.cols = x.cols := by
  unfold scatterReduce at h
  split at h
  · cases h
  · split at h
    · cases h
    · split at h
      · cases h
      · split at h
        · cases h
        · cases h
          rfl

/-- Side by side, the columns are counted together, in 64 bits. -/
theorem concat_cols {ts : List Tensor} (h : concat ts = .ok y) : y.cols = word (ts.map Tensor.cols).sum := by
  unfold concat at h
  split at h
  · cases h
  · rename_i t rest
    have hsum : (t :: rest).foldr (fun u n => u.cols + n) 0 = ((t :: rest).map Tensor.cols).sum := by
      rw [List.sum, List.foldr_map]
    split at h
    · cases h
    · dsimp only at h
      rw [hsum] at h
      split at h
      · cases h
      · split at h
        · cases h
          rfl
        · split at h
          · cases h
            rfl
          · cases h

end Tensor

/-! ## Operators -/

/-- A psi gives labels of the width that it declares, where it declares one. -/
def Psi.WidthKept (op : Psi) : Prop :=
  ∀ x y : Tensor, (op.single (some x) = .ok (some y) ∨ ∃ index, op.multiple (some x) index = .ok (some y)) →
    op.width x.cols ≠ unknownWidth → y.cols = op.width x.cols

/-- A sigma gives labels of the width that it declares for messages, where it declares one. -/
def Sigma.WidthKept (op : Sigma) : Prop :=
  ∀ (m x y : Tensor) (targets : List Int) (n : Int), op.aggregate (some m) targets n (some x) = .ok (some y) →
    op.width m.cols ≠ unknownWidth → y.cols = op.width m.cols

/-- A phi makes messages of the width that it declares for the labels at both ends of an edge, where it declares one. -/
def Phi.WidthKept (op : Phi) : Prop :=
  ∀ (s t y : Tensor) (e : Labels), s.cols = t.cols → op.messages (some s) e (some t) = .ok (some y) →
    op.width s.cols ≠ unknownWidth → y.cols = op.width s.cols

/-- A pointwise operator gives labels of the width that it declares if its function does. -/
theorem pointwise_widthKept {width : Int → Int} {f : Labels → Except Failure Labels}
    (h : ∀ x y : Tensor, f (some x) = .ok (some y) → width x.cols ≠ unknownWidth → y.cols = width x.cols) :
    (Psi.pointwise width f).WidthKept := by
  rintro x y (hy | ⟨index, hy⟩)
  · exact h x y hy
  · have hindex : (if index.isNone then .error (Psi.indexMissing (Bytes.ofString "local")) else f (some x)) = .ok (some y) := hy
    split at hindex
    · cases hindex
    · exact h x y hindex

/-- A pointwise operator that never fails gives labels of the width that it declares if its function does. -/
theorem total_widthKept {width : Int → Int} {f : Tensor → Tensor} (h : ∀ x, (f x).cols = width x.cols) :
    (Psi.total width f).WidthKept := by
  refine pointwise_widthKept fun x y hy _ => ?_
  obtain rfl : f x = y := Option.some.inj (Except.ok.inj hy)
  exact h x

/-- A pointwise operator whose result there is room for gives labels of the width that it declares if its function does. -/
theorem stored_widthKept {width : Int → Int} {f : Tensor → Option Tensor} (h : ∀ x y, f x = some y → y.cols = width x.cols) :
    (Psi.stored width f).WidthKept :=
  pointwise_widthKept fun x y hy _ => h x y (Psi.stored_ok width hy)

theorem constant_widthKept (dtype : DType) (v : Label) : (Builtin.constant dtype v).WidthKept := by
  refine stored_widthKept fun x y hy => ?_
  obtain ⟨rfl, -⟩ := Tensor.full?_some hy
  exact Tensor.full_cols _ _ _

theorem reduceRows_widthKept (dtype : DType) (f : List Label → Label) :
    (Psi.stored (Width.fixed 1) fun x => x.reduceRows? dtype f).WidthKept := by
  refine stored_widthKept fun x y hy => ?_
  obtain ⟨-, rfl⟩ := Tensor.reduceRows?_some hy
  rfl

/-- The differences of features are one less than the features, of which there must be two at least. -/
theorem difference_widthKept : Builtin.difference.WidthKept := by
  refine pointwise_widthKept fun x y hy _ => ?_
  obtain ⟨hcols, rfl⟩ := Builtin.differences_ok (x := x) (y := y) hy
  rw [Builtin.differencesWidth, if_neg hcols]
  rfl

/-- A row that is folded from labels, or one row for each graph, is as wide as the labels. -/
theorem pool_widthKept (name : String) (init : Label) (f : Label → Label → Label) : (Builtin.pool name init f).WidthKept := by
  rintro x y (hy | ⟨index, hy⟩) _
  · obtain ⟨pooled, hpooled, hspread⟩ := bind_ok hy
    obtain ⟨-, rfl⟩ := Builtin.poolAll_ok (x := x) hpooled
    unfold Psi.spreadOne at hspread
    split at hspread
    · cases hspread
    · obtain ⟨x', -, hspread⟩ := bind_ok hspread
      obtain ⟨y', hy', heq⟩ := map_ok hspread
      obtain rfl := Option.some.inj heq
      exact (Tensor.repeatRows_cols hy').trans rfl
  · cases index with
    | none => cases hy
    | some index =>
      have hbatch : (Tensor.segmentCounts index >>= fun counts =>
          x.segmentReduce index x.dtype init f >>= Psi.spreadAll (Bytes.ofString name) counts) = .ok (some y) := hy
      obtain ⟨counts, -, hbatch⟩ := bind_ok hbatch
      obtain ⟨pooled, hpooled, hspread⟩ := bind_ok hbatch
      unfold Psi.spreadAll at hspread
      split at hspread
      · cases hspread
      · obtain ⟨y', hy', heq⟩ := map_ok hspread
        obtain rfl := Option.some.inj heq
        exact (Tensor.repeatRows_cols hy').trans (Tensor.segmentReduce_cols hpooled)

/-- Every builtin psi gives labels of the width that it declares. -/
theorem Builtin.psi_widthKept {name : Bytes} {arg : Argument} {op : Psi} (h : Builtin.psi.get name arg = .ok op) : op.WidthKept := by
  have hevery : Builtin.psi.Every fun _ _ op => op.WidthKept := by
    refine psi_every ?_ ?_ ?_ ?_ ?_ ?_ ?_ ?_ ?_ ?_ ?_
    · exact fun _ _ _ k => total_widthKept fun _ => rfl
    · exact fun _ v => constant_widthKept _ v
    · exact fun _ _ _ v => constant_widthKept _ v
    · exact fun _ => reduceRows_widthKept _ _
    · exact fun _ => reduceRows_widthKept _ _
    · exact fun _ => total_widthKept fun _ => rfl
    · refine fun _ => pointwise_widthKept fun x y hy _ => ?_
      obtain rfl : x = y := Option.some.inj (Except.ok.inj hy)
      rfl
    · exact fun _ => total_widthKept fun _ => rfl
    · exact fun _ _ _ => difference_widthKept
    · exact fun _ => pool_widthKept _ _ _
    · exact fun _ => pool_widthKept _ _ _
  exact hevery.get h

/-- Every builtin sigma gives labels as wide as the messages. -/
theorem Builtin.sigma_widthKept {key : Bytes} {op : Sigma} (h : Builtin.sigma.resolve key = .ok op) : op.WidthKept := by
  have hgather : ∀ dtype init empty f, (gather dtype init empty f).WidthKept := by
    intro dtype init empty f m x y targets n hy _
    have hscatter : (some <$> m.scatterReduce targets n (dtype.getD m.dtype) init empty f) = .ok (some y) := hy
    obtain ⟨y', hy', heq⟩ := map_ok hscatter
    obtain rfl := Option.some.inj heq
    exact Tensor.scatterReduce_cols hy'
  have hevery : Builtin.sigma.Every fun _ _ op => op.WidthKept :=
    sigma_every (fun _ _ _ _ _ _ => hgather _ _ _ _) fun _ _ _ _ _ _ => hgather _ _ _ _
  exact hevery.resolve h

/-- Every builtin phi makes messages of the width that it declares; that of edge labels is not declared. -/
theorem Builtin.phi_widthKept {key : Bytes} {op : Phi} (h : Builtin.phi.resolve key = .ok op) : op.WidthKept := by
  have hevery : Builtin.phi.Every fun _ _ op => op.WidthKept := by
    refine phi_every ?_ ?_ ?_ ?_
    · intro _ s t y e hst hy _
      obtain ⟨-, -, -, -, -, rfl⟩ := zeroEdge_ok (e := e) (x := t) (y := y) hy
      exact hst.symm
    · intro _ s t y e _ hy _
      obtain rfl : s = y := Option.some.inj (Except.ok.inj hy)
      rfl
    · intro _ s t y e hst hy _
      obtain rfl : t = y := Option.some.inj (Except.ok.inj hy)
      exact hst.symm
    · exact fun _ _ _ _ _ _ _ hwidth => absurd rfl hwidth
  exact hevery.resolve h

end ModalGraph
