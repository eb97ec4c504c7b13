import ModalGraph.Proofs.Operator.Parts
import ModalGraph.Proofs.Tensor.Folds
import ModalGraph.Proofs.Tensor.Runs

/-!
# Operators that fold rows

Pooling a batch gives every node the fold over the rows with the number of its graph, whatever these numbers are, and it is pooling the
graphs one by one (`pool_folds`). Gathering messages folds at every node those sent there (`scatterReduce_folds`), and they may come in
another order, each with its target, if the fold does not mind. It gives up only on more nodes or labels than can be stored
(`scatterReduce_without_room`).
-/

namespace ModalGraph

open Tensor FoldsAux

/-! ## Pooling -/

section

variable {n w : Nat} {x : Tensor} {index : List Int} {counts : List Nat}

theorem spread_oneGraph (g : List (List Label) → List Label) {rows : List (List Label)} :
    spread g (oneGraph rows.length) rows = List.replicate rows.length (g rows) := by
  rw [oneGraph]
  split
  · rename_i hzero
    rw [hzero]
    rfl
  · rw [spread, spread, List.take_length, List.append_nil]

theorem pool_multiple_fails (name : String) (init : Label) (f : Label → Label → Label) (hx : x.Shaped n w)
    (h : Decreases index ∨ index.length ≠ n) :
    ∃ e, e ≠ .aborted ∧ (Builtin.pool name init f).multiple (some x) (some index) = .error e := by
  show ∃ e, e ≠ .aborted ∧ (segmentCounts index >>= fun counts =>
    x.segmentReduce index x.dtype init f >>= Psi.spreadAll (Bytes.ofString name) counts) = .error e
  cases hcounts : segmentCounts index with
  | error e => exact ⟨e, segmentCounts_error hcounts, rfl⟩
  | ok counts =>
    have hlen : (index.length : Int) ≠ x.rows := by
      rw [hx.rows_eq]
      exact_mod_cast h.resolve_left (segmentCounts_ok_iff.mp ⟨counts, hcounts⟩)
    refine ⟨.shapeIn "segment reduce" (.indexLength index.length x.rows), by simp [Failure.shapeIn], ?_⟩
    rw [ok_bind, segmentReduce, if_pos hlen]
    rfl

/-- Pooling a batch fails exactly if the index decreases or does not go with the rows, and then by itself. -/
theorem pool_multiple_error_iff (name : String) (init : Label) (f : Label → Label → Label) (hx : x.Shaped n w)
    (hfit : n * w ≤ capacity) (index : List Int) :
    ((∃ e, (Builtin.pool name init f).multiple (some x) (some index) = .error e) ↔ Decreases index ∨ index.length ≠ n) ∧
      (Builtin.pool name init f).multiple (some x) (some index) ≠ .error .aborted := by
  by_cases h : Decreases index ∨ index.length ≠ n
  · obtain ⟨e, hne, he⟩ := pool_multiple_fails name init f hx h
    exact ⟨⟨fun _ => h, fun _ => ⟨e, he⟩⟩, fun habort => hne (Except.error.inj (he.symm.trans habort))⟩
  · obtain ⟨hup, hlen⟩ := not_or.mp h
    obtain ⟨counts, hcounts⟩ := segmentCounts_ok_iff.mpr hup
    rw [pool_multiple_eq name init f hx hfit (not_not.mp hlen) hcounts]
    simp [h]

/-- The rows with the number of each node folded into one. -/
def pooledRows (x : Tensor) (w : Nat) (index : List Int) (init : Label) (f : Label → Label → Label) : List (List Label) :=
  index.map fun d => pooledRow w x.dtype init f ((places d index).map x.row)

theorem width_pooledRows (hx : x.Shaped n w) (hlen : index.length = n) (init : Label) (f : Label → Label → Label) :
    ∀ r ∈ pooledRows x w index init f, r.length = w :=
  List.forall_mem_map.mpr fun d _ =>
    length_pooledRow (List.forall_mem_map.mpr fun i hi => length_row hx (lt_of_mem_places hlen d i hi))

theorem pooledRows_shaped (hx : x.Shaped n w) (hlen : index.length = n) (init : Label) (f : Label → Label → Label) :
    (ofRows w x.dtype (pooledRows x w index init f)).Shaped n w := by
  have h := ofRows_shaped x.dtype (width_pooledRows hx hlen init f)
  rwa [pooledRows, List.length_map, hlen] at h

/-- What is given to all rows of a run is given to each row by its number. -/
theorem Tensor.Runs.pooled_eq (h : Runs index counts) (hx : x.Shaped n w) (hlen : index.length = n) (init : Label)
    (f : Label → Label → Label) : spread (pooledRow w x.dtype init f) counts x.rowList = pooledRows x w index init f := by
  rw [h.spread_eq _ (by rw [length_rowList hx, hlen])]
  exact List.map_congr_left fun d _ => congrArg _ (rows_beside hx hlen d)

/-- The label of a node is the fold over the rows with its number. -/
theorem at?_pooledRows (hx : x.Shaped n w) (hfit : n * w ≤ capacity) (hlen : index.length = n) (init : Label)
    (f : Label → Label → Label) {k j : Nat} {d : Int} (hd : index[k]? = some d) (hj : j < w) :
    (ofRows w x.dtype (pooledRows x w index init f)).at? k j = some (x.dtype.cast (x.foldColumn f init j (places d index))) := by
  have hk : k < n := by
    rw [← hlen]
    exact (List.getElem?_eq_some_iff.mp hd).1
  have hrow : (pooledRows x w index init f)[k]? = some (pooledRow w x.dtype init f ((places d index).map x.row)) := by
    rw [pooledRows, List.getElem?_map, hd]
    rfl
  rw [at?_eq (pooledRows_shaped hx hlen init f) hfit hk hj, row_ofRows (width_pooledRows hx hlen init f) hrow, pooledRow,
    List.getElem?_map, getElem?_foldRows_rows hx f init (lt_of_mem_places hlen d) hj]
  rfl

/-- Pooling the graph of some rows. -/
theorem pool_single_ofRows (name : String) (init : Label) (f : Label → Label → Label) (d : DType) {rows : List (List Label)}
    (hwidth : ∀ r ∈ rows, r.length = w) (hle : rows.length ≤ n) (hfit : n * w ≤ capacity) (hone : w ≤ capacity) :
    (Builtin.pool name init f).single (some (ofRows w d rows)) =
      .ok (some (ofRows w d (List.replicate rows.length (pooledRow w d init f rows)))) := by
  have hrows : rows.length * w ≤ capacity := Nat.le_trans (Nat.mul_le_mul_right w hle) hfit
  rw [pool_single_eq name init f (ofRows_shaped d hwidth) hrows hone, rowList_ofRows hwidth]
  exact congrArg (fun rows => Except.ok (some (ofRows w d rows))) (spread_oneGraph _)

theorem hasRows_replicate_pooledRow (init : Label) (f : Label → Label → Label) (d : DType) {rows : List (List Label)}
    (hwidth : ∀ r ∈ rows, r.length = w) : (ofRows w d (List.replicate n (pooledRow w d init f rows))).HasRows n w d
      (List.replicate n (pooledRow w d init f rows)) := by
  refine hasRows_ofRows List.length_replicate (fun r hr => ?_) (exact_of_cast fun r hr => ⟨_, List.eq_of_mem_replicate hr⟩)
  rw [List.eq_of_mem_replicate hr]
  exact length_pooledRow hwidth

/-- Pooling a batch is pooling its graphs one by one. -/
theorem Tensor.Runs.stack_pooled (h : Runs index counts) (hx : x.Shaped n w) (hfit : n * w ≤ capacity) (hn : n < 2 ^ 63)
    (hlen : index.length = n) (hne : index ≠ []) (hsum : counts.sum = n) (name : String) (init : Label) (f : Label → Label → Label) :
    ∃ ys, (x.graphs index).mapM (fun y => (Builtin.pool name init f).single (some y)) = .ok (ys.map some) ∧
      stack ys = .ok (ofRows w x.dtype (spread (pooledRow w x.dtype init f) counts x.rowList)) := by
  have hrows : counts.sum = x.rowList.length := hsum.trans (length_rowList hx).symm
  have hflat : (pieces counts x.rowList).flatten = x.rowList := flatten_pieces hrows
  have htotal : ((pieces counts x.rowList).map List.length).sum = n := by
    rw [← List.length_flatten, hflat, length_rowList hx]
  have hwidth : ∀ piece ∈ pieces counts x.rowList, ∀ r ∈ piece, r.length = w := fun piece hpiece r hr =>
    width_of_mem_rowList hx r (hflat ▸ List.mem_flatten.mpr ⟨piece, hpiece, hr⟩)
  have hsize : ∀ piece ∈ pieces counts x.rowList, piece.length ≤ n := by
    intro piece hpiece
    rw [← length_rowList hx, ← hflat]
    exact (List.sublist_flatten_of_mem hpiece).length_le
  have hpieces : pieces counts x.rowList ≠ [] := by
    intro hnil
    rw [hnil] at htotal
    exact hne (List.length_eq_zero_iff.mp (hlen.trans htotal.symm))
  have hone : w ≤ capacity := by
    have hpos : 0 < n := hlen ▸ List.length_pos_of_ne_nil hne
    exact Nat.le_trans (Nat.le_mul_of_pos_left w hpos) hfit
  refine ⟨(pieces counts x.rowList).map fun piece =>
    ofRows w x.dtype (List.replicate piece.length (pooledRow w x.dtype init f piece)), ?_, ?_⟩
  · rw [graphs, h.runs_eq (by rw [length_rowList hx, hlen]), hx.cols_eq, List.mapM_map, List.map_map]
    exact RowsAux.mapM_eq_ok fun piece hpiece =>
      pool_single_ofRows name init f x.dtype (hwidth piece hpiece) (hsize piece hpiece) hfit hone
  · have hpooled := fun piece hpiece => hasRows_replicate_pooledRow (n := piece.length) init f x.dtype (hwidth piece hpiece)
    rw [stack_eq hpieces hpooled (by rwa [htotal]) (by rwa [htotal]), spread_eq_flatMap _ hrows]

end

/-- Pooling a batch fails exactly if the index decreases somewhere or does not have one number for each row. Otherwise every node gets,
column by column, the fold over the rows with the number of its graph, in their order, whatever the numbers are. And this is what
pooling the graphs one by one gives, one below the other. -/
theorem pool_folds (name : String) (init : Label) (f : Label → Label → Label) {x : Tensor} (hx : x.WellFormed)
    (hrows : x.rows < 2 ^ 63) (hsize : x.data.size ≤ capacity) (index : List Int) :
    ((∃ e, (Builtin.pool name init f).multiple (some x) (some index) = .error e) ↔
        Decreases index ∨ (index.length : Int) ≠ x.rows) ∧
      (Builtin.pool name init f).multiple (some x) (some index) ≠ .error .aborted ∧
      ∀ out, (Builtin.pool name init f).multiple (some x) (some index) = .ok out →
        ∃ y, out = some y ∧ y.WellFormed ∧ y.rows = x.rows ∧ y.cols = x.cols ∧ y.dtype = x.dtype ∧
          (∀ (k j : Nat) (d : Int), index[k]? = some d → (j : Int) < x.cols →
            y.at? k j = some (x.dtype.cast (x.foldColumn f init j (places d index)))) ∧
          (index ≠ [] → ∃ ys, (x.graphs index).mapM (fun g => (Builtin.pool name init f).single (some g)) = .ok (ys.map some) ∧
            stack ys = .ok y) := by
  obtain ⟨hrows0, hcols0, -⟩ := id hx
  have hcols : x.cols = x.cols.toNat := (Int.toNat_of_nonneg hcols0).symm
  have hshaped := hx.shaped hcols
  have hfit : x.rows.toNat * x.cols.toNat ≤ capacity := hshaped.size_eq ▸ hsize
  have hn : x.rows.toNat < 2 ^ 63 := by omega
  have hlength : (index.length : Int) ≠ x.rows ↔ index.length ≠ x.rows.toNat := by omega
  obtain ⟨hfails, habort⟩ := pool_multiple_error_iff name init f hshaped hfit index
  rw [hlength]
  refine ⟨hfails, habort, fun out hout => ?_⟩
  have hok : ¬(Decreases index ∨ index.length ≠ x.rows.toNat) := fun h => by
    obtain ⟨e, he⟩ := hfails.mpr h
    exact nomatch hout.symm.trans he
  obtain ⟨hup, hlen⟩ := not_or.mp hok
  have hlen := not_not.mp hlen
  obtain ⟨counts, hcounts⟩ := segmentCounts_ok_iff.mpr hup
  have hruns := runs_of_segmentCounts hcounts
  have hspread := hruns.pooled_eq hshaped hlen init f
  rw [pool_multiple_eq name init f hshaped hfit hlen hcounts, hspread] at hout
  have hy := pooledRows_shaped hshaped hlen init f
  refine ⟨_, (Except.ok.inj hout).symm, hy.wellFormed, ?_, hcols.symm, rfl, fun k j d hd hj => ?_, fun hne => ?_⟩
  · rw [hy.rows_eq, Int.toNat_of_nonneg hrows0]
  · exact at?_pooledRows hshaped hfit hlen init f hd (by omega)
  · rw [← hspread]
    exact hruns.stack_pooled hshaped hfit hn hlen hne ((segmentCounts_sum hcounts).trans hlen) name init f

namespace Sample

/-- Four bytes in a column, and truth values beside them. -/
def fourRows : Tensor :=
  ofRows (2 : Nat) .uint8 [[Label.ofNat 200, Label.one], [Label.ofNat 100, Label.zero], [Label.ofNat 7, Label.zero],
    [Label.zero, Label.zero]]

theorem wellFormed_fourRows : fourRows.WellFormed :=
  (ofRows_shaped .uint8 (by decide +kernel)).wellFormed

end Sample

/-- Two graphs with numbers that are not consecutive. In bytes, 200 and 100 sum up to 44. -/
theorem pool_folds_fourRows : Sample.fourRows.WellFormed ∧ Sample.fourRows.rows < 2 ^ 63 ∧ Sample.fourRows.data.size ≤ capacity ∧
    ∃ y, (Builtin.pool "gsum" Label.zero Label.add).multiple (some Sample.fourRows) (some [-5, -5, 8, 8]) = .ok (some y) ∧
      y.at? 1 0 = some (Label.ofNat 44) ∧ y.at? 2 0 = some (Label.ofNat 7) := by
  have hrows : Sample.fourRows.rows < 2 ^ 63 := by decide +kernel
  have hsize : Sample.fourRows.data.size ≤ capacity := by decide +kernel
  obtain ⟨hfails, -, hfolds⟩ :=
    pool_folds "gsum" Label.zero Label.add Sample.wellFormed_fourRows hrows hsize [-5, -5, 8, 8]
  have hok : ¬(Decreases [-5, -5, 8, 8] ∨ (([-5, -5, 8, 8] : List Int).length : Int) ≠ Sample.fourRows.rows) :=
    not_or.mpr ⟨not_decreases.mpr (by decide), by decide +kernel⟩
  refine ⟨Sample.wellFormed_fourRows, hrows, hsize, ?_⟩
  cases hout : (Builtin.pool "gsum" Label.zero Label.add).multiple (some Sample.fourRows) (some [-5, -5, 8, 8]) with
  | error e => exact absurd (hfails.mp ⟨e, hout⟩) hok
  | ok out =>
    obtain ⟨y, rfl, -, -, -, -, hlabels, -⟩ := hfolds out hout
    refine ⟨y, rfl, (hlabels 1 0 (-5) rfl (by decide +kernel)).trans ?_, (hlabels 2 0 8 rfl (by decide +kernel)).trans ?_⟩
    · decide +kernel
    · decide +kernel

/-! ## Gathering -/

theorem anyTrue_right_comm (a u v : Label) :
    Builtin.anyTrue (Builtin.anyTrue a u) v = Builtin.anyTrue (Builtin.anyTrue a v) u := by
  simp only [Builtin.anyTrue]
  split <;> split <;> rfl

theorem allTrue_right_comm (a u v : Label) :
    Builtin.allTrue (Builtin.allTrue a u) v = Builtin.allTrue (Builtin.allTrue a v) u := by
  simp only [Builtin.allTrue]
  split <;> split <;> rfl

/-- Sending rows to places gives up only if there is no room for the places. -/
theorem scatterReduce_not_aborted {n w k : Nat} {x : Tensor} (hx : x.Shaped k w) (hseats : (n : Int) ≤ seats)
    (hfit : n * w ≤ capacity) (target : List Int) (dtype : DType) (init empty : Label) (f : Label → Label → Label) :
    x.scatterReduce target n dtype init empty f ≠ .error .aborted := by
  by_cases hok : target.length = k ∧ ∀ d ∈ target, 0 ≤ d ∧ d < (n : Int)
  · rw [scatterReduce_eq hx hok.1 hok.2 hfit hseats]
    simp
  · have hvolume : ¬((n : Int) < 0 ∨ seats < n ∨ (volume? n x.cols).isNone) := by
      rw [hx.cols_eq, volume?_natCast hfit]
      simp only [Option.isNone_some, Bool.false_eq_true, or_false, not_or, Int.not_lt]
      omega
    rw [scatterReduce, hx.rows_eq, rowsReach_of_shaped hx, if_pos rfl, if_neg hvolume]
    split
    · simp [Failure.shapeIn]
    · rename_i hlen
      split
      · simp [Failure.shapeIn]
      · rename_i hfault
        exact absurd ⟨by omega, RowsAux.findSome?_targetFault_eq_none.mp hfault⟩ hok

theorem scatterReduce_error_iff {w k : Nat} {x : Tensor} (hx : x.Shaped k w) {target : List Int} {n : Int} (h0 : 0 ≤ n) (dtype : DType)
    (init empty : Label) (f : Label → Label → Label) :
    (∃ e, x.scatterReduce target n dtype init empty f = .error e) ↔
      target.length ≠ k ∨ (∃ d ∈ target, d < 0 ∨ n ≤ d) ∨ seats < n ∨ capacity < n * w := by
  have hok : (∃ e, x.scatterReduce target n dtype init empty f = .error e) ↔
      ¬∃ y, x.scatterReduce target n dtype init empty f = .ok y := by
    cases x.scatterReduce target n dtype init empty f <;> simp
  simp only [hok, scatterReduce_eq_ok hx h0, exists_eq_right, Classical.not_and_iff_not_or_not, not_forall, Int.not_le, Int.not_lt,
    exists_prop]

/-- Sending the rows of a tensor to places fails exactly if there is not one target for each row, or a target is not among the places,
or the places are too many to be stored; only then does it give up. Otherwise every place gets, column by column, the fold over the
rows whose target it is, in their order, or the empty label if there are none. So the rows may come in any other order, each with its
target, if the fold does not mind; and the folds for disjunction and conjunction do not. -/
theorem scatterReduce_folds {x : Tensor} (hx : x.WellFormed) (target : List Int) {n : Int} (h0 : 0 ≤ n) (dtype : DType)
    (init empty : Label) (f : Label → Label → Label) :
    ((∃ e, x.scatterReduce target n dtype init empty f = .error e) ↔
        (target.length : Int) ≠ x.rows ∨ (∃ d ∈ target, d < 0 ∨ n ≤ d) ∨ seats < n ∨ capacity < n * x.cols) ∧
      (x.scatterReduce target n dtype init empty f = .error .aborted → seats < n ∨ capacity < n * x.cols) ∧
      (∀ y, x.scatterReduce target n dtype init empty f = .ok y →
        y.WellFormed ∧ y.rows = n ∧ y.cols = x.cols ∧ y.dtype = dtype ∧
          ∀ d j : Nat, (d : Int) < n → (j : Int) < x.cols → y.at? d j =
            some (dtype.cast (if places d target = [] then empty else x.foldColumn f init j (places d target)))) ∧
      ((∀ a u v, f (f a u) v = f (f a v) u) → ∀ (x' : Tensor) (target' : List Int), x'.WellFormed → x'.rows = x.rows →
        x'.cols = x.cols → target'.length = target.length → (target'.zip x'.rowList).Perm (target.zip x.rowList) →
          ∀ y, x'.scatterReduce target' n dtype init empty f = .ok y ↔ x.scatterReduce target n dtype init empty f = .ok y) ∧
      ∀ name ∈ ["or", "uor", "and"], ∃ (g : Label → Label → Label) (unit : Label), (∀ a u v, g (g a u) v = g (g a v) u) ∧
        Builtin.sigma.get (Bytes.ofString name) none = .ok (Builtin.gather (some .bool) unit unit g) := by
  obtain ⟨hrows0, hcols0, -⟩ := id hx
  have hcols : x.cols = x.cols.toNat := (Int.toNat_of_nonneg hcols0).symm
  have hrows : (x.rows.toNat : Int) = x.rows := Int.toNat_of_nonneg hrows0
  have hshaped := hx.shaped hcols
  have hwidth : (x.cols.toNat : Int) = x.cols := hcols.symm
  refine ⟨?_, fun habort => ?_, fun y hy => ?_, fun hcomm x' target' hx' hrows' hcols' hlen' hperm y => ?_, fun name hname => ?_⟩
  · rw [scatterReduce_error_iff hshaped h0, hwidth]
    exact or_congr (by omega) Iff.rfl
  · by_contra hno
    obtain ⟨hseats, hfit⟩ := not_or.mp hno
    obtain ⟨n, rfl⟩ := Int.eq_ofNat_of_zero_le h0
    rw [hcols] at hfit
    exact scatterReduce_not_aborted hshaped (by omega) (by exact_mod_cast Int.not_lt.mp hfit) target dtype init empty f habort
  · obtain ⟨⟨hlen, htarget, -, hfit⟩, rfl⟩ := (scatterReduce_eq_ok hshaped h0).mp hy
    have hplaces := folded_shaped hshaped target n.toNat dtype init empty f
    refine ⟨hplaces.wellFormed, hplaces.rows_eq.trans (Int.toNat_of_nonneg h0), hcols.symm, rfl, fun d j hd hj => ?_⟩
    obtain ⟨n, rfl⟩ := Int.eq_ofNat_of_zero_le h0
    exact at?_folded hshaped hlen (fun d hd => (htarget d hd).1) (by exact_mod_cast hfit) (by omega) (by omega)
  · have : RightCommutative f := ⟨hcomm⟩
    have hshaped' := hx'.shaped (hcols'.trans hcols)
    rw [hrows'] at hshaped'
    rw [scatterReduce_eq_ok hshaped' h0, scatterReduce_eq_ok hshaped h0, folded_perm hperm, hlen']
    refine and_congr_left fun _ => and_congr_right fun hlen => and_congr_left fun _ => ?_
    have htarget : target'.Perm target := by
      refine perm_of_perm_zip ?_ ?_ hperm
      · rw [length_rowList hshaped, hlen]
      · rw [length_rowList hshaped', hlen', hlen]
    exact forall_congr' fun d => by rw [htarget.mem_iff]
  · simp only [List.mem_cons, List.not_mem_nil, or_false] at hname
    rcases hname with rfl | rfl | rfl
    · exact ⟨_, _, anyTrue_right_comm, rfl⟩
    · exact ⟨_, _, anyTrue_right_comm, rfl⟩
    · exact ⟨_, _, allTrue_right_comm, rfl⟩

/-- Rows sent to two of four places, and the same rows from the last to the first. -/
theorem scatterReduce_folds_fourRows : Sample.fourRows.WellFormed ∧ (0 : Int) ≤ 4 ∧
    ∃ y, Sample.fourRows.scatterReduce [2, 0, 2, 0] 4 .bool Label.zero Label.one Builtin.anyTrue = .ok y ∧
      y.at? 0 1 = some Label.zero ∧ y.at? 1 0 = some Label.one ∧ y.at? 2 1 = some Label.one ∧
      (ofRows (2 : Nat) .uint8 Sample.fourRows.rowList.reverse).scatterReduce [0, 2, 0, 2] 4 .bool Label.zero Label.one
        Builtin.anyTrue = .ok y := by
  have h0 : (0 : Int) ≤ 4 := by decide
  obtain ⟨hfails, -, hfolds, hperm, -⟩ :=
    scatterReduce_folds Sample.wellFormed_fourRows [2, 0, 2, 0] h0 .bool Label.zero Label.one Builtin.anyTrue
  refine ⟨Sample.wellFormed_fourRows, h0, ?_⟩
  cases hout : Sample.fourRows.scatterReduce [2, 0, 2, 0] 4 .bool Label.zero Label.one Builtin.anyTrue with
  | error e => exact absurd (hfails.mp ⟨e, hout⟩) (by decide +kernel)
  | ok y =>
    obtain ⟨-, -, -, -, hlabels⟩ := hfolds y hout
    refine ⟨y, rfl, (hlabels 0 1 (by decide) (by decide +kernel)).trans ?_, (hlabels 1 0 (by decide) (by decide +kernel)).trans ?_,
      (hlabels 2 1 (by decide) (by decide +kernel)).trans ?_, ?_⟩
    · decide +kernel
    · decide +kernel
    · decide +kernel
    · refine (hperm anyTrue_right_comm _ [0, 2, 0, 2] ?_ ?_ ?_ rfl ?_ y).mpr hout
      · exact (ofRows_shaped .uint8 (by decide +kernel)).wellFormed
      · decide +kernel
      · decide +kernel
      · decide +kernel

/-- No row at all is sent to more places than there can be: it fails, although every row has its target among the places. -/
theorem scatterReduce_without_room : (ofRows (0 : Nat) .float64 []).WellFormed ∧
    ¬((∃ e, (ofRows (0 : Nat) .float64 []).scatterReduce [] (2 ^ 62) .float64 Label.zero Label.zero Label.add = .error e) ↔
      (([] : List Int).length : Int) ≠ (ofRows (0 : Nat) .float64 []).rows ∨ ∃ d ∈ ([] : List Int), d < 0 ∨ 2 ^ 62 ≤ d) := by
  refine ⟨(ofRows_shaped .float64 (List.forall_mem_nil _)).wellFormed, fun h => ?_⟩
  exact absurd (h.mp ⟨.aborted, rfl⟩) (by decide)

end ModalGraph
