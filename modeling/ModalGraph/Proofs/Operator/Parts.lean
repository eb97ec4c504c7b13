import ModalGraph.Proofs.Formula.Domain
import ModalGraph.Proofs.Formula.Width
import ModalGraph.Proofs.Tensor.Parts

/-!
# Builtin operators part by part

On graphs put together, every builtin psi gives what it gives on the graphs one by one, put together (`Psi.Acts`): it looks at one row
at a time, or folds the rows of each graph by themselves. On one graph, and on a batch by the sizes of its graphs, it is the same
function of the rows.
-/

namespace ModalGraph

open Tensor

/-- The sizes of the graphs in one graph with `n` nodes: empty graphs do not count. -/
def oneGraph (n : Nat) : List Nat :=
  if n = 0 then [] else [n]

theorem sum_oneGraph (n : Nat) : (oneGraph n).sum = n := by
  rw [oneGraph]
  split <;> simp_all

/-- What an operator does to the rows of graphs of some sizes: on graphs put together it gives what it gives on each of them. -/
structure Partwise (w w' : Nat) (d d' : DType) (F : List Nat → List (List Label) → List (List Label)) : Prop where
  append : ∀ {c₁ c₂ a b}, c₁.sum = a.length → F (c₁ ++ c₂) (a ++ b) = F c₁ a ++ F c₂ b
  length : ∀ {c a}, c.sum = a.length → (F c a).length = a.length
  width : ∀ {c a}, (∀ r ∈ a, r.length = w) → ∀ r ∈ F c a, r.length = w'
  exact : ∀ {c a}, Exact d a → Exact d' (F c a)

section

variable {w w' : Nat} {d d' : DType} {F : List Nat → List (List Label) → List (List Label)}

/-- Several graphs put together. -/
theorem Partwise.flatMap (h : Partwise w w' d d' F) {ι : Type} {is : List ι} {counts : ι → List Nat}
    {rows : ι → List (List Label)} (hsum : ∀ i ∈ is, (counts i).sum = (rows i).length) :
    F (is.flatMap counts) (is.flatMap rows) = is.flatMap fun i => F (counts i) (rows i) := by
  induction is with
  | nil =>
    have hlen : (F [] []).length = 0 := h.length rfl
    exact List.length_eq_zero_iff.mp hlen
  | cons i is ih =>
    rw [List.flatMap_cons, List.flatMap_cons, List.flatMap_cons, h.append (hsum i List.mem_cons_self),
      ih fun j hj => hsum j (List.mem_cons_of_mem _ hj)]

theorem Partwise.hasRows (h : Partwise w w' d d' F) {n : Nat} {counts : List Nat} {rows : List (List Label)} {x : Tensor}
    (hx : x.HasRows n w d rows) (hsum : counts.sum = n) : (ofRows w' d' (F counts rows)).HasRows n w' d' (F counts rows) :=
  hasRows_ofRows ((h.length (hsum.trans hx.length.symm)).trans hx.length) (h.width hx.width) (h.exact hx.exact)

end

/-- An operator that gives a function of the rows, on one graph and on a batch. On one graph it may find no room even so. -/
structure Psi.Acts (psi : Psi) (w w' : Nat) (d d' : DType) (F : List Nat → List (List Label) → List (List Label)) : Prop
    extends Partwise w w' d d' F where
  single : ∀ {n rows x out}, x.HasRows n w d rows → Storable n w' → psi.single (some x) = .ok out →
    out = some (ofRows w' d' (F (oneGraph n) rows))
  multiple : ∀ {n rows x index counts}, x.HasRows n w d rows → Storable n w' → index.length = n → segmentCounts index = .ok counts →
    psi.multiple (some x) (some index) = .ok (some (ofRows w' d' (F counts rows)))

/-- An operator that gives a function of the rows, or fails on all labels of that width and domain. -/
def Psi.ActsOrFails (psi : Psi) (w : Nat) (d d' : DType) : Prop :=
  (∀ n rows x, x.HasRows n w d rows → ∃ f, psi.single (some x) = .error f) ∨ ∃ F, psi.Acts w (psi.width w).toNat d d' F

/-! ## Row by row -/

/-- An operator that does the same to every row. -/
theorem pointwise_acts {width : Int → Int} {f : Labels → Except Failure Labels} {w w' : Nat} {d d' : DType}
    (g : List Label → List Label)
    (hf : ∀ {n rows x}, x.HasRows n w d rows → Storable n w' → f (some x) = .ok (some (ofRows w' d' (rows.map g))))
    (hwidth : ∀ r, r.length = w → (g r).length = w') (hexact : ∀ {rows}, Exact d rows → Exact d' (rows.map g)) :
    (Psi.pointwise width f).Acts w w' d d' fun _ rows => rows.map g where
  append := fun _ => List.map_append
  length := fun _ => List.length_map _
  width := by
    intro c a ha r hr
    obtain ⟨r', hr', rfl⟩ := List.mem_map.mp hr
    exact hwidth r' (ha r' hr')
  exact := hexact
  single := fun hx hstore hout => Except.ok.inj (hout.symm.trans (hf hx hstore))
  multiple := fun hx hstore _ _ => hf hx hstore

theorem exact_map_cast (d : DType) (f : List Label → List Label) (rows : List (List Label)) :
    Exact d (rows.map fun r => (f r).map d.cast) := by
  refine exact_of_cast fun r hr => ?_
  obtain ⟨r', _, rfl⟩ := List.mem_map.mp hr
  exact ⟨f r', rfl⟩

/-- A pointwise operator that takes what it makes of a row into a domain. -/
theorem total_acts {width : Int → Int} {f : Tensor → Tensor} {w w' : Nat} {d d' : DType} (g : List Label → List Label)
    (hf : ∀ {n rows x}, x.HasRows n w d rows → f x = ofRows w' d' (rows.map fun r => (g r).map d'.cast))
    (hwidth : ∀ r, r.length = w → (g r).length = w') :
    (Psi.total width f).Acts w w' d d' fun _ rows => rows.map fun r => (g r).map d'.cast := by
  refine pointwise_acts (fun r => (g r).map d'.cast) (fun hx _ => ?_) (fun r hr => ?_) fun _ => exact_map_cast d' g _
  · exact congrArg (fun y => Except.ok (some y)) (hf hx)
  · rw [List.length_map, hwidth r hr]

/-- A pointwise operator that does so where there is room. -/
theorem stored_acts {width : Int → Int} {f : Tensor → Option Tensor} {w w' : Nat} {d d' : DType} (g : List Label → List Label)
    (hf : ∀ {n rows x}, x.HasRows n w d rows → Storable n w' → f x = some (ofRows w' d' (rows.map fun r => (g r).map d'.cast)))
    (hwidth : ∀ r, r.length = w → (g r).length = w') :
    (Psi.stored width f).Acts w w' d d' fun _ rows => rows.map fun r => (g r).map d'.cast := by
  refine pointwise_acts (fun r => (g r).map d'.cast) (fun hx hstore => ?_) (fun r hr => ?_) fun _ => exact_map_cast d' g _
  · exact congrArg (fun o => some <$> orAborted o) (hf hx hstore)
  · rw [List.length_map, hwidth r hr]

theorem map_ofRows (w : Int) (d d' : DType) (rows : List (List Label)) (f : Label → Label) :
    (ofRows w d rows).map d' f = ofRows w d' (rows.map fun r => (r.map f).map d'.cast) := by
  simp only [Tensor.map, ofRows, List.length_map, List.map_toArray, List.map_flatten, List.map_map]
  rfl

/-- An operator on every label. -/
theorem map_acts {width : Int → Int} (w : Nat) (d : DType) (d' : DType → DType) (f : Label → Label) :
    (Psi.total width fun x => x.map (d' x.dtype) f).Acts w w d (d' d) fun _ rows => rows.map fun r => (r.map f).map (d' d).cast := by
  refine total_acts (List.map f) (fun hx => ?_) fun r hr => ?_
  · rw [hx.dtype_eq, hx.eq, map_ofRows]
  · rw [List.length_map, hr]

/-- An operator that folds every row into one label. -/
theorem reduce_acts {width : Int → Int} (w : Nat) (d d' : DType) (f : List Label → Label) :
    (Psi.stored width fun x => x.reduceRows? d' f).Acts w 1 d d' fun _ rows => rows.map fun r => [f r].map d'.cast := by
  refine stored_acts (fun r => [f r]) (fun {n _ _} hx hstore => ?_) fun r _ => rfl
  rw [reduceRows?_eq hx.shaped (Nat.mul_one n ▸ hstore), Tensor.reduceRows, hx.rowList_eq]
  rfl

theorem constant_acts (w : Nat) (d d' : DType) (v : Label) :
    (Builtin.constant d' v).Acts w 1 d d' fun _ rows => rows.map fun _ => [v].map d'.cast := by
  refine stored_acts (fun _ => [v]) (fun hx hstore => ?_) fun r _ => rfl
  rw [hx.shaped.rows_eq, full?_eq hstore, full_natCast, List.map_const', hx.length]
  rfl

theorem identity_acts (w : Nat) (d : DType) : Builtin.identity.Acts w w d d fun _ rows => rows.map id := by
  refine pointwise_acts id (fun hx _ => ?_) (fun r hr => hr) fun h => by rwa [List.map_id]
  rw [List.map_id, hx.eq]

/-- The differences of features, of which there must be two at least. -/
theorem difference_acts (w : Nat) (d : DType) : Builtin.difference.ActsOrFails w d d := by
  by_cases hw : w < 2
  · refine .inl fun n rows x hx => ?_
    have hcols : x.cols < 2 := by
      rw [hx.shaped.cols_eq]
      omega
    refine ⟨.shapeIn "min" (.tooFewFeatures x.cols), ?_⟩
    show Builtin.differences x = _
    rw [Builtin.differences, if_pos hcols]
  · have hwidth : (Builtin.difference.width w).toNat = w - 1 := by
      show (Builtin.differencesWidth w).toNat = w - 1
      rw [Builtin.differencesWidth, if_neg (by omega)]
      omega
    have hdiff : Builtin.rowDifferences d = fun r => ((r.tail.map (r.headD Label.zero).sub)).map d.cast := by
      funext r
      cases r with
      | nil => rfl
      | cons v r =>
        rw [Builtin.rowDifferences, List.tail_cons, List.headD_cons, List.map_map]
        rfl
    rw [Psi.ActsOrFails, hwidth]
    refine .inr ⟨_, pointwise_acts (Builtin.rowDifferences d) (fun hx hstore => ?_) (fun r hr => ?_) fun _ => ?_⟩
    · show Builtin.differences _ = _
      rw [Builtin.differences, hx.shaped.cols_eq, if_neg (by omega), show (w : Int) - 1 = ((w - 1 : Nat) : Int) by omega,
        rowsInto_eq hx.shaped hstore, hx.rowList_eq, hx.dtype_eq]
      rfl
    · rw [hdiff, List.length_map, List.length_map, List.length_tail, hr]
    · rw [hdiff]
      exact exact_map_cast d _ _

/-! ## Graph by graph -/

namespace PartsAux

/-- Counts are not negative. -/
theorem find?_negative (counts : List Nat) : (counts.map Int.ofNat).find? (fun c => decide (c < 0)) = none := by
  rw [List.find?_eq_none]
  intro c hc
  obtain ⟨k, _, rfl⟩ := List.mem_map.mp hc
  simp

/-- Rows given as often as their counts say. -/
theorem repeatRows_eq {w : Nat} {d : DType} {rows : List (List Label)} {counts : List Nat} (hlen : rows.length = counts.length)
    (hwidth : ∀ r ∈ rows, r.length = w) (hfit : counts.sum * w ≤ capacity) :
    (ofRows w d rows).repeatRows (counts.map Int.ofNat) =
      .ok (ofRows w d ((counts.zip rows).flatMap fun p => List.replicate p.1 p.2)) := by
  have hshaped := ofRows_shaped d hwidth
  have htotal : (counts.map Int.ofNat).foldr (fun a b => a + b) 0 = (counts.sum : Int) := by
    clear hlen hfit
    induction counts with
    | nil => rfl
    | cons c counts ih =>
      rw [List.map_cons, List.foldr_cons, ih, List.sum_cons]
      push_cast
      rfl
  rw [repeatRows, if_neg (by simp [ofRows, hlen]), find?_negative]
  dsimp only
  rw [htotal, rowsReach_of_shaped hshaped, show (ofRows (w : Int) d rows).cols = w from rfl, volume?_word hfit, if_pos (by simp),
    rowList_ofRows hwidth, List.zip_map_left, List.flatMap_map]
  rfl

theorem segmentReduce_eq {n w : Nat} {x : Tensor} (hx : x.Shaped n w) {index : List Int} {counts : List Nat}
    (hlen : index.length = n) (hcounts : segmentCounts index = .ok counts) {dtype : DType} (init : Label)
    (f : Label → Label → Label) : x.segmentReduce index dtype init f =
      .ok (ofRows w dtype ((pieces counts x.rowList).map fun rows => (foldRows f init w rows).map dtype.cast)) := by
  rw [segmentReduce, hx.rows_eq, if_neg (by omega), hcounts, rowsReach_of_shaped hx, hx.cols_eq]
  rfl

theorem runLengths_sum {v : Int} {n i : Nat} {rest : List Int} {counts : List Nat} (h : runLengths v n i rest = .ok counts) :
    counts.sum = n + rest.length := by
  induction rest generalizing v n i counts with
  | nil =>
    obtain rfl := Except.ok.inj h
    rfl
  | cons u rest ih =>
    rw [runLengths] at h
    rw [List.length_cons]
    split at h
    · have := ih h
      omega
    · split at h
      · cases h
      · obtain ⟨more, hmore, hcounts⟩ := bind_ok h
        obtain rfl := Except.ok.inj hcounts
        have := ih hmore
        rw [List.sum_cons]
        omega

theorem length_pieces {α : Type} (counts : List Nat) (l : List α) : (pieces counts l).length = counts.length := by
  induction counts generalizing l with
  | nil => rfl
  | cons c counts ih => rw [pieces, List.length_cons, List.length_cons, ih]

theorem mem_pieces {α : Type} {counts : List Nat} {l piece : List α} (h : piece ∈ pieces counts l) : ∀ a ∈ piece, a ∈ l := by
  induction counts generalizing l with
  | nil => cases h
  | cons c counts ih =>
    rcases List.mem_cons.mp h with rfl | h
    · exact fun a ha => List.mem_of_mem_take ha
    · exact fun a ha => List.mem_of_mem_drop (ih h a ha)

end PartsAux

open PartsAux

/-- The sizes of graphs sum up to the number of nodes. -/
theorem segmentCounts_sum {index : List Int} {counts : List Nat} (h : segmentCounts index = .ok counts) :
    counts.sum = index.length := by
  cases index with
  | nil =>
    obtain rfl := Except.ok.inj h
    rfl
  | cons v rest =>
    have := runLengths_sum h
    rw [List.length_cons]
    omega

/-- The rows of a graph folded into one. -/
def pooledRow (w : Nat) (d : DType) (init : Label) (f : Label → Label → Label) (rows : List (List Label)) : List Label :=
  (foldRows f init w rows).map d.cast

theorem length_pooledRow {w : Nat} {d : DType} {init : Label} {f : Label → Label → Label} {rows : List (List Label)}
    (h : ∀ r ∈ rows, r.length = w) : (pooledRow w d init f rows).length = w := by
  rw [pooledRow, List.length_map]
  exact length_foldRows h

section

variable {n w : Nat} {x : Tensor}

/-- Pooling one graph gives each of its nodes the row that its rows are folded into. -/
theorem pool_single_eq (name : String) (init : Label) (f : Label → Label → Label) (hx : x.Shaped n w) (hfit : n * w ≤ capacity)
    (hone : w ≤ capacity) : (Builtin.pool name init f).single (some x) =
      .ok (some (ofRows w x.dtype (spread (pooledRow w x.dtype init f) (oneGraph n) x.rowList))) := by
  have hpool : ∀ row : List Label, row.length = w → Psi.spreadOne (Bytes.ofString name) (some x) (ofRows w x.dtype [row]) =
      .ok (some (ofRows w x.dtype (List.replicate n row))) := by
    intro row hrow
    have hrepeat : (ofRows (w : Int) x.dtype [row]).repeatRows ([n].map Int.ofNat) = _ :=
      repeatRows_eq rfl (by simpa using hrow) (by simpa using hfit)
    show (some <$> (ofRows (w : Int) x.dtype [row]).repeatRows [x.rows]) = _
    rw [hx.rows_eq]
    refine (congrArg (some <$> ·) hrepeat).trans ?_
    simp
  show (Builtin.poolAll init f x >>= Psi.spreadOne (Bytes.ofString name) (some x)) = _
  have hroom : ¬((w : Int) < 0 ∨ (capacity : Int) < w ∨ (!x.rowsReach) = true) := by
    rw [rowsReach_of_shaped hx]
    simp only [Bool.not_true, Bool.false_eq_true, or_false, not_or, Int.not_lt]
    omega
  rw [Builtin.poolAll, hx.cols_eq, if_neg hroom, ok_bind, Builtin.pooledRow, hx.rows_eq, hx.cols_eq, Int.toNat_natCast]
  by_cases hzero : n = 0
  · subst hzero
    rw [if_pos Int.natCast_zero]
    exact hpool _ List.length_replicate
  · rw [if_neg (by omega), oneGraph, if_neg hzero]
    have htake : x.rowList.take n = x.rowList := List.take_of_length_le (Nat.le_of_eq (length_rowList hx))
    refine (hpool _ ?_).trans ?_
    · exact length_pooledRow (width_of_mem_rowList hx)
    · rw [spread, spread, htake, List.append_nil, pooledRow]

/-- Pooling a batch gives each node the row that the rows of its graph are folded into. -/
theorem pool_multiple_eq (name : String) (init : Label) (f : Label → Label → Label) (hx : x.Shaped n w) (hfit : n * w ≤ capacity)
    {index : List Int} {counts : List Nat} (hlen : index.length = n) (hcounts : segmentCounts index = .ok counts) :
    (Builtin.pool name init f).multiple (some x) (some index) =
      .ok (some (ofRows w x.dtype (spread (pooledRow w x.dtype init f) counts x.rowList))) := by
  have hsum : counts.sum = n := (segmentCounts_sum hcounts).trans hlen
  have hwidth : ∀ r ∈ (pieces counts x.rowList).map (pooledRow w x.dtype init f), r.length = w := by
    intro r hr
    obtain ⟨piece, hpiece, rfl⟩ := List.mem_map.mp hr
    exact length_pooledRow fun r' hr' => width_of_mem_rowList hx r' (mem_pieces hpiece r' hr')
  have hcount : ((pieces counts x.rowList).map (pooledRow w x.dtype init f)).length = counts.length := by
    rw [List.length_map, length_pieces]
  have hrepeat := repeatRows_eq (d := x.dtype) hcount hwidth (by rwa [hsum])
  show (segmentCounts index >>= fun counts => x.segmentReduce index x.dtype init f >>= Psi.spreadAll (Bytes.ofString name) counts) = _
  rw [hcounts, segmentReduce_eq hx hlen hcounts]
  show Psi.spreadAll (Bytes.ofString name) counts
    (ofRows (w : Int) x.dtype ((pieces counts x.rowList).map (pooledRow w x.dtype init f))) = _
  rw [Psi.spreadAll, if_neg (by simp [ofRows, hcount]), hrepeat, spread_eq]
  rfl

end

theorem pool_acts (name : String) (init : Label) (f : Label → Label → Label) (w : Nat) (d : DType) :
    (Builtin.pool name init f).Acts w w d d (spread (pooledRow w d init f)) where
  append := spread_append _
  length := fun hsum => (length_spread _ _ _).trans hsum
  width := by
    intro c a ha r hr
    obtain ⟨some, hsome, rfl⟩ := mem_spread hr
    exact length_pooledRow fun r' hr' => ha r' (hsome r' hr')
  exact := by
    intro c a _
    refine exact_of_cast fun r hr => ?_
    obtain ⟨some, _, rfl⟩ := mem_spread hr
    exact ⟨_, rfl⟩
  single := by
    intro n rows x out hx hstore hout
    obtain ⟨pooled, hpooled, -⟩ := bind_ok hout
    obtain ⟨⟨-, hone, -⟩, -⟩ := Builtin.poolAll_ok (x := x) hpooled
    rw [hx.shaped.cols_eq] at hone
    rw [pool_single_eq name init f hx.shaped hstore (Int.ofNat_le.mp hone), hx.rowList_eq, hx.dtype_eq] at hout
    exact (Except.ok.inj hout).symm
  multiple := by
    intro n rows x index counts hx hstore hlen hcounts
    rw [pool_multiple_eq name init f hx.shaped hstore hlen hcounts, hx.rowList_eq, hx.dtype_eq]

/-- Every builtin psi gives a function of the rows, in the width and the domain that are known in advance. -/
theorem psi_acts {name : Bytes} {arg : Argument} {psi : Psi} (h : Builtin.psi.get name arg = .ok psi) (w : Nat) (d : DType) :
    psi.ActsOrFails w d (psiDomain name arg d) := by
  have hevery : Builtin.psi.Every fun name arg psi => psi.ActsOrFails w d (psiDomain name arg d) := by
    refine Builtin.psi_every ?_ ?_ ?_ ?_ ?_ ?_ ?_ ?_ ?_ ?_ ?_
    · intro name hname arg k
      rw [psiDomain_bool (List.mem_append_left ["true", "false", "and", "or", "not"] hname)]
      exact .inr ⟨_, map_acts w d (fun _ => .bool) _⟩
    · exact fun arg v => .inr ⟨_, constant_acts w d (constantDomain arg) v⟩
    · intro name hname arg v
      rw [psiDomain_bool (by simp only [List.mem_cons, List.not_mem_nil, or_false] at hname ⊢; tauto)]
      exact .inr ⟨_, constant_acts w d .bool v⟩
    · exact fun arg => .inr ⟨_, reduce_acts w d .bool _⟩
    · exact fun arg => .inr ⟨_, reduce_acts w d .bool _⟩
    · exact fun arg => .inr ⟨_, map_acts w d (fun _ => .bool) _⟩
    · exact fun arg => .inr ⟨_, identity_acts w d⟩
    · exact fun arg => .inr ⟨_, map_acts w d id _⟩
    · intro name hname arg
      rw [psiDomain_same (by simp only [List.mem_cons, List.not_mem_nil, or_false] at hname ⊢; tauto)]
      exact difference_acts w d
    · exact fun arg => .inr ⟨_, pool_acts "gsum" Label.zero Label.add w d⟩
    · exact fun arg => .inr ⟨_, pool_acts "gmax" Label.negInf Label.max w d⟩
  exact hevery.get h

end ModalGraph
