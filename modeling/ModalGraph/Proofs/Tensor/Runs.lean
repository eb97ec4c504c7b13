import Mathlib.Data.List.SplitBy
import ModalGraph.Proofs.Tensor.Parts

/-!
# Runs of an index

An index that never decreases is a sequence of runs of equal numbers (`Runs`), and no number comes back in a later run. So what is
given to all rows of a run is given to each row by its number alone (`Runs.spread_eq`), and the pieces that the counted runs cut the
rows into are the runs of rows with one number (`Runs.runs_eq`).
-/

namespace ModalGraph

namespace Tensor

/-- Some number of an index is below the one before. -/
def Decreases (index : List Int) : Prop :=
  ∃ (i : Nat) (a b : Int), index[i]? = some a ∧ index[i + 1]? = some b ∧ b < a

/-- The lengths of the runs of equal numbers in a list that never decreases. -/
inductive Runs : List Int → List Nat → Prop
  | nil : Runs [] []
  | run {v : Int} {n : Nat} {index : List Int} {counts : List Nat} (pos : 0 < n) (above : ∀ u ∈ index, v < u)
    (rest : Runs index counts) : Runs (List.replicate n v ++ index) (n :: counts)

/-- The rows beside the runs of equal numbers in an index. -/
def runs (index : List Int) (rows : List (List Label)) : List (List (List Label)) :=
  ((index.zip rows).splitBy fun p q => p.1 == q.1).map fun run => run.map Prod.snd

/-- The rows of a tensor, graph by graph. -/
def graphs (x : Tensor) (index : List Int) : List Tensor :=
  (runs index x.rowList).map (ofRows x.cols x.dtype)

theorem not_decreases {index : List Int} : ¬Decreases index ↔ index.Pairwise (· ≤ ·) := by
  rw [← List.isChain_iff_pairwise, List.isChain_iff_getElem]
  constructor
  · intro h i hi
    by_contra hlt
    exact h ⟨i, _, _, List.getElem?_eq_getElem (by omega), List.getElem?_eq_getElem hi, by omega⟩
  · rintro h ⟨i, a, b, ha, hb, hlt⟩
    obtain ⟨hi, rfl⟩ := List.getElem?_eq_some_iff.mp ha
    obtain ⟨hi', rfl⟩ := List.getElem?_eq_some_iff.mp hb
    have := h i hi'
    omega

/-! ## Counting runs -/

namespace RunsAux

theorem pairwise_of_runs {index : List Int} {counts : List Nat} (h : Runs index counts) : index.Pairwise (· ≤ ·) := by
  induction h with
  | nil => exact .nil
  | run _ above _ ih =>
    refine List.pairwise_append.mpr ⟨List.pairwise_replicate.mpr (.inr (Int.le_refl _)), ih, fun a ha b hb => ?_⟩
    rw [List.eq_of_mem_replicate ha]
    exact Int.le_of_lt (above b hb)

/-- The run that is being counted, and those that follow. -/
theorem runs_of_runLengths {v : Int} {n i : Nat} {rest : List Int} {counts : List Nat} (hn : 0 < n)
    (h : runLengths v n i rest = .ok counts) : Runs (List.replicate n v ++ rest) counts := by
  induction rest generalizing v n i counts with
  | nil =>
    obtain rfl := Except.ok.inj h
    exact .run hn (List.forall_mem_nil _) .nil
  | cons u rest ih =>
    rw [runLengths] at h
    split at h
    · rename_i hu
      have hruns := ih (Nat.succ_pos n) h
      rw [List.replicate_succ', List.append_assoc, List.singleton_append] at hruns
      rwa [hu]
    · rename_i hne
      split at h
      · cases h
      · rename_i hge
        obtain ⟨more, hmore, hcounts⟩ := bind_ok h
        obtain rfl := Except.ok.inj hcounts
        have hruns : Runs (u :: rest) more := ih Nat.one_pos hmore
        refine .run hn (fun w hw => ?_) hruns
        rcases List.mem_cons.mp hw with rfl | hw
        · omega
        · have := (List.pairwise_cons.mp (pairwise_of_runs hruns)).1 w hw
          omega

theorem runLengths_of_pairwise {v : Int} {rest : List Int} (h : (v :: rest).Pairwise (· ≤ ·)) (n i : Nat) :
    ∃ counts, runLengths v n i rest = .ok counts := by
  induction rest generalizing v n i with
  | nil => exact ⟨[n], rfl⟩
  | cons u rest ih =>
    obtain ⟨hv, hrest⟩ := List.pairwise_cons.mp h
    rw [runLengths]
    split
    · rename_i hu
      rw [← hu]
      exact ih hrest (n + 1) (i + 1)
    · rw [if_neg (Int.not_lt.mpr (hv u List.mem_cons_self))]
      obtain ⟨more, hmore⟩ := ih hrest 1 (i + 1)
      exact ⟨n :: more, by rw [hmore]; rfl⟩

theorem runLengths_error {v : Int} {n i : Nat} {rest : List Int} {e : Failure} (h : runLengths v n i rest = .error e) :
    e ≠ .aborted := by
  induction rest generalizing v n i with
  | nil => cases h
  | cons u rest ih =>
    rw [runLengths] at h
    split at h
    · exact ih h
    · split at h
      · cases h
        exact nofun
      · rcases bind_error h with h | ⟨more, _, h⟩
        · exact ih h
        · cases h

end RunsAux

open RunsAux

theorem runs_of_segmentCounts {index : List Int} {counts : List Nat} (h : segmentCounts index = .ok counts) : Runs index counts := by
  cases index with
  | nil =>
    obtain rfl := Except.ok.inj h
    exact .nil
  | cons v rest => exact runs_of_runLengths Nat.one_pos h

/-- The runs of an index are counted exactly if it never decreases. -/
theorem segmentCounts_ok_iff {index : List Int} : (∃ counts, segmentCounts index = .ok counts) ↔ ¬Decreases index := by
  rw [not_decreases]
  refine ⟨fun ⟨counts, h⟩ => pairwise_of_runs (runs_of_segmentCounts h), fun h => ?_⟩
  cases index with
  | nil => exact ⟨[], rfl⟩
  | cons v rest => exact runLengths_of_pairwise h 1 1

theorem segmentCounts_error {index : List Int} {e : Failure} (h : segmentCounts index = .error e) : e ≠ .aborted := by
  cases index with
  | nil => cases h
  | cons v rest => exact runLengths_error h

/-! ## Rows of a run -/

namespace RunsAux

/-- Rows beside a run and the numbers after it. -/
theorem zip_run {v : Int} {n : Nat} {index : List Int} {rows : List (List Label)} (hlen : rows.length = n + index.length) :
    (List.replicate n v ++ index).zip rows = ((rows.take n).map fun r => (v, r)) ++ index.zip (rows.drop n) := by
  have htake : (rows.take n).length = n := by
    rw [List.length_take]
    omega
  conv_lhs => rw [← List.take_append_drop n rows, List.zip_append (by rw [List.length_replicate, htake])]
  congr 1
  refine List.ext_getElem (by simp) fun i hi hi' => ?_
  rw [List.getElem_zip, List.getElem_map, List.getElem_replicate]

theorem map_snd_run (v : Int) (rows : List (List Label)) : (rows.map fun r => (v, r)).map Prod.snd = rows := by
  rw [List.map_map]
  exact List.map_id rows

/-- All rows of a run have its number, and no other. -/
theorem map_filter_run (v d : Int) (rows : List (List Label)) :
    ((rows.map fun r => (v, r)).filter fun p => p.1 == d).map Prod.snd = if v = d then rows else [] := by
  split
  · rename_i hv
    have hall : ∀ p ∈ rows.map fun r => (v, r), (p.1 == d) = true :=
      List.forall_mem_map.mpr fun r _ => beq_iff_eq.mpr hv
    rw [List.filter_eq_self.mpr hall, map_snd_run]
  · rename_i hv
    have hnone : ∀ p ∈ rows.map fun r => (v, r), ¬(p.1 == d) = true :=
      List.forall_mem_map.mpr fun r _ heq => hv (beq_iff_eq.mp heq)
    rw [List.filter_eq_nil_iff.mpr hnone, List.map_nil]

end RunsAux

/-- What is given to all rows of a run, by the number of each row. -/
theorem Runs.spread_eq {index : List Int} {counts : List Nat} (h : Runs index counts) (g : List (List Label) → List Label)
    {rows : List (List Label)} (hlen : rows.length = index.length) :
    spread g counts rows = index.map fun d => g (((index.zip rows).filter fun p => p.1 == d).map Prod.snd) := by
  induction h generalizing rows with
  | nil => rfl
  | @run v n index counts pos above rest ih =>
    rw [List.length_append, List.length_replicate] at hlen
    have hdrop : (rows.drop n).length = index.length := by
      rw [List.length_drop]
      omega
    have hother : ((index.zip (rows.drop n)).filter fun p => p.1 == v) = [] := by
      rw [List.filter_eq_nil_iff]
      intro p hp
      have := above p.1 (List.of_mem_zip hp).1
      simp only [beq_iff_eq]
      omega
    rw [spread, ih hdrop, zip_run hlen, List.map_append]
    congr 1
    · rw [List.map_replicate, List.filter_append, List.map_append, map_filter_run, if_pos rfl, hother, List.map_nil, List.append_nil]
    · refine List.map_congr_left fun d hd => ?_
      rw [List.filter_append, List.map_append, map_filter_run, if_neg (Int.ne_of_lt (above d hd)), List.nil_append]

/-- The rows beside the runs, cut off by the lengths of the runs. -/
theorem Runs.runs_eq {index : List Int} {counts : List Nat} (h : Runs index counts) {rows : List (List Label)}
    (hlen : rows.length = index.length) : Tensor.runs index rows = pieces counts rows := by
  induction h generalizing rows with
  | nil => rfl
  | @run v n index counts pos above rest ih =>
    rw [List.length_append, List.length_replicate] at hlen
    have hdrop : (rows.drop n).length = index.length := by
      rw [List.length_drop]
      omega
    have hne : (rows.take n).map (fun r => (v, r)) ≠ [] := by
      rw [← List.length_pos_iff, List.length_map, List.length_take]
      omega
    have hchain : ((rows.take n).map fun r => (v, r)).IsChain fun p q => (p.1 == q.1) = true := by
      rw [List.isChain_iff_getElem]
      intro i hi
      simp only [List.getElem_map, beq_self_eq_true]
    have hbound : ∀ p ∈ ((rows.take n).map fun r => (v, r)).getLast?, ∀ q ∈ (index.zip (rows.drop n)).head?, (p.1 == q.1) = false := by
      intro p hp q hq
      obtain ⟨r, _, rfl⟩ := List.mem_map.mp (List.mem_of_getLast? hp)
      have := above q.1 (List.of_mem_zip (List.mem_of_head? hq)).1
      simp only [beq_eq_false_iff_ne]
      omega
    rw [Tensor.runs, zip_run hlen, List.splitBy_append hbound, List.splitBy_of_isChain hne hchain, List.singleton_append,
      List.map_cons, map_snd_run, pieces]
    exact congrArg (rows.take n :: ·) (ih hdrop)

/-- What is given to all rows of each piece. -/
theorem spread_eq_flatMap (g : List (List Label) → List Label) {counts : List Nat} {rows : List (List Label)}
    (h : counts.sum = rows.length) :
    spread g counts rows = (pieces counts rows).flatMap fun piece => List.replicate piece.length (g piece) := by
  induction counts generalizing rows with
  | nil => rfl
  | cons c counts ih =>
    rw [List.sum_cons] at h
    rw [spread, pieces, List.flatMap_cons, ih (by rw [List.length_drop]; omega), List.length_take, Nat.min_eq_left (by omega)]

theorem flatten_pieces {α : Type} {counts : List Nat} {l : List α} (h : counts.sum = l.length) : (pieces counts l).flatten = l := by
  induction counts generalizing l with
  | nil => exact (List.length_eq_zero_iff.mp h.symm).symm
  | cons c counts ih =>
    rw [List.sum_cons] at h
    rw [pieces, List.flatten_cons, ih (by rw [List.length_drop]; omega), List.take_append_drop]

end Tensor

end ModalGraph
