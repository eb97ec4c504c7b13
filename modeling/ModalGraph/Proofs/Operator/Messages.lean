import ModalGraph.Operator.Builtin
import ModalGraph.Proofs.Evaluator.Input
import ModalGraph.Proofs.Evaluator.Meaning
import ModalGraph.Proofs.Tensor.Rows

/-!
# Messages along edges

The ends of the edges in either direction, and the rows that the test for a zero edge label gives.
-/

namespace ModalGraph

/-- The number of edges. -/
def Scene.edges (s : Scene) : Nat :=
  s.input.sources.length

/-- Messages start at nodes, one for each edge. -/
theorem Scene.origins {s : Scene} {n : Int} (h : s.input.Joined n) (direction : Direction) :
    (∀ i ∈ (s.ends direction).1, 0 ≤ i ∧ i < n) ∧ (s.ends direction).1.length = s.edges := by
  cases direction with
  | forward => exact ⟨h.sources, rfl⟩
  | backward => exact ⟨h.targets, h.length_eq.symm⟩

/-- Messages go to nodes, one for each edge. -/
theorem Scene.goals {s : Scene} {n : Int} (h : s.input.Joined n) (direction : Direction) :
    (∀ i ∈ (s.ends direction).2, 0 ≤ i ∧ i < n) ∧ (s.ends direction).2.length = s.edges := by
  cases direction with
  | forward => exact ⟨h.targets, h.length_eq.symm⟩
  | backward => exact ⟨h.sources, rfl⟩

/-- Whatever an edge goes to, its number is that of an edge. -/
theorem Scene.edge_lt {s : Scene} {n d : Int} (h : s.input.Joined n) {direction : Direction} {k : Nat}
    (hd : (s.ends direction).2[k]? = some d) : k < s.edges := by
  rw [← (Scene.goals h direction).2]
  exact (List.getElem?_eq_some_iff.mp hd).1

/-- The label of an edge that counts for a feature. -/
def edgeColumn (e : Tensor) (j : Nat) : Nat :=
  if 1 < e.cols then j else 0

/-- A label of the target, unless the label of the edge is not zero. -/
def zeroEdgeLabel (e : Tensor) (i : Nat) (p : Label × Nat) : Label :=
  if p.1.isZero then Label.zero else Label.ofBool (e.label i (edgeColumn e p.2)).isZero

section

variable {k w w' : Nat} {e : Tensor}

theorem zeroEdgeRow_eq (he : e.Shaped k w') (hfit : k * w ≤ Tensor.capacity) (hw : w' = 1 ∨ w' = w) {i : Nat} (hi : i < k)
    {row : List Label} (hrow : row.length = w) : Builtin.zeroEdgeRow e i row = .ok (row.zipIdx.map (zeroEdgeLabel e i)) := by
  refine Tensor.RowsAux.mapM_eq_ok fun p hp => ?_
  obtain ⟨v, j⟩ := p
  have hj : j < w := by
    have := List.mem_zipIdx hp
    omega
  have hcol : edgeColumn e j < w' := by
    rw [edgeColumn, he.cols_eq]
    split <;> omega
  have hfit' : k * w' ≤ Tensor.capacity := Nat.le_trans (Nat.mul_le_mul_left k (by omega)) hfit
  have hget : e.at? i (if 1 < e.cols then (j : Int) else 0) = (e.row i)[edgeColumn e j]? := by
    rw [← Tensor.at?_eq he hfit' hi hcol, edgeColumn]
    congr 1
    split <;> rfl
  have hsome : (e.row i)[edgeColumn e j]? = some (e.label i (edgeColumn e j)) := by
    have hlt : edgeColumn e j < (e.row i).length := by rwa [Tensor.length_row he hi]
    rw [Tensor.label, List.getElem?_eq_getElem hlt, Option.getD_some]
  dsimp only
  rw [hget, hsome, zeroEdgeLabel]
  split <;> rfl

/-- The target labels at edges whose label is zero. -/
theorem zeroEdge_eq {m : Tensor} (he : e.Shaped k w') (hm : m.Shaped k w) (hw : w' = 1 ∨ w' = w) (hfit : k * w ≤ Tensor.capacity) :
    Builtin.zeroEdge (some e) (some m) =
      .ok (some (Tensor.ofRows w .bool ((List.range k).map fun i => (m.row i).zipIdx.map (zeroEdgeLabel e i)))) := by
  have hrow : ∀ p ∈ m.rowList.zipIdx, Builtin.zeroEdgeRow e p.2 p.1 = .ok (p.1.zipIdx.map (zeroEdgeLabel e p.2)) := by
    intro p hp
    have hlen := Tensor.width_of_mem_rowList hm p.1 (List.fst_mem_of_mem_zipIdx hp)
    have hlt : p.2 < k := by
      have := List.snd_lt_of_mem_zipIdx hp
      rwa [Tensor.length_rowList hm] at this
    exact zeroEdgeRow_eq he hfit hw hlt hlen
  have hrows : (m.rowList.zipIdx.map fun p => p.1.zipIdx.map (zeroEdgeLabel e p.2)) =
      (List.range k).map fun i => (m.row i).zipIdx.map (zeroEdgeLabel e i) := by
    rw [Tensor.rowList_eq hm]
    refine List.ext_getElem? fun i => ?_
    rw [List.getElem?_map, List.getElem?_map, List.getElem?_zipIdx, List.getElem?_map]
    by_cases hi : i < k
    · rw [List.getElem?_range hi]
      simp
    · rw [List.getElem?_eq_none (by simpa using hi)]
      rfl
  rw [Builtin.zeroEdge]
  dsimp only [Labels.required, bind, Except.bind]
  rw [he.cols_eq, hm.cols_eq, if_neg (by omega), Tensor.rowsInto_eq hm hfit]
  dsimp only
  rw [Tensor.RowsAux.mapM_eq_ok hrow, hrows]
  rfl

/-- Edge labels of another width do not go with the labels of nodes. -/
theorem zeroEdge_fails {m : Tensor} (he : e.Shaped k w') (hm : m.Shaped k w) (hw : ¬(w' = 1 ∨ w' = w)) :
    ∃ f, Builtin.zeroEdge (some e) (some m) = .error f ∧ f.kind = .shape := by
  refine ⟨.shapeIn "z" (.edgeWidth w' w), ?_, rfl⟩
  rw [Builtin.zeroEdge]
  dsimp only [Labels.required, bind, Except.bind]
  rw [he.cols_eq, hm.cols_eq, if_pos (by omega)]
  rfl

end

end ModalGraph
