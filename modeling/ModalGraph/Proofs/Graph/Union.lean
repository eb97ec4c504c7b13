import Mathlib.Data.List.Basic
import ModalGraph.Proofs.Graph.Batch

/-!
# A batch is a disjoint union

Graphs that go together make a batch, if there is room for their labels below each other, and others make none (`batch_unites`). The
batch is the disjoint union of its graphs (`Input.Unites`): the rows, the edges and the edge labels of each graph stand one after the
other, the edges shifted by the nodes of the graphs before, and no edge leads from one graph to another. So each graph can be read off
the batch again (`Input.part`), graphs without nodes or edges among them, and a model for batches with labels of these widths accepts
it.

All of these are lists put together from one block per graph (`blocks`). A block stands where the blocks before it end
(`slice_blocks`), and it is what is left of the list if everything that belongs to other graphs is dropped (`filter_blocks`).
-/

namespace ModalGraph

open Tensor

/-! ## Disjoint unions -/

namespace Graph

/-- The number of nodes in the graphs before the one with number `i`. -/
def nodesBefore (gs : List Graph) (i : Nat) : Nat :=
  ((gs.take i).map size).sum

/-- The number of edges in the graphs before the one with number `i`. -/
def edgesBefore (gs : List Graph) (i : Nat) : Nat :=
  ((gs.take i).map fun g => g.edges.length).sum

/-- An edge whose ends have `n` more nodes before them. -/
def shiftEdge (n : Nat) (p : Int × Int) : Int × Int :=
  (p.1 + n, p.2 + n)

/-- A graph whose labels are taken for plain numbers, whatever their domain. -/
def plain (g : Graph) : Graph :=
  ⟨g.x.map fun x => { x with dtype := .float64 }, g.edges, g.e.map fun e => { e with dtype := .float64 }⟩

end Graph

/-- The edges of an input. -/
def Input.edges (input : Input) : List (Int × Int) :=
  input.sources.zip input.targets

/-- The graph with number `i`, read off a batch: its nodes are those with this number in the graph index, and its edges are those that
come from them. -/
def Input.part (input : Input) (i : Nat) : Graph :=
  let index := input.index.getD []
  let before := index.countP fun j => j < (i : Int)
  let inside (s : Int) : Bool := index[s.toNat]? == some (i : Int)
  { x := some (ofRows input.x.cols input.x.dtype (((index.zip input.x.rowList).filter fun p => p.1 == (i : Int)).map Prod.snd))
    edges := (input.edges.filter fun p => inside p.1).map fun p => (p.1 - before, p.2 - before)
    e := input.e.map fun e =>
      ofRows e.cols e.dtype (((input.sources.zip e.rowList).filter fun p => inside p.1).map Prod.snd) }

/-- An input that is the disjoint union of some graphs: their rows, edges and edge labels stand one after the other in the order of the
graphs, the edges shifted by the nodes of the graphs before. -/
structure Input.Unites (input : Input) (gs : List Graph) : Prop where
  /-- There are as many rows as nodes and as many edge labels as edges in all graphs, each with all its labels. -/
  nodes : input.x.Shaped (gs.map Graph.size).sum input.x.cols.toNat
  sources : input.sources.length = (gs.map fun g => g.edges.length).sum
  targets : input.targets.length = (gs.map fun g => g.edges.length).sum
  edgeRows : ∀ e ∈ input.e, e.Shaped (gs.map fun g => g.edges.length).sum e.cols.toNat
  labels : ∀ i g, gs[i]? = some g → (input.x.rowList.drop (Graph.nodesBefore gs i)).take g.size = g.input.x.rowList
  edges : ∀ i g, gs[i]? = some g → (input.edges.drop (Graph.edgesBefore gs i)).take g.edges.length =
    g.edges.map (Graph.shiftEdge (Graph.nodesBefore gs i))
  edgeLabels : ∀ i g, gs[i]? = some g → g.e.map Tensor.rowList =
    input.e.map fun e => (e.rowList.drop (Graph.edgesBefore gs i)).take g.edges.length
  /-- No edge joins two graphs. -/
  apart : ∀ p ∈ input.edges, ∃ i g, gs[i]? = some g ∧
    (Graph.nodesBefore gs i ≤ p.1 ∧ p.1 < Graph.nodesBefore gs i + g.size) ∧
    Graph.nodesBefore gs i ≤ p.2 ∧ p.2 < Graph.nodesBefore gs i + g.size
  index : input.index = some (Graph.numbered 0 gs)
  counts : input.index.map segmentCounts = some (.ok ((gs.map Graph.size).filter fun n => n ≠ 0))
  /-- Each graph can be read off the union again. -/
  parts : ∀ i g, gs[i]? = some g → (input.part i).plain = g.plain

namespace Graph

/-! ## Lists in blocks -/

namespace UnionAux

/-- One block of a list for each element, which may depend on the place of the element. -/
def blocks {α ι : Type} (b : Nat → ι → List α) : List ι → List α
  | [] => []
  | g :: gs => b 0 g ++ blocks (fun i => b (i + 1)) gs

section

variable {α β ι : Type} {b : Nat → ι → List α} {gs : List ι} {g : ι} {i : Nat}

theorem blocks_const (f : ι → List α) (gs : List ι) : blocks (fun _ => f) gs = gs.flatMap f := by
  induction gs with
  | nil => rfl
  | cons g gs ih => rw [blocks, ih, List.flatMap_cons]

theorem map_blocks (f : α → β) (b : Nat → ι → List α) (gs : List ι) : (blocks b gs).map f = blocks (fun i g => (b i g).map f) gs := by
  induction gs generalizing b with
  | nil => rfl
  | cons g gs ih => rw [blocks, List.map_append, ih, blocks]

theorem mem_blocks {a : α} (h : a ∈ blocks b gs) : ∃ i g, gs[i]? = some g ∧ a ∈ b i g := by
  induction gs generalizing b with
  | nil => cases h
  | cons g gs ih =>
    rcases List.mem_append.mp h with hhead | htail
    · exact ⟨0, g, rfl, hhead⟩
    · obtain ⟨i, g', hi, ha⟩ := ih htail
      exact ⟨i + 1, g', hi, ha⟩

theorem blocks_congr {b' : Nat → ι → List α} (h : ∀ i g, gs[i]? = some g → b i g = b' i g) : blocks b gs = blocks b' gs := by
  induction gs generalizing b b' with
  | nil => rfl
  | cons g gs ih => rw [blocks, blocks, h 0 g rfl, ih fun i g' hi => h (i + 1) g' hi]

/-- A block stands where the blocks before it end. -/
theorem slice_blocks (c : ι → Nat) (hlen : ∀ i g, gs[i]? = some g → (b i g).length = c g) (hi : gs[i]? = some g) :
    ((blocks b gs).drop ((gs.take i).map c).sum).take (c g) = b i g := by
  induction gs generalizing b i with
  | nil => cases hi
  | cons g' gs ih =>
    have hhead := hlen 0 g' rfl
    rw [blocks]
    cases i with
    | zero =>
      obtain rfl := Option.some.inj hi
      rw [List.take_zero, List.map_nil, List.sum_nil, List.drop_zero, ← hhead, List.take_left]
    | succ i =>
      rw [List.take_succ_cons, List.map_cons, List.sum_cons, ← hhead, List.drop_append, List.drop_of_length_le (by omega),
        List.nil_append, Nat.add_sub_cancel_left]
      exact ih (fun j g'' hj => hlen (j + 1) g'' hj) hi

/-- An entry of a block. -/
theorem getElem?_blocks (c : ι → Nat) (hlen : ∀ i g, gs[i]? = some g → (b i g).length = c g) (hi : gs[i]? = some g) {k : Nat}
    (hk : k < c g) : (blocks b gs)[((gs.take i).map c).sum + k]? = (b i g)[k]? := by
  rw [← slice_blocks c hlen hi, List.getElem?_take_of_lt hk, List.getElem?_drop]

/-- A block is what is left of the list without the entries of the other blocks. -/
theorem filter_blocks {p : α → Bool} (hp : ∀ j g', gs[j]? = some g' → ∀ a ∈ b j g', p a = decide (j = i)) (hi : gs[i]? = some g) :
    (blocks b gs).filter p = b i g := by
  induction gs generalizing b i with
  | nil => cases hi
  | cons g' gs ih =>
    rw [blocks, List.filter_append]
    cases i with
    | zero =>
      obtain rfl := Option.some.inj hi
      have hhead : (b 0 g').filter p = b 0 g' := List.filter_eq_self.mpr fun a ha => hp 0 g' rfl a ha
      have htail : (blocks (fun j => b (j + 1)) gs).filter p = [] := by
        refine List.filter_eq_nil_iff.mpr fun a ha => ?_
        obtain ⟨j, g'', hj, ha⟩ := mem_blocks ha
        rw [hp (j + 1) g'' hj a ha, decide_eq_true_iff]
        exact Nat.succ_ne_zero j
      rw [hhead, htail, List.append_nil]
    | succ i =>
      have hhead : (b 0 g').filter p = [] := by
        refine List.filter_eq_nil_iff.mpr fun a ha => ?_
        rw [hp 0 g' rfl a ha, decide_eq_true_iff]
        exact (Nat.succ_ne_zero i).symm
      rw [hhead, List.nil_append]
      refine ih (fun j g'' hj a ha => ?_) hi
      rw [hp (j + 1) g'' hj a ha, decide_eq_decide]
      exact Nat.succ_inj

/-- Two lists in blocks side by side. -/
theorem zip_blocks {b' : Nat → ι → List β} (hlen : ∀ i g, gs[i]? = some g → (b i g).length = (b' i g).length) :
    (blocks b gs).zip (blocks b' gs) = blocks (fun i g => (b i g).zip (b' i g)) gs := by
  induction gs generalizing b b' with
  | nil => rfl
  | cons g gs ih => rw [blocks, blocks, List.zip_append (hlen 0 g rfl), ih fun i g' hi => hlen (i + 1) g' hi, blocks]

end

/-! ## What a batch has of each graph -/

section

variable {gs : List Graph} {g : Graph} {i : Nat}

theorem nodesBefore_succ (g : Graph) (gs : List Graph) (i : Nat) : nodesBefore (g :: gs) (i + 1) = nodesBefore gs i + g.size := by
  rw [nodesBefore, List.take_succ_cons, List.map_cons, List.sum_cons, Nat.add_comm]
  rfl

theorem numbered_eq_blocks (k : Nat) (gs : List Graph) :
    numbered k gs = blocks (fun i g => List.replicate g.size (((k + i : Nat) : Int))) gs := by
  induction gs generalizing k with
  | nil => rfl
  | cons g gs ih =>
    rw [numbered, blocks, ih]
    refine congrArg (List.replicate g.size (k : Int) ++ ·) (blocks_congr fun i g' _ => ?_)
    rw [Nat.add_right_comm, Nat.add_assoc]

theorem joinedEnds_eq_blocks (ends : Graph → List Int) (gs : List Graph) :
    joinedEnds ends gs = blocks (fun i g => (ends g).map fun j => j + (nodesBefore gs i : Int)) gs := by
  induction gs with
  | nil => rfl
  | cons g gs ih =>
    have hhead : ((ends g).map fun j => j + (nodesBefore (g :: gs) 0 : Int)) = ends g := by simp [nodesBefore]
    rw [joinedEnds, List.map_cons, shifted, blocks, hhead]
    change ends g ++ (joinedEnds ends gs).map _ = _
    rw [ih, map_blocks]
    refine congrArg (ends g ++ ·) (blocks_congr fun i g' _ => ?_)
    rw [List.map_map, nodesBefore_succ]
    refine List.map_congr_left fun j _ => ?_
    rw [Function.comp_apply]
    push_cast
    omega

theorem edges_eq_blocks (gs : List Graph) (w : Nat) (d : DType) (e : Option Tensor) :
    (together gs w d e).edges = blocks (fun i g => g.edges.map (shiftEdge (nodesBefore gs i))) gs := by
  change (joinedEnds _ gs).zip (joinedEnds _ gs) = _
  rw [joinedEnds_eq_blocks, joinedEnds_eq_blocks, zip_blocks fun i g _ => by rw [List.length_map, List.length_map, input,
    List.length_map, List.length_map]]
  refine blocks_congr fun i g _ => ?_
  rw [input, List.map_map, List.map_map, List.zip_map']
  rfl

/-- The nodes of a graph have its number in the graph index. -/
theorem getElem?_numbered (hi : gs[i]? = some g) {s : Int} (h0 : 0 ≤ s) (h : s < g.size) :
    (numbered 0 gs)[(s + nodesBefore gs i).toNat]? = some (i : Int) := by
  have hs : (s + nodesBefore gs i).toNat = nodesBefore gs i + s.toNat := by omega
  rw [hs, numbered_eq_blocks, nodesBefore, getElem?_blocks size (fun j g' _ => List.length_replicate) hi (by omega),
    List.getElem?_replicate, if_pos (by omega), Nat.zero_add]

/-- As many nodes have a smaller number as there are in the graphs before. -/
theorem countP_numbered (k i : Nat) (gs : List Graph) :
    (numbered k gs).countP (fun j => j < ((k + i : Nat) : Int)) = nodesBefore gs i := by
  induction gs generalizing k i with
  | nil => simp [numbered, nodesBefore]
  | cons g gs ih =>
    rw [numbered, List.countP_append, List.countP_replicate]
    cases i with
    | zero =>
      have htail : (numbered (k + 1) gs).countP (fun j => j < ((k + 0 : Nat) : Int)) = 0 := by
        rw [List.countP_eq_zero, numbered_eq_blocks]
        intro j hj
        obtain ⟨i, g', -, hj⟩ := mem_blocks hj
        obtain rfl := List.eq_of_mem_replicate hj
        rw [decide_eq_true_iff]
        omega
      rw [htail, if_neg (by rw [decide_eq_true_iff]; omega)]
      rfl
    | succ i =>
      have htail := ih (k + 1) i
      rw [Nat.add_right_comm, Nat.add_assoc] at htail
      rw [htail, if_pos (by rw [decide_eq_true_iff]; omega), nodesBefore_succ, Nat.add_comm]

/-- Whether a node has a number in the graph index, told by the graph that it is in. -/
theorem inside_eq {j : Nat} (hj : gs[j]? = some g) {s : Int} (h0 : 0 ≤ s) (h : s < g.size) (i : Nat) :
    ((numbered 0 gs)[(s + nodesBefore gs j).toNat]? == some (i : Int)) = decide (j = i) := by
  rw [getElem?_numbered hj h0 h, Bool.eq_iff_iff, beq_iff_eq, Option.some_inj, decide_eq_true_iff, Int.ofNat_inj]

end

end UnionAux

open UnionAux

section

variable {gs : List Graph} {w : Int} {we : Option Int} {g : Graph} {i : Nat}

/-- The sizes of graphs that have nodes. -/
theorem flatMap_oneGraph (gs : List Graph) : (gs.flatMap fun g => oneGraph g.size) = (gs.map size).filter fun n => n ≠ 0 := by
  induction gs with
  | nil => rfl
  | cons g gs ih =>
    rw [List.flatMap_cons, List.map_cons, List.filter_cons, ih, oneGraph]
    by_cases hsize : g.size = 0 <;> simp [hsize]

/-- The ends of edges in a graph that goes together with others. -/
theorem Uniform.ends (h : Uniform gs w we) (hformed : ∀ g ∈ gs, g.WellFormed) (hg : g ∈ gs) {q : Int × Int} (hq : q ∈ g.edges) :
    (0 ≤ q.1 ∧ q.1 < g.size) ∧ 0 ≤ q.2 ∧ q.2 < g.size :=
  ⟨(h.joined hformed hg).sources _ (List.mem_map_of_mem hq), (h.joined hformed hg).targets _ (List.mem_map_of_mem hq)⟩

/-- The rows of edge labels in graphs that go together. -/
theorem Uniform.edgeRows_shape {k : Int} (h : Uniform gs w (some k)) (hformed : ∀ g ∈ gs, g.WellFormed) (hg : g ∈ gs) :
    g.edgeRows.length = g.edges.length ∧ ∀ r ∈ g.edgeRows, r.length = k.toNat := by
  obtain ⟨e, he, hshaped⟩ := h.edgeShaped hformed hg
  rw [edgeRows, he]
  exact ⟨length_rowList hshaped, width_of_mem_rowList hshaped⟩

/-- The batch of graphs that go together, with labels of some domains. -/
def union (gs : List Graph) (w : Int) (we : Option Int) (d de : DType) : Input :=
  together gs w.toNat d (we.map fun k => ofRows k.toNat de (gs.flatMap edgeRows))

variable (d de : DType)

theorem union_rowList (h : Uniform gs w we) (hformed : ∀ g ∈ gs, g.WellFormed) :
    (union gs w we d de).x.rowList = blocks (fun _ g => g.input.x.rowList) gs := by
  rw [blocks_const]
  refine rowList_ofRows fun r hr => ?_
  obtain ⟨g, hg, hr⟩ := List.mem_flatMap.mp hr
  exact width_of_mem_rowList (h.shaped hformed hg) r hr

theorem union_edgeRows {k : Int} (h : Uniform gs w (some k)) (hformed : ∀ g ∈ gs, g.WellFormed) :
    (ofRows k.toNat de (gs.flatMap edgeRows)).rowList = blocks (fun _ g => g.edgeRows) gs := by
  rw [blocks_const]
  refine rowList_ofRows fun r hr => ?_
  obtain ⟨g, hg, hr⟩ := List.mem_flatMap.mp hr
  exact (h.edgeRows_shape hformed hg).2 r hr

theorem union_edgeShaped {k : Int} (h : Uniform gs w (some k)) (hformed : ∀ g ∈ gs, g.WellFormed) :
    (ofRows k.toNat de (gs.flatMap edgeRows)).Shaped (gs.map fun g => g.edges.length).sum k.toNat := by
  have hlen : (gs.flatMap edgeRows).length = (gs.map fun g => g.edges.length).sum := by
    rw [List.length_flatMap]
    exact congrArg List.sum (List.map_congr_left fun g hg => (h.edgeRows_shape hformed hg).1)
  rw [← hlen]
  refine ofRows_shaped de fun r hr => ?_
  obtain ⟨g, hg, hr⟩ := List.mem_flatMap.mp hr
  exact (h.edgeRows_shape hformed hg).2 r hr

/-! ### Graphs read off a batch -/

/-- The rows of the nodes that have the number of a graph are the rows of the graph. -/
theorem part_rows (h : Uniform gs w we) (hformed : ∀ g ∈ gs, g.WellFormed) (hi : gs[i]? = some g) :
    (((numbered 0 gs).zip (union gs w we d de).x.rowList).filter fun p => p.1 == (i : Int)).map Prod.snd = g.input.x.rowList := by
  have hlen : ∀ j (g' : Graph), gs[j]? = some g' → g'.input.x.rowList.length = g'.size :=
    fun j g' hj => length_rowList (h.shaped hformed (List.mem_of_getElem? hj))
  rw [union_rowList d de h hformed, numbered_eq_blocks, zip_blocks fun j g' hj => by rw [List.length_replicate, hlen j g' hj],
    filter_blocks (fun j g' _ p hp => ?_) hi, List.map_snd_zip]
  · rw [List.length_replicate, hlen i g hi]
  · rw [List.eq_of_mem_replicate (List.of_mem_zip hp).1, Bool.eq_iff_iff, beq_iff_eq, decide_eq_true_iff, Int.ofNat_inj, Nat.zero_add]

/-- The edges from nodes that have the number of a graph are the edges of the graph. -/
theorem part_edges (h : Uniform gs w we) (hformed : ∀ g ∈ gs, g.WellFormed) (hi : gs[i]? = some g) :
    ((union gs w we d de).edges.filter fun p => (numbered 0 gs)[p.1.toNat]? == some (i : Int)).map
      (fun p => (p.1 - (nodesBefore gs i : Int), p.2 - (nodesBefore gs i : Int))) = g.edges := by
  rw [union, edges_eq_blocks, filter_blocks (fun j g' hj p hp => ?_) hi, List.map_map]
  · refine (List.map_congr_left fun p _ => ?_).trans (List.map_id _)
    simp [shiftEdge]
  · obtain ⟨q, hq, rfl⟩ := List.mem_map.mp hp
    obtain ⟨⟨h0, hlt⟩, -⟩ := h.ends hformed (List.mem_of_getElem? hj) hq
    exact inside_eq hj h0 hlt i

/-- The labels of these edges are the edge labels of the graph. -/
theorem part_edgeRows {k : Int} (h : Uniform gs w (some k)) (hformed : ∀ g ∈ gs, g.WellFormed) (hi : gs[i]? = some g) :
    (((union gs w (some k) d de).sources.zip (ofRows k.toNat de (gs.flatMap edgeRows)).rowList).filter
      fun p => (numbered 0 gs)[p.1.toNat]? == some (i : Int)).map Prod.snd = g.edgeRows := by
  have hlen : ∀ j (g' : Graph), gs[j]? = some g' → g'.edgeRows.length = g'.edges.length :=
    fun j g' hj => (h.edgeRows_shape hformed (List.mem_of_getElem? hj)).1
  change (((joinedEnds _ gs).zip _).filter _).map _ = _
  rw [joinedEnds_eq_blocks, union_edgeRows de h hformed,
    zip_blocks fun j g' hj => by rw [List.length_map, hlen j g' hj, input, List.length_map],
    filter_blocks (fun j g' hj p hp => ?_) hi, List.map_snd_zip]
  · rw [List.length_map, hlen i g hi, input, List.length_map]
  · obtain ⟨s, hs, hp⟩ := List.mem_map.mp (List.of_mem_zip hp).1
    obtain ⟨q, hq, rfl⟩ := List.mem_map.mp hs
    obtain ⟨⟨h0, hlt⟩, -⟩ := h.ends hformed (List.mem_of_getElem? hj) hq
    rw [← hp]
    exact inside_eq hj h0 hlt i

/-- The rows of a tensor in another domain. -/
theorem ofRows_rowList_as {n k : Nat} {x : Tensor} (hx : x.Shaped n k) (d : DType) : ofRows k d x.rowList = { x with dtype := d } := by
  rw [ofRows, flatten_rowList hx, length_rowList hx, ← hx.rows_eq, ← hx.cols_eq]

/-- A graph is read off a batch as it was, but for the domain of its labels. -/
theorem part_plain (h : Uniform gs w we) (hformed : ∀ g ∈ gs, g.WellFormed) (hi : gs[i]? = some g) :
    ((union gs w we d de).part i).plain = g.plain := by
  have hg := List.mem_of_getElem? hi
  have hbefore : (numbered 0 gs).countP (fun j => j < (i : Int)) = nodesBefore gs i := by
    have := countP_numbered 0 i gs
    rwa [Nat.zero_add] at this
  have hrows := part_rows d de h hformed hi
  have hedges := part_edges d de h hformed hi
  rw [← hbefore] at hedges
  have hlabels : ((union gs w we d de).part i).e.map (fun e => { e with dtype := .float64 }) =
      g.e.map fun e => { e with dtype := .float64 } := by
    cases we with
    | none =>
      rw [Option.map_eq_none_iff.mp (h.edges g hg)]
      rfl
    | some k =>
      obtain ⟨e, he, hshaped⟩ := h.edgeShaped hformed hg
      have hedgeRows := part_edgeRows d de h hformed hi
      rw [edgeRows, he, Option.map_some, Option.getD_some] at hedgeRows
      rw [he, Option.map_some, ← ofRows_rowList_as hshaped, ← hedgeRows]
      rfl
  have hx := (validate_eq_ok.mp (validate_input (h.valid g hg))).1
  rw [plain, plain, hlabels, hx, Option.map_some, ← ofRows_rowList_as (h.shaped hformed hg)]
  exact congrArg₂ (fun rows edges => Graph.mk (some (ofRows w.toNat .float64 rows)) edges _) hrows hedges

/-! ### The union -/

/-- The batch of graphs that go together is their disjoint union. -/
theorem union_unites (h : Uniform gs w we) (hformed : ∀ g ∈ gs, g.WellFormed) : (union gs w we d de).Unites gs := by
  have hends : ∀ ends : Graph → List Int, (∀ g, (ends g).length = g.edges.length) →
      (joinedEnds ends gs).length = (gs.map fun g => g.edges.length).sum := by
    intro ends hlen
    rw [joinedEnds, length_shifted, List.map_map]
    exact congrArg List.sum (List.map_congr_left fun g _ => hlen g)
  refine ⟨shaped_flatMap (fun g hg => h.shaped hformed hg) d, hends _ fun g => List.length_map _, hends _ fun g => List.length_map _,
    fun e he => ?_, fun i g hi => ?_, fun i g hi => ?_, fun i g hi => ?_, fun p hp => ?_, rfl, ?_,
    fun i g hi => part_plain d de h hformed hi⟩
  · obtain ⟨k, rfl, rfl⟩ := Option.map_eq_some_iff.mp he
    change (ofRows k.toNat de _).Shaped _ k.toNat
    exact union_edgeShaped de h hformed
  -- The rows, the edges and the edge labels of a graph are its blocks.
  · rw [union_rowList d de h hformed]
    exact slice_blocks size (fun j g' hj => length_rowList (h.shaped hformed (List.mem_of_getElem? hj))) hi
  · rw [union, edges_eq_blocks]
    exact slice_blocks (fun g => g.edges.length) (fun j g' _ => List.length_map _) hi
  · cases we with
    | none =>
      rw [Option.map_eq_none_iff.mp (h.edges g (List.mem_of_getElem? hi))]
      rfl
    | some k =>
      obtain ⟨e, he, -⟩ := h.edgeShaped hformed (List.mem_of_getElem? hi)
      have hrows : e.rowList = g.edgeRows := by rw [edgeRows, he, Option.map_some, Option.getD_some]
      rw [he, Option.map_some, hrows]
      change some g.edgeRows = some (((ofRows k.toNat de (gs.flatMap edgeRows)).rowList.drop _).take _)
      rw [union_edgeRows de h hformed]
      exact congrArg some (slice_blocks (fun g => g.edges.length)
        (fun j g' hj => (h.edgeRows_shape hformed (List.mem_of_getElem? hj)).1) hi).symm
  -- An edge is in one block, with both ends among the nodes of one graph.
  · rw [union, edges_eq_blocks] at hp
    obtain ⟨i, g, hi, hp⟩ := mem_blocks hp
    obtain ⟨q, hq, rfl⟩ := List.mem_map.mp hp
    obtain ⟨hs, ht⟩ := h.ends hformed (List.mem_of_getElem? hi) hq
    refine ⟨i, g, hi, ?_⟩
    rw [shiftEdge]
    omega
  · rw [← flatMap_oneGraph]
    exact congrArg some (segmentCounts_numbered 0 gs)

/-- A model for batches accepts a union, if it wants labels as wide as there are, and edge labels only if there are any. -/
theorem union_check (h : Uniform gs w we) (hformed : ∀ g ∈ gs, g.WellFormed) (hne : gs ≠ []) {spec : InputSpec}
    (hbatched : spec.batched = true) (hwidth : spec.node.width = w) (hedge : ∀ edge ∈ spec.edge, we = some edge.width) :
    spec.check (some (union gs w we d de)) = .ok (union gs w we d de) := by
  have hunites := union_unites d de h hformed
  obtain ⟨g₀, hg₀⟩ := List.exists_mem_of_ne_nil gs hne
  have hnodes : (union gs w we d de).nodes = ((gs.map size).sum : Nat) := hunites.nodes.rows_eq
  have hw : ((w.toNat : Nat) : Int) = w := by
    have hx := (validate_eq_ok.mp (validate_input (h.valid g₀ hg₀))).1
    exact (h.shaped hformed hg₀).cols_eq.symm.trans (h.nodes g₀ hg₀ _ hx)
  refine check_eq_ok.mpr ⟨rfl, hbatched, hw.trans hwidth.symm, fun index hindex => ?_, fun _ => ?_, fun _ edge hspec => ?_⟩
  · obtain rfl : numbered 0 gs = index := Option.some.inj hindex
    rw [hnodes, length_numbered]
    exact ⟨rfl, _, segmentCounts_numbered 0 gs⟩
  · rw [hnodes]
    exact together_joined (fun g hg => h.joined hformed hg) _
  · obtain rfl := hedge edge hspec
    have hshaped := union_edgeShaped de h hformed
    obtain ⟨e, he, hrows⟩ := h.edgeShaped hformed hg₀
    have hwidth : e.cols = edge.width := Option.some.inj ((congrArg (Option.map Tensor.cols) he).symm.trans (h.edges g₀ hg₀))
    refine ⟨_, rfl, ?_, hrows.cols_eq.symm.trans hwidth⟩
    rw [hshaped.rows_eq, hunites.sources]

end

/-- Graphs make a batch exactly if there are any, they go together, and there is room for their labels below each other. They go together
if their parts do, their node labels are of one width, and all of them have edge labels of one width or none has any; their labels need
not be of one domain. The batch is their disjoint union, and every model for batches with labels of these widths accepts it. -/
theorem batch_unites {gs : List Graph} (hformed : ∀ g ∈ gs, g.WellFormed) (hlist : Listable gs) :
    (∀ w we, gs ≠ [] → Uniform gs w we → RoomFor gs w we → ∃ input, batch gs = .ok input ∧ input.Unites gs ∧
      ∀ spec : InputSpec, spec.batched = true → spec.node.width = w → (∀ edge ∈ spec.edge, we = some edge.width) →
        spec.check (some input) = .ok input) ∧
      ((∃ f, batch gs = .error f) ↔ gs = [] ∨ ¬ ∃ w we, Uniform gs w we ∧ RoomFor gs w we) := by
  refine ⟨fun w we hne h hroom => ?_, fun hfails => ?_, fun hunfit => ?_⟩
  · obtain ⟨d, de, hbatch, -⟩ := batch_uniform hne h hformed hroom hlist
    exact ⟨union gs w we d de, hbatch, union_unites d de h hformed,
      fun spec hbatched hwidth hedge => union_check d de h hformed hne hbatched hwidth hedge⟩
  · obtain ⟨f, hf⟩ := hfails
    by_contra hfit
    obtain ⟨hne, hfit⟩ := not_or.mp hfit
    obtain ⟨w, we, h, hroom⟩ := not_not.mp hfit
    obtain ⟨d, de, hbatch, -⟩ := batch_uniform hne h hformed hroom hlist
    cases hbatch.symm.trans hf
  · cases hbatch : batch gs with
    | error f => exact ⟨f, rfl⟩
    | ok input =>
      rcases hunfit with rfl | hunfit
      · cases hbatch
      · have huniform := uniform_of_batch hbatch
        have hroom : ¬ RoomFor gs input.x.cols (input.e.map Tensor.cols) := fun hroom => hunfit ⟨_, _, huniform, hroom⟩
        obtain ⟨f, hf⟩ := batch_without_room huniform hformed hroom
        cases hbatch.symm.trans hf

/-! ## A batch with an empty graph -/

namespace Sample

/-- A graph with one label on each node and one truth value on each edge. -/
def island (d : DType) (labels : List Label) (edges : List (Int × Int)) (truths : List Label) : Graph :=
  ⟨some (column d labels), edges, some (column .bool truths)⟩

/-- Two nodes, none, and three, with labels of different domains. -/
def islands : List Graph :=
  [island .bool [Label.one, Label.zero] [(0, 1)] [Label.one], island .uint8 [] [] [],
    island .float64 [Label.zero, Label.one, Label.one] [(2, 0), (2, 2)] [Label.zero, Label.one]]

theorem island_wellFormed (d : DType) (labels : List Label) (edges : List (Int × Int)) (truths : List Label) :
    (island d labels edges truths).WellFormed := by
  have hcolumn : ∀ (d : DType) (vs : List Label), (column d vs).WellFormed := by
    intro d vs
    refine (ofRows_shaped (w := 1) d fun r hr => ?_).wellFormed
    obtain ⟨v, -, rfl⟩ := List.mem_map.mp hr
    rfl
  exact ⟨fun x hx => Option.some.inj hx ▸ hcolumn d labels, fun e he => Option.some.inj he ▸ hcolumn .bool truths⟩

theorem islands_wellFormed : ∀ g ∈ islands, g.WellFormed := by
  simp only [islands, List.forall_mem_cons, island_wellFormed, true_and]
  exact List.forall_mem_nil _

theorem islands_uniform : Uniform islands 1 (some 1) := by
  have hvalid : (islands.all fun g => g.validate.isOk) = true := by decide +kernel
  have hisland : ∀ g ∈ islands, ∃ d labels edges truths, g = island d labels edges truths := by
    simp only [islands, List.forall_mem_cons]
    exact ⟨⟨_, _, _, _, rfl⟩, ⟨_, _, _, _, rfl⟩, ⟨_, _, _, _, rfl⟩, List.forall_mem_nil _⟩
  refine ⟨List.all_eq_true.mp hvalid, fun g hg x hx => ?_, fun g hg => ?_⟩
  · obtain ⟨d, labels, edges, truths, rfl⟩ := hisland g hg
    exact Option.some.inj hx ▸ rfl
  · obtain ⟨d, labels, edges, truths, rfl⟩ := hisland g hg
    rfl

/-- There is room for the five nodes and the three edges. -/
theorem islands_room : RoomFor islands 1 (some 1) ∧ Listable islands := by
  have hnodes : (islands.map size).sum = 5 := by decide +kernel
  have hedges : (islands.map fun g => g.edges.length).sum = 3 := by decide +kernel
  refine ⟨⟨hnodes ▸ by decide, fun k hk => ?_⟩, hnodes ▸ by decide, hedges ▸ by decide⟩
  obtain rfl := Option.some.inj hk
  exact hedges ▸ by decide

/-- One node with as many labels as take up 2 GiB. -/
def giant : Graph :=
  ⟨some ⟨1, 268435456, .float64, Array.replicate 268435456 Label.zero⟩, [], none⟩

/-- The same graph again and again, one time more than there is room for its labels. -/
def giants : List Graph :=
  List.replicate 131073 giant

end Sample

/-- Three graphs in a batch. The one without nodes leaves no trace in the graph index and shifts nothing, and it can be read off the
batch all the same. -/
theorem batch_unites_sample : (∀ g ∈ Sample.islands, g.WellFormed) ∧ Listable Sample.islands ∧ Uniform Sample.islands 1 (some 1) ∧
    RoomFor Sample.islands 1 (some 1) ∧
    ∃ input, batch Sample.islands = .ok input ∧ input.Unites Sample.islands ∧ input.index = some [0, 0, 2, 2, 2] ∧
      input.edges = [(0, 1), (4, 2), (4, 4)] ∧ (input.part 1).plain = (Sample.island .uint8 [] [] []).plain ∧
      InputSpec.check ⟨⟨.bool, 1⟩, some ⟨.bool, 1⟩, true, true⟩ (some input) = .ok input := by
  obtain ⟨hroom, hlist⟩ := Sample.islands_room
  obtain ⟨input, hbatch, hunites, hcheck⟩ := (batch_unites Sample.islands_wellFormed hlist).1 1 (some 1) (by decide)
    Sample.islands_uniform hroom
  refine ⟨Sample.islands_wellFormed, hlist, Sample.islands_uniform, hroom, input, hbatch, hunites, ?_, ?_,
    hunites.parts 1 _ rfl, hcheck _ rfl rfl fun edge hedge => Option.some.inj hedge ▸ rfl⟩
  · have hindex : (batch Sample.islands).toOption.map Input.index = some (some [0, 0, 2, 2, 2]) := by decide +kernel
    rw [hbatch] at hindex
    exact Option.some.inj hindex
  · have hedges : (batch Sample.islands).toOption.map Input.edges = some [(0, 1), (4, 2), (4, 4)] := by decide +kernel
    rw [hbatch] at hedges
    exact Option.some.inj hedges

/-- Graphs that go together make no batch if there is no room for their labels below each other. -/
theorem batch_no_room : Sample.giants ≠ [] ∧ (∀ g ∈ Sample.giants, g.WellFormed) ∧ Uniform Sample.giants 268435456 none ∧
    ∃ f, batch Sample.giants = .error f := by
  have hgiant : ∀ g ∈ Sample.giants, g = Sample.giant := fun g hg => List.eq_of_mem_replicate hg
  have hformed : ∀ g ∈ Sample.giants, g.WellFormed := by
    intro g hg
    obtain rfl := hgiant g hg
    refine ⟨fun x hx => ?_, nofun⟩
    obtain rfl := Option.some.inj hx
    exact ⟨by decide, by decide, by rw [Array.size_replicate]; rfl⟩
  have huniform : Uniform Sample.giants 268435456 none := by
    refine ⟨fun g hg => ?_, fun g hg x hx => ?_, fun g hg => ?_⟩
    · obtain rfl := hgiant g hg
      rfl
    · obtain rfl := hgiant g hg
      obtain rfl := Option.some.inj hx
      rfl
    · obtain rfl := hgiant g hg
      rfl
  have hnodes : (Sample.giants.map size).sum = 131073 := by
    rw [Sample.giants, List.map_replicate, List.sum_replicate]
    rfl
  have hroom : ¬ RoomFor Sample.giants 268435456 none := fun hroom => absurd (hnodes ▸ hroom.nodes) (by decide)
  exact ⟨List.cons_ne_nil _ _, hformed, huniform, batch_without_room huniform hformed hroom⟩

end Graph

end ModalGraph
