import ModalGraph.Graph.Document
import ModalGraph.Proofs.Evaluator.Batch

/-!
# Documents for a model with labelled edges

A document conforms to a model with labelled edges (`Document.Conforms`) if it has a node, rows of node labels that are as wide as
wanted, edges between its nodes, and for each edge a row of edge labels that is as wide as wanted. Documents that conform are accepted,
one alone or several as a batch, exactly if each of them has an edge and there is room for all labels (`accepts_iff_edges`). A graph
without edges is refused: how wide labels are is read off their first row, so no rows of edge labels pass for labels that are not wide
at all (`refuses_graph_without_edges`).
-/

namespace ModalGraph

open Tensor

namespace Document

/-- The rows of node labels. -/
def nodeRows (d : Document) : List (List Label) :=
  (d.x.map labelRows).getD []

/-- The rows of edge labels, if there are any. -/
def edgeRows (d : Document) : List (List Label) :=
  (d.e.map labelRows).getD []

/-- The document of a graph with a node at least, with node labels and edge labels of some widths, one for each node and one for each
edge. -/
structure Conforms (d : Document) (nodeWidth edgeWidth : Int) : Prop where
  nodes : d.nodeRows ≠ []
  nodeLabels : ∀ r ∈ d.nodeRows, (r.length : Int) = nodeWidth
  edges : ∀ p ∈ d.edges.inUse, (0 ≤ p.1 ∧ p.1 < d.nodeRows.length) ∧ 0 ≤ p.2 ∧ p.2 < d.nodeRows.length
  labelled : d.edgeRows.length = d.edges.inUse.length
  edgeLabels : ∀ r ∈ d.edgeRows, (r.length : Int) = edgeWidth

/-- The graph of a document that conforms. -/
structure Shows (d : Document) (w we : Nat) (dt et : DType) (g : Graph) : Prop where
  valid : g.validate = .ok g.input.x
  labels : ∃ rows, g.input.x.HasRows d.nodeRows.length w dt rows
  edges : g.edges = d.edges.inUse
  edgeLabels : d.edges.inUse ≠ [] → ∃ e rows, g.e = some e ∧ e.HasRows g.edges.length we et rows
  unlabelled : d.edges.inUse = [] → ∀ e ∈ g.e, e.cols = 0

end Document

/-- The documents are read, make an input for the model, and the input goes with the model. -/
def InputSpec.Accepts (s : InputSpec) (nodeType edgeType : DType) (ds : List Document) : Prop :=
  ∃ gs input, Document.graphsFrom nodeType edgeType 0 ds = .ok gs ∧ s.prepare gs = .ok input ∧ s.check (some input) = .ok input

/-! ## Rows of labels -/

namespace DocumentAux

/-- Rows as labels of some domain, as wide as the first row. -/
def cast (dt : DType) (rows : List (List Label)) : Tensor :=
  ofRows (rows.headD []).length dt (rows.map fun r => r.map dt.cast)

theorem ragged?_eq_none {w : Nat} {rows : List (List Label)} (h : ∀ r ∈ rows, r.length = w) (i : Nat) : ragged? w i rows = none := by
  induction rows generalizing i with
  | nil => rfl
  | cons r rows ih =>
    rw [ragged?, if_pos (h r List.mem_cons_self)]
    exact ih (fun r' hr' => h r' (List.mem_cons_of_mem _ hr')) (i + 1)

/-- The first row is as wide as all rows. -/
theorem headD_length {w : Nat} {rows : List (List Label)} (hne : rows ≠ []) (h : ∀ r ∈ rows, r.length = w) :
    (rows.headD []).length = w := by
  obtain ⟨r, rest, rfl⟩ := List.exists_cons_of_ne_nil hne
  exact h r List.mem_cons_self

/-- Rows of one width as labels, if there is room for them. -/
theorem fromRows_eq {w : Nat} {rows : List (List Label)} (h : ∀ r ∈ rows, r.length = w) (dt : DType) :
    fromRows rows dt = if capacity < rows.length * w then .error .aborted else .ok (cast dt rows) := by
  have hhead : ∀ r ∈ rows, r.length = (rows.headD []).length :=
    fun r hr => (h r hr).trans (headD_length (List.ne_nil_of_mem hr) h).symm
  have hvolume : rows.length * (rows.headD []).length = rows.length * w := by
    by_cases hne : rows = []
    · rw [hne, List.length_nil, Nat.zero_mul, Nat.zero_mul]
    · rw [headD_length hne h]
  rw [fromRows, ragged?_eq_none hhead, hvolume]
  rfl

theorem cast_hasRows {w : Nat} {rows : List (List Label)} (hne : rows ≠ []) (h : ∀ r ∈ rows, r.length = w) (dt : DType) :
    (cast dt rows).HasRows rows.length w dt (rows.map fun r => r.map dt.cast) := by
  rw [cast, headD_length hne h]
  refine hasRows_ofRows (List.length_map _) ?_ (exact_of_cast ?_)
  · intro r hr
    obtain ⟨r', hr', rfl⟩ := List.mem_map.mp hr
    rw [List.length_map, h r' hr']
  · intro r hr
    obtain ⟨r', -, rfl⟩ := List.mem_map.mp hr
    exact ⟨r', rfl⟩

end DocumentAux

open DocumentAux

/-! ## Graphs of documents -/

namespace Document

variable {d : Document} {w we : Nat} {dt et : DType}

/-- The graph of a document, with labels as wide as the first rows. -/
def shown (d : Document) (dt et : DType) : Graph :=
  ⟨some (cast dt d.nodeRows), d.edges.inUse, d.e.map fun _ => cast et d.edgeRows⟩

theorem Conforms.nodeWidth (h : d.Conforms w we) : ∀ r ∈ d.nodeRows, r.length = w :=
  fun r hr => by exact_mod_cast h.nodeLabels r hr

theorem Conforms.edgeWidth (h : d.Conforms w we) : ∀ r ∈ d.edgeRows, r.length = we :=
  fun r hr => by exact_mod_cast h.edgeLabels r hr

/-- The labels of the edges of a document that conforms, which may be missing where there are none. -/
theorem Conforms.shown_labels (h : d.Conforms w we) (dt : DType) (hne : d.edges.inUse ≠ []) :
    (d.shown dt et).e = some (cast et d.edgeRows) ∧ (cast et d.edgeRows).HasRows d.edges.inUse.length we et
      (d.edgeRows.map fun r => r.map et.cast) := by
  have hrows : d.edgeRows ≠ [] := fun hnil => hne (List.length_eq_zero_iff.mp (by rw [← h.labelled, hnil]; rfl))
  refine ⟨?_, h.labelled ▸ cast_hasRows hrows h.edgeWidth et⟩
  rw [shown]
  cases hd : d.e with
  | none => exact absurd (by rw [edgeRows, hd]; rfl) hrows
  | some labels => rfl

theorem Conforms.shown_valid (h : d.Conforms w we) : (d.shown dt et).validate = .ok (d.shown dt et).input.x := by
  have hrows : (cast dt d.nodeRows).rows = d.nodeRows.length := (cast_hasRows h.nodes h.nodeWidth dt).shaped.rows_eq
  refine Graph.validate_eq_ok.mpr ⟨rfl, ⟨by simp [Graph.input], fun i hi => ?_, fun i hi => ?_⟩, fun t ht => ?_⟩
  · obtain ⟨p, hp, rfl⟩ := List.mem_map.mp hi
    exact hrows ▸ (h.edges p hp).1
  · obtain ⟨p, hp, rfl⟩ := List.mem_map.mp hi
    exact hrows ▸ (h.edges p hp).2
  · obtain ⟨_, -, rfl⟩ := Option.map_eq_some_iff.mp ht
    show ((d.edgeRows.map fun r => r.map et.cast).length : Int) = d.edges.inUse.length
    rw [List.length_map, h.labelled]

/-- The graph of a document that conforms. -/
theorem Conforms.shown_shows (h : d.Conforms w we) (dt et : DType) : d.Shows w we dt et (d.shown dt et) := by
  refine ⟨h.shown_valid, ⟨_, cast_hasRows h.nodes h.nodeWidth dt⟩, rfl, fun hne => ?_, fun hnil t ht => ?_⟩
  · obtain ⟨he, hlabels⟩ := h.shown_labels dt hne
    exact ⟨_, _, he, hlabels⟩
  · have hrows : d.edgeRows = [] := List.length_eq_zero_iff.mp (by rw [h.labelled, hnil]; rfl)
    obtain ⟨_, -, rfl⟩ := Option.map_eq_some_iff.mp ht
    rw [hrows]
    rfl

/-- There is room for the labels of a document. -/
structure Storable (d : Document) (w we : Nat) : Prop where
  nodes : Tensor.Storable d.nodeRows.length w
  edges : Tensor.Storable d.edges.inUse.length we

/-- The edge labels of a document that conforms are read if there is room for them. -/
theorem Conforms.labels_eq (h : d.Conforms w we) (dt et : DType) : labels? "edge labels" et d.e =
    if capacity < d.edges.inUse.length * we then .error (.within "edge labels" .aborted) else .ok (d.shown dt et).e := by
  have hlen := h.labelled
  have hwidth := h.edgeWidth
  rw [shown]
  rw [edgeRows] at hlen hwidth ⊢
  cases hd : d.e with
  | none =>
    rw [hd] at hlen
    rw [← hlen, if_neg (by simp)]
    rfl
  | some labels =>
    rw [hd, Option.map_some, Option.getD_some] at hlen hwidth
    rw [labels?, fromRows_eq hwidth, hlen]
    split
    · rfl
    · rfl

/-- A document that conforms has a graph exactly if there is room for its labels. -/
theorem Conforms.graph_eq (h : d.Conforms w we) (dt et : DType) :
    (d.Storable w we → d.graph dt et = .ok (d.shown dt et)) ∧ (¬ d.Storable w we → ∃ f, d.graph dt et = .error f) := by
  obtain ⟨stored, hstored⟩ : ∃ stored, d.x = some stored := by
    cases hd : d.x with
    | none => exact absurd (by rw [nodeRows, hd]; rfl) h.nodes
    | some stored => exact ⟨stored, rfl⟩
  have hread : d.graph dt et = inPlace "node labels" (fromRows d.nodeRows dt) >>= fun x => labels? "edge labels" et d.e >>= fun e =>
      (⟨some x, d.edges.inUse, e⟩ : Graph).validate >>= fun _ => .ok ⟨some x, d.edges.inUse, e⟩ := by
    rw [graph, nodeRows, hstored]
    rfl
  rw [hread, fromRows_eq h.nodeWidth, h.labels_eq dt et]
  refine ⟨fun hroom => ?_, fun hroom => ?_⟩
  · rw [if_neg (Nat.not_lt.mpr hroom.nodes), if_neg (Nat.not_lt.mpr hroom.edges)]
    show ((d.shown dt et).validate >>= fun _ => Except.ok (d.shown dt et)) = _
    rw [h.shown_valid]
    rfl
  · by_cases hnodes : capacity < d.nodeRows.length * w
    · rw [if_pos hnodes]
      exact ⟨_, rfl⟩
    · have hedges : capacity < d.edges.inUse.length * we := by
        by_contra hedges
        exact hroom ⟨Nat.not_lt.mp hnodes, Nat.not_lt.mp hedges⟩
      rw [if_neg hnodes, if_pos hedges]
      exact ⟨_, rfl⟩

end Document

/-- Documents that all have graphs, in the same order. -/
theorem graphsFrom_eq {ds : List Document} {nodeType edgeType : DType} {f : Document → Graph}
    (h : ∀ d ∈ ds, d.graph nodeType edgeType = .ok (f d)) (i : Nat) :
    Document.graphsFrom nodeType edgeType i ds = .ok (ds.map f) := by
  induction ds generalizing i with
  | nil => rfl
  | cons d ds ih =>
    rw [Document.graphsFrom, h d List.mem_cons_self, ih (fun d' hd' => h d' (List.mem_cons_of_mem _ hd')) (i + 1)]
    rfl

/-- Documents are read only if all of them have graphs. -/
theorem graphsFrom_ok {ds : List Document} {nodeType edgeType : DType} {i : Nat} {gs : List Graph}
    (h : Document.graphsFrom nodeType edgeType i ds = .ok gs) : ∀ d ∈ ds, ∃ g, d.graph nodeType edgeType = .ok g := by
  induction ds generalizing i gs with
  | nil => exact List.forall_mem_nil _
  | cons d ds ih =>
    obtain ⟨g, hg, h⟩ := bind_ok h
    obtain ⟨gs', hgs', -⟩ := bind_ok h
    exact List.forall_mem_cons.mpr ⟨⟨g, inPlace_ok hg⟩, ih hgs'⟩

/-! ## Edge labels of a batch -/

namespace DocumentAux

/-- Where a batch has edge labels, each of its graphs has them, of the same width. -/
theorem edgeLabels_of_batch {gs : List Graph} {input : Input} {e : Tensor} (h : Graph.batch gs = .ok input) (he : input.e = some e) :
    ∀ g ∈ gs, ∃ t, g.e = some t ∧ t.cols = e.cols := by
  intro g hg
  have hcols := (Graph.uniform_of_batch h).edges g hg
  rw [he] at hcols
  exact Option.map_eq_some_iff.mp hcols

/-- Where an input that graphs make has edge labels, each of the graphs has them, of the same width. -/
theorem edgeLabels_of_prepare {s : InputSpec} {gs : List Graph} {input : Input} {e : Tensor} (h : s.prepare gs = .ok input)
    (he : input.e = some e) : ∀ g ∈ gs, ∃ t, g.e = some t ∧ t.cols = e.cols := by
  unfold InputSpec.prepare at h
  cases hbatched : s.batched with
  | true =>
    rw [hbatched] at h
    exact edgeLabels_of_batch h he
  | false =>
    rw [hbatched] at h
    cases gs with
    | nil => cases h
    | cons g gs =>
      cases gs with
      | nil =>
        obtain ⟨rfl, -⟩ := Graph.single_eq_ok.mp h
        exact fun g' hg' => ⟨e, List.mem_singleton.mp hg' ▸ he, rfl⟩
      | cons g' gs => cases h

end DocumentAux

open DocumentAux

/-! ## What is accepted -/

/-- A shape without faults that has edge labels: labels are of some width, and there are edges. -/
theorem InputSpec.of_faults_eq_nil {s : InputSpec} {edge : LabelSpec} (h : s.faults = []) (hedge : s.edge = some edge) :
    0 < s.node.width ∧ s.adjacency = true ∧ 0 < edge.width := by
  obtain ⟨hnode, hedges⟩ := List.append_eq_nil_iff.mp h
  rw [edgeFaults, hedge] at hedges
  obtain ⟨hadjacency, hwidth⟩ := List.append_eq_nil_iff.mp hedges
  refine ⟨?_, ?_, ?_⟩
  · by_contra hle
    rw [if_pos (by omega)] at hnode
    cases hnode
  · by_contra hno
    rw [if_neg hno] at hadjacency
    cases hadjacency
  · by_contra hle
    rw [if_pos (by omega)] at hwidth
    cases hwidth

section

variable {s : InputSpec} {edge : LabelSpec} {w we : Nat} {dt et : DType} {d : Document} {g : Graph}

/-- A graph with labelled edges goes with a model for single graphs. -/
theorem Document.Shows.admits (h : d.Shows w we dt et g) (hedge : s.edge = some edge) (hw : s.node.width = w) (hwe : edge.width = we)
    (hne : d.edges.inUse ≠ []) : ({ s with batched := false } : InputSpec).Admits g.input := by
  obtain ⟨rows, hrows⟩ := h.labels
  refine ⟨rfl, ?_, nofun, fun _ => (Graph.validate_eq_ok.mp h.valid).2.1, fun _ edge' hedge' => ?_⟩
  · exact hrows.shaped.cols_eq.trans hw.symm
  · obtain rfl := Option.some.inj (hedge.symm.trans hedge')
    obtain ⟨e, rows', he, hlabels⟩ := h.edgeLabels hne
    refine ⟨e, he, ?_, hlabels.shaped.cols_eq.trans hwe.symm⟩
    rw [hlabels.shaped.rows_eq, Graph.input, List.length_map]

theorem Document.Shows.size_eq (h : d.Shows w we dt et g) : g.size = d.nodeRows.length := by
  obtain ⟨rows, hrows⟩ := h.labels
  rw [Graph.size, Input.nodes, hrows.shaped.rows_eq, Int.toNat_natCast]

/-- The graphs of documents that have edges are alike. -/
theorem alike_of_shows {ds : List Document} {f : Document → Graph} (h : ∀ d ∈ ds, d.Shows w we dt et (f d))
    (hne : ∀ d ∈ ds, d.edges.inUse ≠ []) : Graph.Alike (ds.map f) true w we dt et := by
  refine ⟨List.forall_mem_map.mpr fun d hd x hx => ?_, List.forall_mem_map.mpr fun d hd e he => ?_,
    List.forall_mem_map.mpr fun d hd => ?_⟩
  · obtain ⟨rows, hrows⟩ := (h d hd).labels
    obtain rfl : (f d).input.x = x := by rw [Graph.input, hx, Option.getD_some]
    exact ⟨hrows.proper, hrows.shaped.cols_eq, hrows.dtype_eq⟩
  · obtain ⟨e', rows, he', hlabels⟩ := (h d hd).edgeLabels (hne d hd)
    obtain rfl := Option.some.inj (he'.symm.trans he)
    exact ⟨hlabels.proper, hlabels.shaped.cols_eq, hlabels.dtype_eq⟩
  · obtain ⟨e', rows, he', -⟩ := (h d hd).edgeLabels (hne d hd)
    rw [he']
    rfl

end

section

variable {s : InputSpec} {edge : LabelSpec} {w we : Nat} {nodeType edgeType : DType} {ds : List Document}

/-- Documents that conform and are read make their graphs, and there is room for the labels of each of them. -/
theorem graphs_of_documents (hds : ∀ d ∈ ds, d.Conforms w we) {gs : List Graph}
    (h : Document.graphsFrom nodeType edgeType 0 ds = .ok gs) :
    (∀ d ∈ ds, d.Storable w we) ∧ gs = ds.map fun d => d.shown nodeType edgeType := by
  have hroom : ∀ d ∈ ds, d.Storable w we := by
    intro d hd
    by_contra hroom
    obtain ⟨g, hg⟩ := graphsFrom_ok h d hd
    obtain ⟨f, hf⟩ := ((hds d hd).graph_eq nodeType edgeType).2 hroom
    cases hg.symm.trans hf
  have hread := graphsFrom_eq (fun d hd => ((hds d hd).graph_eq nodeType edgeType).1 (hroom d hd)) 0
  exact ⟨hroom, Except.ok.inj (h.symm.trans hread)⟩

/-- Documents that conform and are accepted have edges: the labels of no edges are of no width, wherever they go. -/
theorem edges_of_accepts (hvalid : s.faults = []) (hedge : s.edge = some edge) (hwe : edge.width = we)
    (hds : ∀ d ∈ ds, d.Conforms w we) (h : s.Accepts nodeType edgeType ds) : ∀ d ∈ ds, d.edges.inUse ≠ [] := by
  obtain ⟨-, hadjacency, hpos⟩ := InputSpec.of_faults_eq_nil hvalid hedge
  obtain ⟨gs, input, hgs, hinput, hcheck⟩ := h
  obtain ⟨-, rfl⟩ := graphs_of_documents hds hgs
  intro d hd hnil
  obtain ⟨e, he, -, hcols⟩ := (check_eq_ok.mp hcheck).2.labelled hadjacency edge hedge
  obtain ⟨t, ht, htcols⟩ := edgeLabels_of_prepare hinput he _ (List.mem_map_of_mem hd)
  have hzero := ((hds d hd).shown_shows nodeType edgeType).unlabelled hnil t ht
  omega

/-- A model for single graphs accepts a document with edges that conforms, if there is room for its labels. -/
theorem accepts_single (hbatched : s.batched = false) (hedge : s.edge = some edge) (hw : s.node.width = w) (hwe : edge.width = we)
    {d : Document} (hd : d.Conforms w we) (hroom : d.Storable w we) (hne : d.edges.inUse ≠ []) :
    s.Accepts nodeType edgeType [d] := by
  have hread := graphsFrom_eq (f := fun d => d.shown nodeType edgeType)
    (List.forall_mem_singleton.mpr ((hd.graph_eq nodeType edgeType).1 hroom)) 0
  have hshows := hd.shown_shows nodeType edgeType
  refine ⟨_, (d.shown nodeType edgeType).input, hread, ?_, check_eq_ok.mpr ⟨rfl, ?_⟩⟩
  · unfold InputSpec.prepare
    rw [hbatched]
    exact Graph.single_eq_ok.mpr ⟨rfl, hshows.valid⟩
  · rw [show s = { s with batched := false } by rw [← hbatched]]
    exact hshows.admits hedge hw hwe hne

/-- There is room for the labels of some documents together. -/
structure Document.StorableTogether (ds : List Document) (w we : Nat) : Prop where
  nodes : Tensor.Storable (ds.map fun d => d.nodeRows.length).sum w
  edges : Tensor.Storable (ds.map fun d => d.edges.inUse.length).sum we

theorem Document.StorableTogether.each (h : Document.StorableTogether ds w we) {d : Document} (hd : d ∈ ds) : d.Storable w we :=
  ⟨h.nodes.mono (le_sum_map (n := fun d : Document => d.nodeRows.length) hd),
    h.edges.mono (le_sum_map (n := fun d : Document => d.edges.inUse.length) hd)⟩

/-- The sizes of the graphs of documents that conform. -/
theorem sizes_shown (nodeType edgeType : DType) (hds : ∀ d ∈ ds, d.Conforms w we) :
    ((ds.map fun d => d.shown nodeType edgeType).map Graph.size) = (ds.map fun d => d.nodeRows.length) ∧
      ((ds.map fun d => d.shown nodeType edgeType).map fun g => g.edges.length) = ds.map fun d => d.edges.inUse.length := by
  rw [List.map_map, List.map_map]
  exact ⟨List.map_congr_left fun d hd => ((hds d hd).shown_shows nodeType edgeType).size_eq, rfl⟩

/-- A model for batches accepts documents with edges that conform, if there is room for all labels. -/
theorem accepts_batch (hbatched : s.batched = true) (hedge : s.edge = some edge) (hw : s.node.width = w) (hwe : edge.width = we)
    (hpos : 0 < w ∧ 0 < we) (hne : ds ≠ []) (hds : ∀ d ∈ ds, d.Conforms w we) (hroom : Document.StorableTogether ds w we)
    (hedges : ∀ d ∈ ds, d.edges.inUse ≠ []) : s.Accepts nodeType edgeType ds := by
  have hshows := fun d hd => (hds d hd).shown_shows nodeType edgeType
  have hread := graphsFrom_eq (fun d hd => ((hds d hd).graph_eq nodeType edgeType).1 (hroom.each hd)) 0
  obtain ⟨hsizes, hcounts⟩ := sizes_shown nodeType edgeType hds
  have halike := alike_of_shows hshows hedges
  have hgs : (ds.map fun d => d.shown nodeType edgeType) ≠ [] := fun hnil => hne (List.map_eq_nil_iff.mp hnil)
  have hvalid : ∀ g ∈ ds.map fun d => d.shown nodeType edgeType, g.validate = .ok g.input.x :=
    List.forall_mem_map.mpr fun d hd => (hshows d hd).valid
  have hadmits : ∀ g ∈ ds.map fun d => d.shown nodeType edgeType, ({ s with batched := false } : InputSpec).Admits g.input :=
    List.forall_mem_map.mpr fun d hd => (hshows d hd).admits hedge hw hwe (hedges d hd)
  have hlist : Graph.Listable (ds.map fun d => d.shown nodeType edgeType) :=
    ⟨hsizes ▸ hroom.nodes.rows_lt hpos.1, hcounts ▸ hroom.edges.rows_lt hpos.2⟩
  obtain ⟨e, hbatch, hlabels⟩ := Graph.batch_eq hgs halike hvalid (hsizes ▸ hroom.nodes) (fun _ => hcounts ▸ hroom.edges) hlist
  refine ⟨_, Graph.together (ds.map fun d => d.shown nodeType edgeType) w nodeType e, hread, ?_, check_eq_ok.mpr ⟨rfl, ?_⟩⟩
  · unfold InputSpec.prepare
    rw [hbatched]
    exact hbatch
  · let settings : Settings := ⟨{ s with batched := false }, [], 0⟩
    have hbatches : settings.forBatches.input.Admits _ := Graph.together_admits hgs halike hvalid hadmits hlabels
    have hspec : s = { s with batched := true } := by rw [← hbatched]
    rw [hspec]
    exact hbatches

/-- There is room for documents with edges that conform and are accepted. -/
theorem room_of_accepts (hcount : if s.batched then ds ≠ [] else ∃ d, ds = [d]) (hds : ∀ d ∈ ds, d.Conforms w we)
    (hedges : ∀ d ∈ ds, d.edges.inUse ≠ []) (h : s.Accepts nodeType edgeType ds) : Document.StorableTogether ds w we := by
  obtain ⟨gs, input, hgs, hinput, -⟩ := h
  obtain ⟨hroom, rfl⟩ := graphs_of_documents hds hgs
  cases hbatched : s.batched with
  | false =>
    rw [hbatched] at hcount
    obtain ⟨d, rfl⟩ := hcount
    have hd := hroom d List.mem_cons_self
    exact ⟨by simpa using hd.nodes, by simpa using hd.edges⟩
  | true =>
    unfold InputSpec.prepare at hinput
    rw [hbatched] at hinput
    have hshows := fun d hd => (hds d hd).shown_shows nodeType edgeType
    have halike := alike_of_shows hshows hedges
    obtain ⟨hsizes, hcounts⟩ := sizes_shown nodeType edgeType hds
    by_contra hfit
    have hroomFor : ¬ Graph.RoomFor (ds.map fun d => d.shown nodeType edgeType) w (some we) := by
      rintro ⟨hnodes, hedges⟩
      rw [hsizes] at hnodes
      rw [hcounts] at hedges
      exact hfit ⟨hnodes, hedges we rfl⟩
    obtain ⟨f, hf⟩ := Graph.batch_without_room (halike.uniform (List.forall_mem_map.mpr fun d hd => (hshows d hd).valid))
      (fun g hg => halike.wellFormed hg) hroomFor
    cases hf.symm.trans hinput

end

/-- Documents that conform to a model with labelled edges, one alone or some as a batch, are accepted exactly if each of them has an
edge and there is room for the labels of all of them. -/
theorem accepts_iff_edges {s : InputSpec} (hvalid : s.faults = []) {edge : LabelSpec} (hedge : s.edge = some edge)
    (nodeType edgeType : DType) {ds : List Document} (hcount : if s.batched then ds ≠ [] else ∃ d, ds = [d])
    (hds : ∀ d ∈ ds, d.Conforms s.node.width edge.width) : s.Accepts nodeType edgeType ds ↔
      (∀ d ∈ ds, d.edges.inUse ≠ []) ∧ Document.StorableTogether ds s.node.width.toNat edge.width.toNat := by
  obtain ⟨hnode, -, hpos⟩ := InputSpec.of_faults_eq_nil hvalid hedge
  have hw : s.node.width = (s.node.width.toNat : Int) := by omega
  have hwe : edge.width = (edge.width.toNat : Int) := by omega
  rw [hw, hwe] at hds
  constructor
  · intro h
    have hne := edges_of_accepts hvalid hedge hwe hds h
    exact ⟨hne, room_of_accepts hcount hds hne h⟩
  · rintro ⟨hne, hroom⟩
    cases hbatched : s.batched with
    | false =>
      rw [hbatched] at hcount
      obtain ⟨d, rfl⟩ := hcount
      exact accepts_single hbatched hedge hw hwe (hds d List.mem_cons_self) (hroom.each List.mem_cons_self) (hne d List.mem_cons_self)
    | true =>
      rw [hbatched] at hcount
      exact accepts_batch hbatched hedge hw hwe (by omega) hcount hds hroom hne

namespace Sample

/-- Nodes and edges with one label each. -/
def labelledEdges : InputSpec :=
  ⟨⟨.uint8, 1⟩, some ⟨.uint8, 1⟩, true, false⟩

/-- The same in batches. -/
def labelledBatches : InputSpec :=
  { labelledEdges with batched := true }

/-- One node and an edge from it to itself. -/
def selfLoop : Document :=
  ⟨some ⟨[⟨[Label.one], 1⟩], 1⟩, ⟨[(0, 0)], 1⟩, some ⟨[⟨[Label.one], 1⟩], 1⟩⟩

/-- One node without an edge, with an empty list of edge labels. -/
def edgeless : Document :=
  ⟨some ⟨[⟨[Label.one], 1⟩], 1⟩, {}, some {}⟩

/-- One node without an edge, and no edge labels. -/
def unlabelled : Document :=
  { edgeless with e := none }

theorem selfLoop_conforms : selfLoop.Conforms 1 1 := by
  refine ⟨by decide, ?_, ?_, rfl, ?_⟩
  all_goals decide

theorem edgeless_conforms : edgeless.Conforms 1 1 :=
  ⟨by decide, by decide, nofun, rfl, nofun⟩

theorem unlabelled_conforms : unlabelled.Conforms 1 1 :=
  ⟨by decide, by decide, nofun, rfl, nofun⟩

end Sample

/-- A model that wants labelled edges accepts a loop, and two loops as a batch. -/
theorem accepts_iff_edges_sample :
    Sample.labelledEdges.faults = [] ∧ Sample.selfLoop.Conforms 1 1 ∧ Sample.labelledEdges.Accepts .uint8 .uint8 [Sample.selfLoop] ∧
      Sample.labelledBatches.Accepts .uint8 .uint8 [Sample.selfLoop, Sample.selfLoop] := by
  have hedges : Sample.selfLoop.edges.inUse ≠ [] := nofun
  refine ⟨rfl, Sample.selfLoop_conforms, ?_, ?_⟩
  · refine (accepts_iff_edges (s := Sample.labelledEdges) rfl rfl .uint8 .uint8 (Exists.intro _ rfl) ?_).mpr
      ⟨?_, by decide, by decide⟩
    · exact List.forall_mem_singleton.mpr Sample.selfLoop_conforms
    · exact List.forall_mem_singleton.mpr hedges
  · refine (accepts_iff_edges (s := Sample.labelledBatches) rfl rfl .uint8 .uint8 (List.cons_ne_nil _ _) ?_).mpr
      ⟨?_, by decide, by decide⟩
    · exact List.forall_mem_cons.mpr ⟨Sample.selfLoop_conforms, List.forall_mem_singleton.mpr Sample.selfLoop_conforms⟩
    · exact List.forall_mem_cons.mpr ⟨hedges, List.forall_mem_singleton.mpr hedges⟩

/-- A model that wants labelled edges refuses a graph without edges, though it conforms: with an empty list of edge labels and without
any, alone and next to another graph in a batch. -/
theorem refuses_graph_without_edges :
    Sample.labelledEdges.faults = [] ∧ Sample.edgeless.Conforms 1 1 ∧ Sample.unlabelled.Conforms 1 1 ∧
      ¬ Sample.labelledEdges.Accepts .uint8 .uint8 [Sample.edgeless] ∧
      ¬ Sample.labelledEdges.Accepts .uint8 .uint8 [Sample.unlabelled] ∧
      ¬ Sample.labelledBatches.Accepts .uint8 .uint8 [Sample.selfLoop, Sample.edgeless] := by
  refine ⟨rfl, Sample.edgeless_conforms, Sample.unlabelled_conforms, fun h => ?_, fun h => ?_, fun h => ?_⟩
  · refine edges_of_accepts (w := 1) rfl rfl rfl ?_ h Sample.edgeless List.mem_cons_self rfl
    exact List.forall_mem_singleton.mpr Sample.edgeless_conforms
  · refine edges_of_accepts (w := 1) rfl rfl rfl ?_ h Sample.unlabelled List.mem_cons_self rfl
    exact List.forall_mem_singleton.mpr Sample.unlabelled_conforms
  · refine edges_of_accepts (w := 1) rfl rfl rfl ?_ h Sample.edgeless (List.mem_cons_of_mem _ List.mem_cons_self) rfl
    exact List.forall_mem_cons.mpr ⟨Sample.selfLoop_conforms, List.forall_mem_singleton.mpr Sample.edgeless_conforms⟩

end ModalGraph
