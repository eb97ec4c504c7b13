import ModalGraph.Proofs.Evaluator.Documents

/-!
# What may be wrong with graphs that were read

Graphs that were read from a document go together each (`Graph.Read`); reading breaks off only where there is no room for the rows of a
document (`Graph.ofJson_ends`). The graphs make an input in which edges are between nodes and labels are all there (`Input.Whole`),
or they fail: for the batching mode, for the shapes of their labels, because some of them have edge labels and others have none, or
because their labels cannot be stored together (`prepare_ends`). Such an input goes with a model, or it fails for its shapes, or because
there are no edge labels where the model wants them (`check_ends`). All failures that are told have labels of their own, but for those
about edge labels that the graphs lack (`InputSpec.Lacks`).
-/

namespace ModalGraph

open Tensor

/-! ## Graphs that were read -/

/-- A graph that was read: its parts go together, and its labels are rows of the domains that are declared. -/
structure Graph.Read (nodeType edgeType : DType) (g : Graph) : Prop where
  valid : g.validate = .ok g.input.x
  labels : g.input.x.Proper ∧ g.input.x.dtype = nodeType
  edgeLabels : ∀ e ∈ g.e, e.Proper ∧ e.dtype = edgeType

/-- There is room for the rows of a document, each as wide as the first. -/
def Document.HasRoom (d : Document) : Prop :=
  ∀ rows, d.x = some rows ∨ d.e = some rows → Tensor.Storable (labelRows rows).length ((labelRows rows).headD []).length

section

variable {nodeType edgeType : DType} {gs : List Graph}

/-- Rows are read into a domain, and break off only where there is no room for them. -/
theorem fromRows_ends (rows : List (List Label)) (d : DType) :
    EndsIn (fun x => x.Proper ∧ x.dtype = d) (fun f => f.BreaksOff → ¬ Storable rows.length (rows.headD []).length) (fromRows rows d) := by
  cases h : fromRows rows d with
  | ok x =>
    refine ⟨fromRows_proper h, ?_⟩
    rw [fromRows] at h
    split at h
    · cases h
    split at h
    · cases h
    · obtain rfl := Except.ok.inj h
      rfl
  | error f =>
    intro hf
    rw [fromRows] at h
    split at h
    · rename_i hroom
      exact Nat.not_le.mpr hroom
    split at h
    · obtain rfl := Except.error.inj h
      cases hf
    · cases h

theorem Document.labels_ends {place : String} {rows? : Option (Slots Row)} :
    EndsIn (fun e => ∀ t ∈ e, t.Proper ∧ t.dtype = edgeType)
      (fun f => f.BreaksOff → ∃ rows, rows? = some rows ∧ ¬ Tensor.Storable (labelRows rows).length ((labelRows rows).headD []).length)
      (labels? place edgeType rows?) := by
  cases rows? with
  | none => exact nofun
  | some rows =>
    refine ((fromRows_ends _ _).map fun x hx t ht => ?_).inPlace fun f hf hbreaks => ⟨rows, rfl, hf hbreaks⟩
    obtain rfl := Option.some.inj ht
    exact hx

theorem Graph.validate_ends (g : Graph) : EndsIn (fun x => g.validate = .ok x ∧ g.x = some x) (fun f => ¬ f.BreaksOff) g.validate := by
  cases h : g.validate with
  | ok x => exact ⟨rfl, (validate_eq_ok.mp h).1⟩
  | error f =>
    intro hf
    unfold validate at h
    split at h
    · obtain rfl := Except.error.inj h
      cases hf
    split at h
    · rename_i hstray
      obtain rfl := Except.error.inj h
      cases hf.symm.trans (strayEdge?_kind hstray)
    split at h
    · cases h
    split at h
    · obtain rfl := Except.error.inj h
      cases hf
    · cases h

/-- The graph of a document goes together, and it breaks off only where there is no room for its rows. -/
theorem Document.graph_ends (d : Document) :
    EndsIn (fun g => g.Read nodeType edgeType) (fun f => f.BreaksOff → ¬ d.HasRoom) (d.graph nodeType edgeType) := by
  unfold graph
  split
  · exact nofun
  rename_i rows hx
  refine ((fromRows_ends _ _).inPlace fun f hf hbreaks hroom => hf hbreaks (hroom rows (.inl hx))).bind fun x hlabels => ?_
  refine (labels_ends.weaken fun f hf hbreaks hroom => ?_).bind fun e hedgeLabels => ?_
  · obtain ⟨rows, he, hstore⟩ := hf hbreaks
    exact hstore (hroom rows (.inr he))
  refine ((Graph.validate_ends _).weaken fun f hf hbreaks => absurd hbreaks hf).bind fun x' ⟨hvalid, hx'⟩ => ?_
  obtain rfl : x = x' := Option.some.inj hx'
  exact ⟨hvalid, hlabels, hedgeLabels⟩

theorem Document.graphsFrom_ends (ds : List Document) (i : Nat) :
    EndsIn (fun gs => gs.length = ds.length ∧ ∀ g ∈ gs, g.Read nodeType edgeType) (fun f => f.BreaksOff → ∃ d ∈ ds, ¬ d.HasRoom)
      (Document.graphsFrom nodeType edgeType i ds) := by
  induction ds generalizing i with
  | nil => exact ⟨rfl, List.forall_mem_nil _⟩
  | cons d ds ih =>
    refine (d.graph_ends.inPlace fun f hf hbreaks => ⟨d, List.mem_cons_self, hf hbreaks⟩).bind fun g hg => ?_
    refine ((ih (i + 1)).weaken fun f hf hbreaks => ?_).bind fun gs ⟨hlen, hread⟩ => ?_
    · exact (hf hbreaks).imp fun _ => And.imp_left (List.mem_cons_of_mem d)
    · exact ⟨congrArg Nat.succ hlen, List.forall_mem_cons.mpr ⟨hg, hread⟩⟩

/-- The graphs of a value: there is one at least, and each of them goes together. Reading them breaks off only where there is no room for
the rows of a document. -/
theorem Graph.ofJson_ends (j : Option Json) :
    EndsIn (fun gs => gs ≠ [] ∧ ∀ g ∈ gs, g.Read nodeType edgeType)
      (fun f => f.BreaksOff → ∃ ds, j.bind Document.listOf? = some ds ∧ ∃ d ∈ ds, ¬ d.HasRoom) (Graph.ofJson j nodeType edgeType) := by
  unfold ofJson
  split
  · exact nofun
  · exact nofun
  · rename_i ds hne hds
    refine ((Document.graphsFrom_ends ds 0).weaken fun f hf hbreaks => ⟨ds, hds, hf hbreaks⟩).imp fun gs ⟨hlen, hread⟩ => ?_
    refine ⟨fun hnil => hne ?_, hread⟩
    rw [hnil] at hlen
    exact List.length_eq_zero_iff.mp hlen.symm

theorem Graph.Read.nodes_nonneg {g : Graph} (h : g.Read nodeType edgeType) : 0 ≤ g.input.nodes :=
  h.labels.1.1.1

end

/-! ## What may be wrong -/

/-- A failure for the batching mode or for the shapes of labels, which is told. -/
def Failure.Unfit (f : Failure) : Prop :=
  (f.result = "mode_mismatch" ∨ f.result = "shape_err") ∧ ¬ f.BreaksOff

theorem Failure.unfit_mode {op : Bytes} {batched : Bool} {reason : String} : (Failure.modeMismatch op batched reason).Unfit :=
  ⟨.inl rfl, fun h => by cases h⟩

theorem Failure.unfit_shape {e : ShapeError} : (Failure.shape e).Unfit :=
  ⟨.inr rfl, fun h => by cases h⟩

/-- A failure about edge labels that graphs lack: only some of the graphs in a batch have them, or none has where the model wants
them. -/
inductive InputSpec.Lacks (s : InputSpec) (gs : List Graph) : Failure → Prop where
  | mixed {g g' : Graph} (i : Nat) : s.batched = true → g ∈ gs → g.e.isSome = true → g' ∈ gs → g'.e = none →
      Lacks s gs (.within s!"graph {i}" (.edgeLabels "edge labels must be present in all graphs or none"))
  | missing : s.adjacency = true → s.edge.isSome = true → (∀ g ∈ gs, g.e = none) →
      Lacks s gs (.edgeLabels "model compiled with edge labels received none")

theorem InputSpec.Lacks.result_eq {s : InputSpec} {gs : List Graph} {f : Failure} (h : s.Lacks gs f) :
    f.result = Failure.genericLabel := by
  cases h with
  | mixed => rfl
  | missing => rfl

theorem InputSpec.Lacks.told {s : InputSpec} {gs : List Graph} {f : Failure} (h : s.Lacks gs f) : ¬ f.BreaksOff := by
  cases h with
  | mixed => exact nofun
  | missing => exact nofun

/-- The labels of some graphs, which are of one width, cannot be stored together. -/
inductive Graph.Crowded (gs : List Graph) : Prop where
  | nodes {w : Nat} : (∀ g ∈ gs, g.input.x.cols = w) → ¬ Storable (gs.map size).sum w → Crowded gs
  | edges {w : Nat} : (∀ g ∈ gs, ∃ e, g.e = some e ∧ e.cols = w) → ¬ Storable (gs.map fun g => g.edges.length).sum w → Crowded gs

/-! ## Labels below each other -/

/-- Tensors with all their labels below each other: they are a tensor with all their rows, or their widths differ, or there is no room
for them. -/
theorem stack_ends {ts : List Tensor} (h : ∀ t ∈ ts, t.WellFormed) (hlist : (ts.map fun t => t.rows.toNat).sum < 2 ^ 63) :
    EndsIn (fun y => y.WellFormed ∧ y.rows = (((ts.map fun t => t.rows.toNat).sum : Nat) : Int))
      (fun f => f.Unfit ∨ f.BreaksOff ∧ ∃ w : Nat, (∀ t ∈ ts, t.cols = w) ∧ ¬ Storable (ts.map fun t => t.rows.toNat).sum w)
      (stack ts) := by
  cases ts with
  | nil => exact .inl Failure.unfit_shape
  | cons t rest =>
    cases hfault : widthFault? t.cols 0 (t :: rest) with
    | some fault =>
      rw [stack, hfault]
      exact .inl Failure.unfit_shape
    | none =>
      have hcols : ∀ u ∈ t :: rest, u.cols = (t.cols.toNat : Int) := by
        rw [Int.toNat_of_nonneg (h t List.mem_cons_self).2.1]
        exact (widthFault?_eq_none 0).mp hfault
      have hshaped : ∀ u ∈ t :: rest, (id u).Shaped u.rows.toNat t.cols.toNat := fun u hu => (h u hu).shaped (hcols u hu)
      by_cases hstore : Storable ((t :: rest).map fun t => t.rows.toNat).sum t.cols.toNat
      · obtain ⟨d, hstack, -⟩ := stack_shaped (List.cons_ne_nil t rest) hshaped hstore hlist
        rw [List.map_id] at hstack
        rw [hstack]
        have hall := shaped_flatMap hshaped d
        exact ⟨hall.wellFormed, hall.rows_eq⟩
      · have hstack := stack_aborts (List.cons_ne_nil t rest) hshaped (Nat.not_le.mp hstore)
        rw [List.map_id] at hstack
        rw [hstack]
        exact .inr ⟨rfl, _, hcols, hstore⟩

/-! ## Inputs from graphs -/

/-- An input that was made from graphs: all labels are there, edges are between nodes, and the nodes of a batch are numbered. -/
structure Input.Whole (input : Input) : Prop where
  labels : input.x.WellFormed
  edgeLabels : ∀ e ∈ input.e, e.WellFormed ∧ e.rows = input.sources.length
  joined : input.Joined input.nodes
  index : ∀ index, input.index = some index → (index.length : Int) = input.nodes ∧ ∃ counts, segmentCounts index = .ok counts

namespace Graph

section

variable {nodeType edgeType : DType} {gs : List Graph}

/-- A graph that was read is a whole input. -/
theorem Read.whole {g : Graph} (h : g.Read nodeType edgeType) : g.input.Whole := by
  obtain ⟨-, hjoined, hrows⟩ := validate_eq_ok.mp h.valid
  refine ⟨h.labels.1.1, fun e he => ⟨(h.edgeLabels e he).1.1, ?_⟩, hjoined, nofun⟩
  rw [hrows e he, input, List.length_map]

/-- The edges of a graph that was read are between its nodes. -/
theorem Read.joined {g : Graph} (h : g.Read nodeType edgeType) : g.input.Joined g.size := by
  have hjoined := h.whole.joined
  rwa [← Int.toNat_of_nonneg h.nodes_nonneg] at hjoined

/-- Where a graph cannot be put before the others, it has edge labels and they have none, or the other way about. -/
theorem unite_error {labelled : Bool} {i : Nat} {offset : Int} {f : Failure} (hread : ∀ g ∈ gs, g.Read nodeType edgeType)
    (h : unite labelled i offset gs = .error f) : ∃ g ∈ gs, g.e.isSome ≠ labelled ∧
      ∃ j : Nat, f = .within s!"graph {j}" (.edgeLabels "edge labels must be present in all graphs or none") := by
  induction gs generalizing i offset with
  | nil => cases h
  | cons g gs ih =>
    have hvalid := (hread g List.mem_cons_self).valid
    by_cases hlabelled : g.e.isSome = labelled
    · rw [BatchAux.unite_cons hvalid hlabelled] at h
      have hrest : unite labelled (i + 1) (offset + g.input.x.rows) gs = .error f := map_error h
      obtain ⟨g', hg', hg⟩ := ih (fun g' hg' => hread g' (List.mem_cons_of_mem _ hg')) hrest
      exact ⟨g', List.mem_cons_of_mem _ hg', hg⟩
    · refine ⟨g, List.mem_cons_self, hlabelled, i, ?_⟩
      have hother : (g.e.isSome != labelled) = true := by simpa using hlabelled
      rw [unite, hvalid, hother] at h
      exact (Except.error.inj h).symm

/-- Graphs that were read are put together, or only some of them have edge labels. -/
theorem unite_ends {s : InputSpec} (hs : s.batched = true) {g : Graph} (hread : ∀ g' ∈ g :: gs, g'.Read nodeType edgeType) :
    EndsIn (fun u => (∀ g' ∈ g :: gs, g'.e.isSome = g.e.isSome) ∧ BatchAux.Joins u 0 0 (g :: gs)) (s.Lacks (g :: gs))
      (unite g.e.isSome 0 0 (g :: gs)) := by
  cases hadd : unite g.e.isSome 0 0 (g :: gs) with
  | error f =>
    obtain ⟨g', hg', hother, j, rfl⟩ := unite_error hread hadd
    show s.Lacks (g :: gs) _
    cases hg : g.e with
    | none =>
      rw [hg] at hother
      exact .mixed j hs hg' (Bool.not_eq_false _ |>.mp hother) List.mem_cons_self hg
    | some e =>
      rw [hg] at hother
      exact .mixed j hs List.mem_cons_self (by rw [hg]; rfl) hg' (by simpa using hother)
  | ok u =>
    obtain ⟨hall, -⟩ := BatchAux.unite_ok hadd
    obtain ⟨u', hu', hjoins⟩ := BatchAux.unite_joins
      (fun g' hg' => ⟨(hall g' hg').1, (hall g' hg').2, (hread g' hg').nodes_nonneg⟩) 0 0
    obtain rfl := Except.ok.inj (hadd.symm.trans hu')
    exact ⟨fun g' hg' => (hall g' hg').2, hjoins⟩

/-- Node labels of graphs in a batch. -/
theorem stackLabels_ends (hread : ∀ g ∈ gs, g.Read nodeType edgeType) (hlist : Listable gs) :
    EndsIn (fun x => x.WellFormed ∧ x.rows = (((gs.map size).sum : Nat) : Int)) (fun f => f.Unfit ∨ f.BreaksOff ∧ Crowded gs)
      (stack (gs.map fun g => g.input.x)) := by
  have hsizes : ((gs.map fun g => g.input.x).map fun t => t.rows.toNat) = gs.map size := List.map_map
  have hformed : ∀ t ∈ gs.map fun g => g.input.x, t.WellFormed :=
    List.forall_mem_map.mpr fun g hg => (hread g hg).labels.1.1
  have hstack := stack_ends hformed (hsizes ▸ hlist.nodes)
  rw [hsizes] at hstack
  refine hstack.weaken fun f hf => hf.imp_right (And.imp_right ?_)
  rintro ⟨w, hw, hstore⟩
  exact .nodes (fun g hg => hw _ (List.mem_map_of_mem hg)) hstore

/-- Edge labels of graphs in a batch, which all have them or none has. -/
theorem stackEdgeLabels_ends {labelled : Bool} (hread : ∀ g ∈ gs, g.Read nodeType edgeType) (hne : gs ≠ [])
    (hlabelled : ∀ g ∈ gs, g.e.isSome = labelled) (hlist : Listable gs) :
    EndsIn
      (fun e => (∀ t ∈ e, t.WellFormed ∧ t.rows = (((gs.map fun g => g.edges.length).sum : Nat) : Int)) ∧
        (e = none → ∀ g ∈ gs, g.e = none))
      (fun f => f.Unfit ∨ f.BreaksOff ∧ Crowded gs) (stackEdgeLabels (gs.flatMap fun g => g.e.toList)) := by
  rw [BatchAux.flatMap_edgeLabels hlabelled]
  cases labelled with
  | false => exact ⟨nofun, fun _ g hg => Option.isNone_iff_eq_none.mp (by simpa using hlabelled g hg)⟩
  | true =>
    have hsome : ∀ g ∈ gs, g.e = some (g.e.getD default) := by
      intro g hg
      obtain ⟨e, he⟩ := Option.isSome_iff_exists.mp (hlabelled g hg)
      rw [he, Option.getD_some]
    have hrows : ((gs.map fun g => g.e.getD default).map fun t => t.rows.toNat) = gs.map fun g => g.edges.length := by
      rw [List.map_map]
      refine List.map_congr_left fun g hg => ?_
      have hcount := (validate_eq_ok.mp (hread g hg).valid).2.2 _ (hsome g hg)
      rw [Function.comp_apply, hcount, Int.toNat_natCast]
    have hformed : ∀ t ∈ gs.map fun g => g.e.getD default, t.WellFormed :=
      List.forall_mem_map.mpr fun g hg => ((hread g hg).edgeLabels _ (hsome g hg)).1.1
    have hstack := stack_ends hformed (hrows ▸ hlist.edges)
    rw [hrows] at hstack
    have hcrowded : ∀ w : Nat, (∀ t ∈ gs.map fun g => g.e.getD default, t.cols = (w : Int)) →
        ¬ Storable (gs.map fun g => g.edges.length).sum w → Crowded gs :=
      fun w hw hstore => .edges (fun g hg => ⟨_, hsome g hg, hw _ (List.mem_map_of_mem hg)⟩) hstore
    obtain ⟨g, gs, rfl⟩ := List.exists_cons_of_ne_nil hne
    show EndsIn _ _ (inPlace "stack edge labels" (some <$> stack ((g :: gs).map fun g => g.e.getD default)))
    have hends := hstack.weaken fun f hf => hf.imp_right (And.imp_right fun ⟨w, hw, hstore⟩ => hcrowded w hw hstore)
    refine (hends.map (f := some) fun y hy => ?_).inPlace fun f hf => hf
    exact ⟨fun t ht => Option.some.inj ht ▸ hy, nofun⟩

/-- Graphs that were read make a whole batch, or they fail. -/
theorem batch_ends {s : InputSpec} (hs : s.batched = true) (hread : ∀ g ∈ gs, g.Read nodeType edgeType) (hne : gs ≠ [])
    (hlist : Listable gs) :
    EndsIn (fun input => input.Whole ∧ (input.e = none → ∀ g ∈ gs, g.e = none))
      (fun f => (f.Unfit ∨ s.Lacks gs f) ∨ f.BreaksOff ∧ Crowded gs) (batch gs) := by
  obtain ⟨g, rest, rfl⟩ := List.exists_cons_of_ne_nil hne
  refine ((unite_ends hs hread).weaken fun f hf => .inl (.inr hf)).bind fun u ⟨hlabelled, hjoins⟩ => ?_
  rw [hjoins.xs, hjoins.es]
  refine ((stackLabels_ends hread hlist).inPlace fun f hf => hf.imp_left .inl).bind fun x ⟨hx, hrows⟩ => ?_
  refine ((stackEdgeLabels_ends hread hne hlabelled hlist).weaken fun f hf => hf.imp_left .inl).bind fun e ⟨he, hnone⟩ => ?_
  -- The ends of the edges are those of the batch as it is put together from graphs that are alike.
  have hends : ∀ ends : Graph → List Int, ((joinedEnds ends (g :: rest)).map fun j => j + 0) = joinedEnds ends (g :: rest) := by simp
  have hsources : u.edges.map Prod.fst = joinedEnds (fun g => g.input.sources) (g :: rest) := hjoins.sources.trans (hends _)
  have htargets : u.edges.map Prod.snd = joinedEnds (fun g => g.input.targets) (g :: rest) := hjoins.targets.trans (hends _)
  have hindex : u.index = numbered 0 (g :: rest) := hjoins.index
  have hjoined := together_joined (w := 0) (d := nodeType) (fun g' hg' => (hread g' hg').joined) (none : Option Tensor)
  rw [hsources, htargets]
  refine ⟨⟨hx, fun t ht => ⟨(he t ht).1, ?_⟩, ?_, fun index hi => ?_⟩, hnone⟩
  · rw [(he t ht).2, joinedEnds, length_shifted, List.map_map]
    exact_mod_cast congrArg List.sum (List.map_congr_left fun g' _ => (List.length_map _).symm)
  · rw [Input.nodes, hrows]
    exact ⟨hjoined.length_eq, hjoined.sources, hjoined.targets⟩
  · obtain rfl : u.index = index := Option.some.inj hi
    rw [hindex, length_numbered]
    exact ⟨hrows.symm, _, segmentCounts_numbered 0 _⟩

end

end Graph

/-- Graphs that were read make a whole input, or they fail. -/
theorem InputSpec.prepare_ends {s : InputSpec} {nodeType edgeType : DType} {gs : List Graph}
    (hread : ∀ g ∈ gs, g.Read nodeType edgeType) (hne : gs ≠ []) (hlist : Graph.Listable gs) :
    EndsIn (fun input => input.Whole ∧ (input.e = none → ∀ g ∈ gs, g.e = none))
      (fun f => (f.Unfit ∨ s.Lacks gs f) ∨ f.BreaksOff ∧ s.batched = true ∧ Graph.Crowded gs) (s.prepare gs) := by
  unfold prepare
  cases hs : s.batched with
  | true => exact (Graph.batch_ends hs hread hne hlist).weaken fun f hf => hf.imp_right (And.imp_right (And.intro rfl))
  | false =>
    match gs with
    | [] => exact absurd rfl hne
    | [g] =>
      have hg := hread g List.mem_cons_self
      have hsingle : g.single = .ok g.input := Graph.single_eq_ok.mpr ⟨rfl, hg.valid⟩
      rw [if_neg (by simp)]
      show EndsIn _ _ g.single
      rw [hsingle]
      exact ⟨hg.whole, fun hnone => List.forall_mem_singleton.mpr hnone⟩
    | g :: g' :: gs => exact .inl (.inl Failure.unfit_mode)

/-- A whole input goes with a model, or it fails. -/
theorem InputSpec.check_ends {s : InputSpec} {gs : List Graph} {input : Input} (h : input.Whole)
    (hnone : input.e = none → ∀ g ∈ gs, g.e = none) :
    EndsIn (· = input) (fun f => f.Unfit ∨ s.Lacks gs f) (s.check (some input)) := by
  have hedges : s.adjacency = true → EndsIn (fun _ => True) (fun f => f.Unfit ∨ s.Lacks gs f) (s.checkEdges input) := by
    intro hadjacency
    rw [checkEdges, if_neg fun hne => hne h.joined.length_eq, (InputAux.strayEdge?_eq_none_iff h.joined.length_eq).mpr h.joined]
    show EndsIn _ _ (s.checkEdgeLabels input)
    unfold checkEdgeLabels
    split
    · trivial
    · rename_i hedge he
      exact .inr (.missing hadjacency (by rw [hedge]; rfl) (hnone he))
    · rename_i he
      rw [if_neg (not_not.mpr (h.edgeLabels _ he).2)]
      split
      · exact .inl Failure.unfit_shape
      · trivial
  have hindex : checkIndex input = .ok () := InputAux.checkIndex_eq_ok.mpr h.index
  unfold check
  dsimp only
  split
  · exact .inl Failure.unfit_mode
  split
  · exact .inl Failure.unfit_shape
  rw [hindex]
  cases hadjacency : s.adjacency with
  | false => exact rfl
  | true => exact (hedges hadjacency).bind fun _ _ => rfl

end ModalGraph
