import ModalGraph.Proofs.Evaluator.Parts
import ModalGraph.Proofs.Evaluator.Room
import ModalGraph.Proofs.Graph.Batch

/-!
# Batches graph by graph

A model for batches gives on a batch what the model of the same formula for single graphs gives on its graphs one by one, below each
other, if there is room for all labels of the batch (`evaluate_batch`).
-/

namespace ModalGraph

open Formula Tensor

/-- An input that is evaluated with success goes with the model. -/
theorem check_of_evaluate {maxIterations : Int} {m : Model} {input : Input} {labels : Tensor}
    (h : (Evaluator.evaluate maxIterations true m (some input)).result = .ok labels) : m.spec.check (some input) = .ok input := by
  rw [Evaluator.evaluate, Evaluator.answer, if_neg (by rw [Patience.ofLive]; simp [Patience.waits])] at h
  cases hcheck : m.spec.check (some input) with
  | error f =>
    rw [hcheck] at h
    cases h
  | ok input' => rw [(check_eq_ok.mp hcheck).1]

section

variable {settings : Settings} {gs : List Graph} {labelled : Bool} {w we : Nat} {d de : DType}

/-- Where edge labels are wanted, the graphs have them, and in the width that is wanted. -/
theorem labelled_of_admits (hne : gs ≠ []) (halike : Graph.Alike gs labelled w we d de)
    (hadmits : ∀ g ∈ gs, settings.input.Admits g.input) (hadjacency : settings.input.adjacency = true)
    (hedge : settings.input.edge.isSome = true) : labelled = true ∧ we = settings.edgeWidth := by
  obtain ⟨g, hg⟩ := List.exists_mem_of_ne_nil gs hne
  obtain ⟨edge, hedge⟩ := Option.isSome_iff_exists.mp hedge
  obtain ⟨e, he, _, hcols⟩ := (hadmits g hg).labelled hadjacency edge hedge
  have he : g.e = some e := he
  refine ⟨?_, ?_⟩
  · rw [← halike.labelled_eq g hg, he]
    rfl
  · have hwidth := (halike.edges g hg e he).2.1.symm.trans hcols
    rw [Settings.edgeWidth, hedge, Option.map_some, Option.getD_some, ← hwidth, Int.toNat_natCast]

/-- The edge labels of a scene, where they are wanted. -/
theorem Scene.edgeLabels_hasEdgeRows {s : Scene} (hs : s.settings.input.edge = settings.input.edge) {k : Nat} {E : List (List Label)}
    (h : HasEdgeRows labelled k we de E s.input.e)
    (hwanted : settings.input.edge.isSome = true → labelled = true ∧ we = settings.edgeWidth) :
    HasEdgeRows settings.input.edge.isSome k settings.edgeWidth de E s.edgeLabels := by
  rw [Scene.edgeLabels, hs]
  cases hedge : settings.input.edge.isSome with
  | false => rfl
  | true =>
    obtain ⟨rfl, rfl⟩ := hwanted hedge
    exact h

/-- The edges of a batch are those of its graphs. -/
theorem Graph.length_together (gs : List Graph) (w : Nat) (d : DType) (e : Option Tensor) :
    (Graph.together gs w d e).sources.length = (gs.map fun g => g.edges.length).sum := by
  show (Graph.joinedEnds _ gs).length = _
  rw [Graph.joinedEnds, length_shifted, List.map_map]
  exact congrArg List.sum (List.map_congr_left fun g _ => List.length_map _)

/-- The scenes of graphs, and the scene of their batch. -/
theorem Graph.together_assembled (hne : gs ≠ []) (halike : Graph.Alike gs labelled w we d de)
    (hvalid : ∀ g ∈ gs, g.validate = .ok g.input.x) (hadmits : ∀ g ∈ gs, settings.input.Admits g.input) {e : Option Tensor}
    (he : HasEdgeRows labelled (gs.map fun g => g.edges.length).sum we de (gs.flatMap Graph.edgeRows) e) (maxIterations : Int) :
    Assembled settings gs (fun g => ⟨Builtin.registries, settings, g.input, maxIterations⟩)
      ⟨Builtin.registries, settings.forBatches, Graph.together gs w d e, maxIterations⟩ Graph.size (fun g => g.edges.length) de
      Graph.edgeRows := by
  have hrows : ∀ g ∈ gs, g.input.x.HasRows g.size w d g.input.x.rowList := fun g hg => halike.hasRows hg (hvalid g hg)
  have hnodes : ∀ g ∈ gs, g.input.nodes = g.size := fun g hg => (hrows g hg).shaped.rows_eq
  have hall : (Graph.together gs w d e).nodes = (gs.map Graph.size).sum := (hasRows_flatMap hrows).shaped.rows_eq
  have hjoined : ∀ g ∈ gs, g.input.Joined g.size := fun g hg => hnodes g hg ▸ (Graph.validate_eq_ok.mp (hvalid g hg)).2.1
  have hwhole := Graph.together_joined (w := w) (d := d) hjoined e
  refine ⟨hne, ⟨rfl, fun _ _ => rfl⟩, ⟨rfl, fun _ _ => rfl⟩, fun _ _ => rfl, ⟨hall, hnodes⟩, fun _ _ => rfl,
    ⟨_, rfl, Graph.length_numbered 0 gs, Graph.segmentCounts_numbered 0 gs⟩, fun hadjacency => ⟨?_, fun g hg => ?_⟩,
    fun direction => ?_⟩
  · refine ⟨rfl, hall, Graph.length_together gs w d e, hwhole, ?_⟩
    refine Scene.edgeLabels_hasEdgeRows ?_ he (labelled_of_admits hne halike hadmits hadjacency)
    rfl
  · refine ⟨rfl, hnodes g hg, List.length_map _, hjoined g hg, ?_⟩
    refine Scene.edgeLabels_hasEdgeRows ?_ (halike.hasEdgeRows hg (hvalid g hg)) (labelled_of_admits hne halike hadmits hadjacency)
    rfl
  · cases direction with
    | forward => exact ⟨rfl, rfl⟩
    | backward => exact ⟨rfl, rfl⟩

/-- A batch goes with a model for batches, if its graphs go with a model for single graphs. -/
theorem Graph.together_admits (hne : gs ≠ []) (halike : Graph.Alike gs labelled w we d de)
    (hvalid : ∀ g ∈ gs, g.validate = .ok g.input.x) (hadmits : ∀ g ∈ gs, settings.input.Admits g.input) {e : Option Tensor}
    (he : HasEdgeRows labelled (gs.map fun g => g.edges.length).sum we de (gs.flatMap Graph.edgeRows) e) :
    settings.forBatches.input.Admits (Graph.together gs w d e) := by
  have hs := Graph.together_assembled hne halike hvalid hadmits he 0
  obtain ⟨g, hg⟩ := List.exists_mem_of_ne_nil gs hne
  have hnodes : (Graph.together gs w d e).nodes = (gs.map Graph.size).sum := hs.nodes.1
  refine ⟨rfl, ?_, fun index hindex => ?_, fun hadjacency => ?_, fun hadjacency edge hedge => ?_⟩
  · exact (halike.hasRows hg (hvalid g hg)).shaped.cols_eq.symm.trans (hadmits g hg).width
  · obtain rfl : Graph.numbered 0 gs = index := Option.some.inj hindex
    rw [hnodes, Graph.length_numbered]
    exact ⟨rfl, _, Graph.segmentCounts_numbered 0 gs⟩
  · exact hnodes ▸ (hs.wired hadjacency).1.joined
  · have hedge : settings.input.edge = some edge := hedge
    obtain ⟨rfl, hwidth⟩ := labelled_of_admits hne halike hadmits hadjacency (Option.isSome_iff_exists.mpr ⟨edge, hedge⟩)
    obtain ⟨t, rfl, ht⟩ := he
    obtain ⟨e', he', _, hcols⟩ := (hadmits g hg).labelled hadjacency edge hedge
    refine ⟨t, rfl, ht.shaped.rows_eq.trans ?_, ?_⟩
    · exact_mod_cast (hs.wired hadjacency).1.edges_eq.symm
    · exact ht.shaped.cols_eq.trans ((halike.edges g hg e' he').2.1.symm.trans hcols)

/-- A batch as a scene, with the nodes and the edges of all its graphs. -/
theorem Graph.together_sound (hne : gs ≠ []) (halike : Graph.Alike gs labelled w we d de)
    (hvalid : ∀ g ∈ gs, g.validate = .ok g.input.x) (hadmits : ∀ g ∈ gs, settings.input.Admits g.input) {e : Option Tensor}
    (he : HasEdgeRows labelled (gs.map fun g => g.edges.length).sum we de (gs.flatMap Graph.edgeRows) e) (maxIterations : Int) :
    Scene.Sound ⟨Builtin.registries, settings.forBatches, Graph.together gs w d e, maxIterations⟩ (gs.map Graph.size).sum
      (gs.map fun g => g.edges.length).sum := by
  have hs := Graph.together_assembled hne halike hvalid hadmits he maxIterations
  rw [← Graph.length_together gs w d e]
  refine .of_admits rfl (Graph.together_admits hne halike hvalid hadmits he) hs.nodes.1 fun t ht => ?_
  cases labelled with
  | false =>
    rw [show e = none from he] at ht
    cases ht
  | true =>
    obtain ⟨t', rfl, ht'⟩ := he
    exact Option.some.inj ht ▸ ht'.shaped.wellFormed

end

/-- There is room for the labels of some graphs below each other, and for all labels that come up when a formula is evaluated on
their batch. -/
structure Formula.Expr.FitsBatch (settings : Settings) (gs : List Graph) (w : Nat) (we : Option Int) (e : Expr) : Prop where
  labels : Graph.RoomFor gs w we
  parts : e.Fits (gs.map Graph.size).sum (gs.map fun g => g.edges.length).sum Builtin.registries settings.forBatches [] w True

/-- If a model for single graphs gives labels on each of some graphs that are alike, then the model of the same formula for batches
gives on their batch these labels, those of each graph below those of the graph before, if there is room for the batch and for all
labels that come up on it. Unless all graphs are empty, it gives none if there is no room. Fixpoints are over truth values, and the
iterations may be limited in any way. -/
theorem evaluate_batch {settings : Settings} {c₁ c₂ : Compiler} (hc₁ : Compiler.Reachable Builtin.registries settings c₁)
    (hc₂ : Compiler.Reachable Builtin.registries settings.forBatches c₂) {e : Expr} {m₁ m₂ : Model} (hm₁ : c₁.Returns e m₁)
    (hm₂ : c₂.Returns e m₂) {gs : List Graph} (hne : gs ≠ []) {labelled : Bool} {w we : Nat} {d de : DType}
    (halike : Graph.Alike gs labelled w we d de) (hbool : e.BoolFixpoints settings de d)
    (hlist : Graph.Listable gs) (maxIterations : Int) {out : Graph → Tensor} (hout : ∀ g ∈ gs, ∃ input, g.single = .ok input ∧
      (Evaluator.evaluate maxIterations true m₁ (some input)).result = .ok (out g)) :
    (e.FitsBatch settings gs w (if labelled then some we else none) →
      ∃ input labels, Graph.batch gs = .ok input ∧ (Evaluator.evaluate maxIterations true m₂ (some input)).result = .ok labels ∧
        stack (gs.map out) = .ok labels) ∧
    (0 < (gs.map Graph.size).sum → ∀ input labels, Graph.batch gs = .ok input →
      (Evaluator.evaluate maxIterations true m₂ (some input)).result = .ok labels →
        e.FitsBatch settings gs w (if labelled then some we else none)) := by
  have hsingle : ∀ g ∈ gs, g.validate = .ok g.input.x ∧
      (Evaluator.evaluate maxIterations true m₁ (some g.input)).result = .ok (out g) := by
    intro g hg
    obtain ⟨input, hinput, hresult⟩ := hout g hg
    obtain ⟨rfl, hvalid⟩ := Graph.single_eq_ok.mp hinput
    exact ⟨hvalid, hresult⟩
  have hvalid := fun g hg => (hsingle g hg).1
  obtain ⟨g₀, _⟩ := List.exists_mem_of_ne_nil gs hne
  obtain ⟨_, hplays₁, _, _, _, _, hacc⟩ := RefinementAux.returns_plays hc₁ Builtin.registries_calm hm₁ g₀.input maxIterations
  obtain ⟨_, hplays₂, _⟩ := RefinementAux.returns_plays hc₂ Builtin.registries_calm hm₂ g₀.input maxIterations
  have hspec₁ : m₁.spec = settings.input := hplays₁.spec_eq
  have hspec₂ : m₂.spec = settings.forBatches.input := hplays₂.spec_eq
  have hadmits : ∀ g ∈ gs, settings.input.Admits g.input :=
    fun g hg => hspec₁ ▸ (check_eq_ok.mp (check_of_evaluate (hsingle g hg).2)).2
  -- The batch, if there is room for it.
  have hwhole : Graph.RoomFor gs w (if labelled then some (we : Int) else none) →
      ∃ edge, Graph.batch gs = .ok (Graph.together gs w d edge) ∧
        HasEdgeRows labelled (gs.map fun g => g.edges.length).sum we de (gs.flatMap Graph.edgeRows) edge ∧
        m₂.spec.check (some (Graph.together gs w d edge)) = .ok (Graph.together gs w d edge) := by
    intro hroom
    obtain ⟨edge, hbatch, hlabels⟩ := Graph.batch_eq hne halike hvalid hroom.nodes (fun hl => hroom.edges we (by rw [if_pos hl]; rfl)) hlist
    exact ⟨edge, hbatch, hlabels, check_eq_ok.mpr ⟨rfl, hspec₂ ▸ Graph.together_admits hne halike hvalid hadmits hlabels⟩⟩
  refine ⟨fun ⟨hroom, hfits⟩ => ?_, fun hpos input labels hbatch hresult => ?_⟩
  rotate_left
  · have hroom : Graph.RoomFor gs w (if labelled then some (we : Int) else none) := by
      by_contra hroom
      obtain ⟨f, hf⟩ := Graph.batch_without_room (halike.uniform hvalid) (fun g hg => halike.wellFormed hg) hroom
      rw [hf] at hbatch
      cases hbatch
    obtain ⟨edge, hbatch', hlabels, hcheck⟩ := hwhole hroom
    obtain rfl := Except.ok.inj (hbatch.symm.trans hbatch')
    have hsound := Graph.together_sound hne halike hvalid hadmits hlabels maxIterations
    have hrows := hasRows_flatMap fun g hg => halike.hasRows hg (hvalid g hg)
    exact ⟨hroom, (evaluate_fits hsound hpos ⟨hrows.shaped, hroom.nodes⟩ hc₂ hm₂ hcheck hresult).1⟩
  -- What the formula means on each graph, and so on the batch.
  have hmeaning : ∀ g ∈ gs, meaning ⟨Builtin.registries, settings, g.input, maxIterations⟩ [] (.ok g.input.x) e = .ok (out g) := by
    intro g hg
    have hcheck := check_of_evaluate (hsingle g hg).2
    rw [← outcome_eq_ok, ← evaluate_outcome hc₁ Builtin.registries_calm hm₁ hcheck, outcome_eq_ok]
    exact (hsingle g hg).2
  obtain ⟨edge, hbatch, hlabels, hcheck⟩ := hwhole hroom
  have hs := Graph.together_assembled hne halike hvalid hadmits hlabels maxIterations
  have hinput : Follows gs Graph.size w d (fun g => .ok g.input.x) (.ok (Graph.together gs w d edge).x) := by
    intro xs hxs
    have hrows := fun g hg => halike.hasRows hg (hvalid g hg)
    have hstacks : Stacks gs Graph.size w d (fun g => g.input.x) (Graph.together gs w d edge).x := ⟨_, hrows, hasRows_flatMap hrows⟩
    exact ⟨_, rfl, hstacks.congr fun g hg => (Except.ok.inj (hxs g hg)).symm⟩
  obtain ⟨labels, hmeans, rows, hrows, hall⟩ := meaning_follows hs e (σ := []) hacc hbool nofun (fun _ => hinput) hfits out hmeaning
  refine ⟨_, labels, hbatch, ?_, ?_⟩
  · rw [← outcome_eq_ok, evaluate_outcome hc₂ Builtin.registries_calm hm₂ hcheck, outcome_eq_ok]
    exact hmeans
  · have hstore := Expr.Fits.storable (fun _ => Nat.zero_le _) e hfits
    rw [Expr.width_forBatches] at hstore
    rw [hall.eq]
    exact stack_eq hne hrows hstore hlist.nodes

/-! ## A batch of two graphs -/

namespace Sample

/-- A compiler for batches. -/
def batchCompiler : Compiler :=
  Compiler.fresh Builtin.registries settings.forBatches

/-- A graph without edge labels. -/
def graph (truths : List Bool) (edges : List (Int × Int)) : Graph :=
  ⟨(fromRows (truths.map fun b => [Label.ofBool b]) .bool).toOption, edges, none⟩

/-- Two graphs, on which the sample formula settles after different numbers of turns. -/
def graphs : List Graph :=
  [graph [true, false] [(0, 1)], graph [true, false, false] [(0, 1), (1, 2)]]

/-- All nodes of a graph true. -/
def reached (g : Graph) : Tensor :=
  column .bool (List.replicate g.size Label.one)

theorem batch_reachable : Compiler.Reachable Builtin.registries settings.forBatches batchCompiler :=
  .new (Compiler.new_of_faultless (settings.faults_forBatches.trans settings_faultless))

theorem graphs_alike : Graph.Alike graphs false 1 0 .bool .bool := by
  have hshape : (graphs.all fun g => g.x.all (fun x => x.cols == 1 && x.dtype == .bool) && g.e.isNone) = true := rfl
  rw [List.all_eq_true] at hshape
  have hmade : ∀ g ∈ graphs, ∃ truths edges, g = graph truths edges := by
    intro g hg
    simp only [graphs, List.mem_cons, List.not_mem_nil, or_false] at hg
    rcases hg with rfl | rfl
    · exact ⟨_, _, rfl⟩
    · exact ⟨_, _, rfl⟩
  refine ⟨fun g hg x hx => ?_, fun g hg e he => ?_, fun g hg => ?_⟩
  · have hx : g.x = some x := hx
    have hall := hshape g hg
    rw [hx, Option.all_some, Bool.and_eq_true, Bool.and_eq_true, beq_iff_eq, beq_iff_eq] at hall
    refine ⟨?_, hall.1.1, hall.1.2⟩
    obtain ⟨truths, edges, rfl⟩ := hmade g hg
    rw [graph] at hx
    cases hrows : fromRows (truths.map fun b => [Label.ofBool b]) .bool with
    | error f =>
      rw [hrows] at hx
      cases hx
    | ok y =>
      rw [hrows] at hx
      obtain rfl := Option.some.inj hx
      exact fromRows_proper hrows
  · have he : g.e = some e := he
    have hall := hshape g hg
    rw [he, Bool.and_eq_true] at hall
    cases hall.2
  · have hall := hshape g hg
    rw [Bool.and_eq_true] at hall
    exact Option.isSome_eq_false_iff.mpr hall.2

/-- What the sample formula compiles to for single graphs and for batches, and evaluates to on the two graphs. -/
theorem graphs_evaluated : ∃ m₁ m₂, compiler.Returns expr m₁ ∧ batchCompiler.Returns expr m₂ ∧
    ∀ g ∈ graphs, ∃ input, g.single = .ok input ∧ (Evaluator.evaluate 0 true m₁ (some input)).result = .ok (reached g) := by
  have hsingle : ((compiler.compile false formula).result.toOption.map fun m => graphs.all fun g =>
      (g.single >>= fun input => (Evaluator.evaluate 0 true m (some input)).result).toOption == some (reached g)) = some true := by
    decide +kernel
  have hbatch : (batchCompiler.compile false formula).result.isOk = true := by decide +kernel
  cases hm₁ : (compiler.compile false formula).result with
  | error f =>
    rw [hm₁] at hsingle
    cases hsingle
  | ok m₁ =>
    cases hm₂ : (batchCompiler.compile false formula).result with
    | error f =>
      rw [hm₂] at hbatch
      cases hbatch
    | ok m₂ =>
      rw [hm₁] at hsingle
      have hall := List.all_eq_true.mp (Option.some.inj hsingle)
      refine ⟨m₁, m₂, .text formula_parsed hm₁, .text formula_parsed hm₂, fun g hg => ?_⟩
      have hrun := beq_iff_eq.mp (hall g hg)
      cases hres : g.single >>= fun input => (Evaluator.evaluate 0 true m₁ (some input)).result with
      | error f =>
        rw [hres] at hrun
        cases hrun
      | ok labels =>
        obtain ⟨input, hinput, hlabels⟩ := bind_ok hres
        rw [hres] at hrun
        exact ⟨input, hinput, hlabels.trans (congrArg Except.ok (Option.some.inj hrun))⟩

end Sample

/-- On the batch of the two graphs all nodes are reached, as on the graphs one by one. -/
theorem evaluate_batch_sample : ∃ m₁ m₂, Sample.compiler.Returns Sample.expr m₁ ∧ Sample.batchCompiler.Returns Sample.expr m₂ ∧
    ∃ input labels, Graph.batch Sample.graphs = .ok input ∧ (Evaluator.evaluate 0 true m₂ (some input)).result = .ok labels ∧
      stack (Sample.graphs.map Sample.reached) = .ok labels := by
  obtain ⟨m₁, m₂, hm₁, hm₂, hout⟩ := Sample.graphs_evaluated
  have hnodes : (Sample.graphs.map Graph.size).sum = 5 := rfl
  have hedges : (Sample.graphs.map fun g => g.edges.length).sum = 3 := rfl
  have hlist : Graph.Listable Sample.graphs := ⟨by rw [hnodes]; decide, by rw [hedges]; decide⟩
  have hfits : Sample.expr.FitsBatch Sample.settings Sample.graphs 1 none := by
    refine ⟨⟨?_, nofun⟩, ?_⟩
    · rw [hnodes]
      decide
    · rw [hnodes, hedges]
      exact Sample.expr_fits (by decide) (by decide)
  have hbool : Sample.expr.BoolFixpoints Sample.settings .bool .bool := by
    refine ⟨fun b hb => ?_, rfl, ⟨trivial, ⟨trivial, trivial⟩, trivial⟩, trivial⟩
    rw [Sample.base_bool] at hb
    obtain rfl := Option.some.inj hb
    rfl
  exact ⟨m₁, m₂, hm₁, hm₂, (evaluate_batch Sample.reachable Sample.batch_reachable hm₁ hm₂ (by decide) Sample.graphs_alike hbool
    hlist 0 hout).1 hfits⟩

namespace Sample

/-- A graph of eight nodes without edges. -/
def octet : Graph :=
  ⟨some ⟨8, 1, .uint8, Array.replicate 8 Label.zero⟩, [], none⟩

/-- Graphs with more nodes than there is room for truth values of the wide base. -/
def octets : List Graph :=
  List.replicate 43981 octet

/-- A compiler for batches with the wide base. -/
def wideBatchCompiler : Compiler :=
  Compiler.fresh Builtin.registries wideSettings.forBatches

theorem wideBatch_reachable : Compiler.Reachable Builtin.registries wideSettings.forBatches wideBatchCompiler :=
  .new (Compiler.new_of_faultless (wideSettings.faults_forBatches.trans wide_faultless))

theorem octets_alike : Graph.Alike octets false 1 0 .uint8 .bool := by
  have hoctet : ∀ g ∈ octets, g = octet := fun g hg => List.eq_of_mem_replicate hg
  refine ⟨fun g hg x hx => ?_, fun g hg e he => ?_, fun g hg => ?_⟩
  · obtain rfl := hoctet g hg
    obtain rfl := Option.some.inj hx
    exact ⟨⟨⟨by decide, by decide, rfl⟩, nofun⟩, rfl, rfl⟩
  · obtain rfl := hoctet g hg
    cases he
  · obtain rfl := hoctet g hg
    rfl

theorem octets_sizes : (octets.map Graph.size).sum = 351848 ∧ (octets.map fun g => g.edges.length).sum = 0 := by
  rw [octets, List.map_replicate, List.sum_replicate, List.map_replicate, List.sum_replicate]
  exact ⟨rfl, rfl⟩

/-- The least fixpoint over the wide base gives labels on eight nodes. -/
theorem octet_evaluated : ∃ labels, (Evaluator.evaluate 0 true wideModel (some octet.input)).result = .ok labels := by
  have hcheck : wideModel.spec.check (some octet.input) = .ok octet.input := check_of_isOk (by decide +kernel)
  have houtcome := evaluate_outcome wide_reachable Builtin.registries_calm (.text loop_parsed wide_compiled) hcheck 0
  rw [meaning_loop (n := 8) (w := 100000000) wide_base (by decide) rfl, if_pos (by decide)] at houtcome
  exact ⟨_, outcome_eq_ok.mp houtcome⟩

end Sample

/-- The least fixpoint over a base of 100000000 truth values gives labels on each of 43981 graphs of eight nodes, but not on
their batch. -/
theorem evaluate_batch_no_room : ∃ m, Compiler.Reachable Builtin.registries Sample.wideSettings Sample.wideCompiler ∧
    Compiler.Reachable Builtin.registries Sample.wideSettings.forBatches Sample.wideBatchCompiler ∧
    Sample.wideCompiler.Returns Sample.loopExpr Sample.wideModel ∧ Sample.wideBatchCompiler.Returns Sample.loopExpr m ∧
    Graph.Alike Sample.octets false 1 0 .uint8 .bool ∧ Sample.loopExpr.BoolFixpoints Sample.wideSettings .bool .uint8 ∧
    (∀ g ∈ Sample.octets, ∃ input labels, g.single = .ok input ∧
      (Evaluator.evaluate 0 true Sample.wideModel (some input)).result = .ok labels) ∧
    ∃ input, Graph.batch Sample.octets = .ok input ∧ ∀ labels, (Evaluator.evaluate 0 true m (some input)).result ≠ .ok labels := by
  obtain ⟨m, hm⟩ : ∃ m, (Sample.wideBatchCompiler.compile false Sample.loop).result = .ok m :=
    exists_of_isOk (by decide +kernel)
  have hreturns : Sample.wideBatchCompiler.Returns Sample.loopExpr m := .text Sample.loop_parsed hm
  obtain ⟨hnodes, hedges⟩ := Sample.octets_sizes
  have hlist : Graph.Listable Sample.octets := ⟨by rw [hnodes]; decide, by rw [hedges]; decide⟩
  have hvalid : ∀ g ∈ Sample.octets, g.validate = .ok g.input.x := by
    intro g hg
    obtain rfl := List.eq_of_mem_replicate hg
    rfl
  have hne : Sample.octets ≠ [] := List.ne_nil_of_length_pos (by rw [Sample.octets, List.length_replicate]; decide)
  obtain ⟨e, hbatch, -⟩ := Graph.batch_eq hne Sample.octets_alike hvalid (by rw [hnodes]; decide) nofun hlist
  refine ⟨m, Sample.wide_reachable, Sample.wideBatch_reachable, .text Sample.loop_parsed Sample.wide_compiled, hreturns,
    Sample.octets_alike, ?_, fun g hg => ?_, _, hbatch, fun labels hlabels => ?_⟩
  · refine ⟨fun b hb => ?_, rfl, trivial⟩
    obtain rfl := Option.some.inj (Sample.wide_base.symm.trans hb)
    rfl
  · obtain rfl := List.eq_of_mem_replicate hg
    obtain ⟨labels, hlabels⟩ := Sample.octet_evaluated
    exact ⟨_, labels, Graph.single_eq_ok.mpr ⟨rfl, rfl⟩, hlabels⟩
  · have houtcome := evaluate_outcome Sample.wideBatch_reachable Builtin.registries_calm hreturns (check_of_evaluate hlabels) 0
    have hrows : ((Sample.octets.flatMap fun g => g.input.x.rowList).length : Int) = (351848 : Nat) := by
      rw [List.length_flatMap, Sample.octets, List.map_replicate, List.sum_replicate]
      rfl
    let s : Scene := ⟨Builtin.registries, Sample.wideSettings.forBatches, Graph.together Sample.octets 1 .uint8 e, 0⟩
    rw [hlabels, Sample.meaning_loop (s := s) (n := 351848) (w := 100000000) Sample.wide_base (by decide) hrows, if_neg (by decide)]
      at houtcome
    cases houtcome

end ModalGraph
