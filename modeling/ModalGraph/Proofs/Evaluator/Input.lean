import ModalGraph.Evaluator.Input
import ModalGraph.Proofs.Agree

/-!
# Inputs that a model accepts

`InputSpec.Admits` says what an input must be like for a model: in the same batching mode, with labels of the width that the model is
compiled for, with a graph number for every node of a batch, and with edges between nodes and labels on the edges where the model wants
them. Checking an input succeeds exactly if the model admits it (`check_eq_ok`). Two inputs are checked with the same outcome if
nothing tells them apart that the check asks for (`check_agrees`).
-/

namespace ModalGraph

/-- Edges between some number of nodes. -/
structure Input.Joined (nodes : Int) (input : Input) : Prop where
  length_eq : input.sources.length = input.targets.length
  sources : ∀ i ∈ input.sources, 0 ≤ i ∧ i < nodes
  targets : ∀ i ∈ input.targets, 0 ≤ i ∧ i < nodes

/-- An input of the shape that a model is compiled for. -/
structure InputSpec.Admits (spec : InputSpec) (input : Input) : Prop where
  mode : spec.batched = input.isBatched
  width : input.x.cols = spec.node.width
  index : ∀ index, input.index = some index → (index.length : Int) = input.nodes ∧ ∃ counts, Tensor.segmentCounts index = .ok counts
  joined : spec.adjacency = true → input.Joined input.nodes
  labelled : spec.adjacency = true → ∀ edge, spec.edge = some edge →
    ∃ e, input.e = some e ∧ e.rows = input.sources.length ∧ e.cols = edge.width

theorem isOutside_eq_false {nodes i : Int} : isOutside nodes i = false ↔ 0 ≤ i ∧ i < nodes := by
  rw [isOutside, Bool.or_eq_false_iff, decide_eq_false_iff_not, decide_eq_false_iff_not]
  omega

/-- No edge has an end outside the graph. -/
theorem strayEdge?_eq_none {nodes : Int} {edges : List (Int × Int)} (i : Nat) :
    strayEdge? nodes i edges = none ↔ ∀ p ∈ edges, (0 ≤ p.1 ∧ p.1 < nodes) ∧ 0 ≤ p.2 ∧ p.2 < nodes := by
  induction edges generalizing i with
  | nil => simp [strayEdge?]
  | cons p edges ih =>
    obtain ⟨s, t⟩ := p
    rw [strayEdge?, List.forall_mem_cons, ← ih (i + 1), ← isOutside_eq_false, ← isOutside_eq_false, ← Bool.or_eq_false_iff]
    cases isOutside nodes s || isOutside nodes t with
    | true => simp
    | false => simp

namespace InputAux

/-- Ends of edges given by two lists of one length. -/
theorem forall_mem_zip {P : Int → Prop} {sources targets : List Int} (h : sources.length = targets.length) :
    (∀ p ∈ sources.zip targets, P p.1 ∧ P p.2) ↔ (∀ i ∈ sources, P i) ∧ ∀ i ∈ targets, P i := by
  induction sources generalizing targets with
  | nil =>
    obtain rfl : targets = [] := List.length_eq_zero_iff.mp h.symm
    simp
  | cons i sources ih =>
    cases targets with
    | nil => cases h
    | cons j targets =>
      rw [List.zip_cons_cons, List.forall_mem_cons, List.forall_mem_cons, List.forall_mem_cons, ih (Nat.succ.inj h)]
      exact and_and_and_comm

theorem checkIndex_eq_ok {input : Input} : InputSpec.checkIndex input = .ok () ↔
    ∀ index, input.index = some index → (index.length : Int) = input.nodes ∧ ∃ counts, Tensor.segmentCounts index = .ok counts := by
  rw [InputSpec.checkIndex]
  cases input.index with
  | none => simp
  | some index =>
    by_cases hlen : (index.length : Int) = input.nodes
    · cases hcounts : Tensor.segmentCounts index with
      | error f => simp [hlen, hcounts, bind, Except.bind]
      | ok counts => simp [hlen, hcounts, bind, Except.bind, pure, Except.pure]
    · simp [hlen, bind, Except.bind, throw, throwThe, MonadExceptOf.throw]

theorem checkEdgeLabels_eq_ok {spec : InputSpec} {input : Input} : spec.checkEdgeLabels input = .ok () ↔
    ∀ edge, spec.edge = some edge → ∃ e, input.e = some e ∧ e.rows = input.sources.length ∧ e.cols = edge.width := by
  rw [InputSpec.checkEdgeLabels]
  cases spec.edge with
  | none => simp
  | some edge =>
    cases input.e with
    | none => simp
    | some e =>
      dsimp only
      split
      · simp_all
      · split <;> simp_all

/-- Edges with two ends each are between nodes if none has an end outside the graph. -/
theorem strayEdge?_eq_none_iff {input : Input} (hlen : input.sources.length = input.targets.length) :
    strayEdge? input.nodes 0 (input.sources.zip input.targets) = none ↔ input.Joined input.nodes := by
  rw [strayEdge?_eq_none, forall_mem_zip (P := fun i => 0 ≤ i ∧ i < input.nodes) hlen]
  exact ⟨fun h => ⟨hlen, h.1, h.2⟩, fun h => ⟨h.sources, h.targets⟩⟩

theorem checkEdges_eq_ok {spec : InputSpec} {input : Input} :
    spec.checkEdges input = .ok () ↔ input.Joined input.nodes ∧ spec.checkEdgeLabels input = .ok () := by
  rw [InputSpec.checkEdges]
  by_cases hlen : input.sources.length = input.targets.length
  · rw [if_neg (by simpa using hlen), ← strayEdge?_eq_none_iff hlen]
    cases strayEdge? input.nodes 0 (input.sources.zip input.targets) with
    | none => exact ⟨fun h => ⟨rfl, h⟩, fun h => h.2⟩
    | some f => exact ⟨nofun, fun h => nomatch h.1⟩
  · rw [if_pos hlen]
    constructor
    · exact nofun
    · exact fun h => absurd h.1.length_eq hlen

end InputAux

open InputAux

/-- Checking an input gives the input, if the model admits it. -/
theorem check_eq_ok {spec : InputSpec} {input input' : Input} :
    spec.check (some input) = .ok input' ↔ input' = input ∧ spec.Admits input := by
  have hadmits : spec.Admits input ↔ (spec.batched = input.isBatched ∧ input.x.cols = spec.node.width) ∧
      InputSpec.checkIndex input = .ok () ∧ (spec.adjacency = true → spec.checkEdges input = .ok ()) := by
    rw [checkEdges_eq_ok, checkEdgeLabels_eq_ok, checkIndex_eq_ok]
    exact ⟨fun h => ⟨⟨h.mode, h.width⟩, h.index, fun ha => ⟨h.joined ha, h.labelled ha⟩⟩,
      fun h => ⟨h.1.1, h.1.2, h.2.1, fun ha => (h.2.2 ha).1, fun ha => (h.2.2 ha).2⟩⟩
  rw [hadmits, InputSpec.check]
  dsimp only
  by_cases hmode : spec.batched = input.isBatched
  · by_cases hwidth : input.x.cols = spec.node.width
    · rw [if_neg (by simpa using hmode), if_neg (by simpa using hwidth)]
      cases InputSpec.checkIndex input with
      | error f => simp [bind, Except.bind]
      | ok u =>
        cases spec.adjacency with
        | false => simp [bind, Except.bind, pure, Except.pure, hmode, hwidth, eq_comm]
        | true =>
          cases spec.checkEdges input with
          | error f => simp [bind, Except.bind]
          | ok u => simp [bind, Except.bind, pure, Except.pure, hmode, hwidth, eq_comm]
    · rw [if_neg (by simpa using hmode), if_pos hwidth]
      exact ⟨nofun, fun h => absurd h.2.1.2 hwidth⟩
  · rw [if_pos (by simpa using hmode)]
    exact ⟨nofun, fun h => absurd h.2.1.1 hmode⟩

/-- Checking an input gives no other one. -/
theorem check_of_isOk {spec : InputSpec} {input : Input} (h : (spec.check (some input)).isOk = true) :
    spec.check (some input) = .ok input := by
  obtain ⟨input', hcheck⟩ := exists_of_isOk h
  rw [hcheck, (check_eq_ok.mp hcheck).1]

/-! ## Inputs checked side by side -/

theorem strayEdge?_kind {nodes : Int} {i : Nat} {edges : List (Int × Int)} {f : Failure} (h : strayEdge? nodes i edges = some f) :
    f.kind = .edgeOutOfRange := by
  induction edges generalizing i with
  | nil => cases h
  | cons p edges ih =>
    rw [strayEdge?] at h
    split at h
    · obtain rfl := Option.some.inj h
      rfl
    · exact ih h

/-- The edges of two inputs are checked with the same outcome, if they have two ends each alike, are between nodes alike, and are
labelled alike. -/
theorem checkEdges_agrees {spec : InputSpec} {input input' : Input}
    (hlen : input.sources.length = input.targets.length ↔ input'.sources.length = input'.targets.length)
    (hjoined : input.Joined input.nodes ↔ input'.Joined input'.nodes)
    (hlabels : input.sources.length = input.targets.length → spec.checkEdgeLabels input' = spec.checkEdgeLabels input) :
    Agree Eq (spec.checkEdges input) (spec.checkEdges input') := by
  rw [InputSpec.checkEdges, InputSpec.checkEdges]
  by_cases hends : input.sources.length = input.targets.length
  · have hends' := hlen.mp hends
    rw [hlabels hends, if_neg fun h => h hends, if_neg fun h => h hends']
    rw [← strayEdge?_eq_none_iff hends, ← strayEdge?_eq_none_iff hends'] at hjoined
    cases hstray : strayEdge? input.nodes 0 (input.sources.zip input.targets) with
    | none =>
      rw [hjoined.mp hstray]
      exact Agree.refl _
    | some f =>
      cases hstray' : strayEdge? input'.nodes 0 (input'.sources.zip input'.targets) with
      | none => exact nomatch hstray.symm.trans (hjoined.mpr hstray')
      | some f' => exact (strayEdge?_kind hstray).trans (strayEdge?_kind hstray').symm
  · rw [if_pos hends, if_pos fun h => hends (hlen.mpr h)]
    exact rfl

/-- Two inputs in the same mode, with labels of the same width, with the same outcome for their graph numbers and for their edges. -/
theorem check_agrees {spec : InputSpec} {input input' : Input} (hmode : input'.isBatched = input.isBatched)
    (hcols : input'.x.cols = input.x.cols) (hindex : InputSpec.checkIndex input' = InputSpec.checkIndex input)
    (hedges : Agree Eq (spec.checkEdges input) (spec.checkEdges input')) :
    Agree (fun _ _ => True) (spec.check (some input)) (spec.check (some input')) := by
  rw [InputSpec.check, InputSpec.check]
  dsimp only
  rw [hmode, hcols, hindex]
  by_cases hbatched : (spec.batched != input.isBatched) = true
  · rw [if_pos hbatched, if_pos hbatched]
    exact rfl
  rw [if_neg hbatched, if_neg hbatched]
  by_cases hwidth : input.x.cols ≠ spec.node.width
  · rw [if_pos hwidth, if_pos hwidth]
    exact rfl
  rw [if_neg hwidth, if_neg hwidth]
  refine (Agree.refl (InputSpec.checkIndex input)).bind fun _ _ _ => ?_
  cases spec.adjacency with
  | false => exact trivial
  | true => exact hedges.bind fun _ _ _ => trivial

end ModalGraph
