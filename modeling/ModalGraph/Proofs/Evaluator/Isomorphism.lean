import ModalGraph.Proofs.Evaluator.Correspondence
import ModalGraph.Proofs.Operator.Renumbered

/-!
# Isomorphic graphs

What a formula says of a node does not depend on the numbers of the nodes, nor on the order in which the edges are listed. This holds
for formulas that do not pool the labels of a graph and that ask of the messages to a node only whether some or all of them are true
(`localVocabulary`); sums of floating point numbers are not the same in every order. On inputs of graphs that are the same up to the
numbers of nodes and edges (`Input.Isomorphic`), a model fails in the same class of failures, or gives labels that are the same up to
the numbers of nodes (`evaluate_isomorphic`). Where one evaluation runs out of room, so does the other one.

Without nodes there are no rows to tell a width by, and the widths of labels side by side are counted in words. But then the two inputs
are the same as far as the model looks at them, so this case stands apart (`same_upheld`).
-/

namespace ModalGraph

open Formula Compiler

/-- Formulas that look at nodes and edges one by one: all builtin psi that do not pool, all phis, the sigma that ask for true messages,
and all fixpoints. -/
def localVocabulary : Vocabulary where
  Psi name _ := name ≠ Bytes.ofString "gsum" ∧ name ≠ Bytes.ofString "gmax"
  Phi _ := True
  Sigma key := ∃ known ∈ ["or", "uor", "and"], (parseKey key).1 = Bytes.ofString known
  Base _ := True

/-- Inputs of one graph with `n` nodes and `k` edges, and of the same graph with nodes renumbered by `p` and edges by `q`: every node and
every edge has its labels, and an edge has the ends, renumbered, that it had before. -/
structure Input.Isomorphic {n k : Nat} (p : Equiv.Perm (Fin n)) (q : Equiv.Perm (Fin k)) (input input' : Input) : Prop where
  labels : ∃ w, input.x.Renumbered p w input'.x
  sources : EndsRenumbered p q input.sources input'.sources
  targets : EndsRenumbered p q input.targets input'.targets
  edgeLabels : ∃ w, Option.Rel (Tensor.Renumbered q w) input.e input'.e
  single : input.index = none ∧ input'.index = none

/-- Without rows nothing is renumbered. -/
theorem Tensor.Renumbered.eq_of_none {p : Equiv.Perm (Fin 0)} {w : Nat} {x y : Tensor} (h : x.Renumbered p w y) : y = x := by
  have hdata : ∀ z : Tensor, z.Shaped 0 w → z.data = #[] := fun z hz => Array.eq_empty_of_size_eq_zero (hz.size_eq.trans (Nat.zero_mul w))
  cases x with
  | mk rows cols dtype data =>
    cases y with
    | mk rows' cols' dtype' data' =>
      obtain rfl : data = #[] := hdata _ h.shaped
      obtain rfl : data' = #[] := hdata _ h.image
      obtain rfl : rows' = rows := h.image.rows_eq.trans h.shaped.rows_eq.symm
      obtain rfl : cols' = cols := h.image.cols_eq.trans h.shaped.cols_eq.symm
      obtain rfl : dtype' = dtype := h.dtype_eq
      rfl

namespace Input.Isomorphic

variable {n k : Nat} {p : Equiv.Perm (Fin n)} {q : Equiv.Perm (Fin k)} {input input' : Input}

theorem nodes_eq (h : input.Isomorphic p q input') : input.nodes = n ∧ input'.nodes = n := by
  obtain ⟨w, hx⟩ := h.labels
  exact ⟨hx.shaped.rows_eq, hx.image.rows_eq⟩

/-- Edges are between nodes if the renumbered edges are. -/
theorem joined_iff (h : input.Isomorphic p q input') : input.Joined input.nodes ↔ input'.Joined input'.nodes := by
  rw [h.nodes_eq.1, h.nodes_eq.2]
  constructor
  · intro hjoined
    exact ⟨h.sources.length_image.trans h.targets.length_image.symm, h.sources.among_iff.mpr hjoined.sources,
      h.targets.among_iff.mpr hjoined.targets⟩
  · intro hjoined
    exact ⟨h.sources.length_eq.trans h.targets.length_eq.symm, h.sources.among_iff.mp hjoined.sources,
      h.targets.among_iff.mp hjoined.targets⟩

/-- Isomorphic graphs are checked with the same outcome. -/
theorem check_agrees (h : input.Isomorphic p q input') (spec : InputSpec) :
    Agree (fun _ _ => True) (spec.check (some input)) (spec.check (some input')) := by
  obtain ⟨w, hx⟩ := h.labels
  obtain ⟨we, he⟩ := h.edgeLabels
  have hindex : InputSpec.checkIndex input' = InputSpec.checkIndex input := by
    rw [InputSpec.checkIndex, InputSpec.checkIndex, h.single.1, h.single.2]
  have hmode : input'.isBatched = input.isBatched := by rw [Input.isBatched, Input.isBatched, h.single.1, h.single.2]
  refine ModalGraph.check_agrees hmode (hx.image.cols_eq.trans hx.shaped.cols_eq.symm) hindex
    (checkEdges_agrees ?_ h.joined_iff fun _ => ?_)
  · rw [h.sources.length_eq, h.targets.length_eq, h.sources.length_image, h.targets.length_image]
  · rw [InputSpec.checkEdgeLabels, InputSpec.checkEdgeLabels, h.sources.length_eq, h.sources.length_image]
    generalize input.e = e at he ⊢
    generalize input'.e = e' at he ⊢
    cases he with
    | none => rfl
    | some he =>
      cases spec.edge with
      | none => rfl
      | some edge =>
        dsimp only
        rw [he.image.rows_eq, he.shaped.rows_eq, he.image.cols_eq, he.shaped.cols_eq]

/-- Without nodes the labels of the nodes are the same, and without nodes and edges between other nodes everything is. -/
theorem eq_of_none {p : Equiv.Perm (Fin 0)} (h : input.Isomorphic p q input') :
    input'.x = input.x ∧ (input.Joined input.nodes → input' = input) := by
  obtain ⟨w, hx⟩ := h.labels
  refine ⟨hx.eq_of_none, fun hjoined => ?_⟩
  have hnone : ∀ l : List Int, (∀ d ∈ l, 0 ≤ d ∧ d < input.nodes) → l = [] := by
    intro l hl
    refine List.eq_nil_iff_forall_not_mem.mpr fun d hd => ?_
    have := hl d hd
    rw [h.nodes_eq.1] at this
    omega
  have hsources := hnone _ hjoined.sources
  have htargets := hnone _ hjoined.targets
  obtain rfl : k = 0 := by rw [← h.sources.length_eq, hsources, List.length_nil]
  have hsources' : input'.sources = [] := List.length_eq_zero_iff.mp h.sources.length_image
  have htargets' : input'.targets = [] := List.length_eq_zero_iff.mp h.targets.length_image
  have hlabels : input'.e = input.e := by
    obtain ⟨we, he⟩ := h.edgeLabels
    generalize input.e = e at he ⊢
    generalize input'.e = e' at he ⊢
    cases he with
    | none => rfl
    | some he => exact congrArg some he.eq_of_none
  have hindex := h.single.2.trans h.single.1.symm
  have hlabelled := hx.eq_of_none
  cases input
  cases input'
  simp only at hsources htargets hsources' htargets' hlabels hindex hlabelled
  rw [hlabelled, hsources', hsources, htargets', htargets, hlabels, hindex]

end Input.Isomorphic

/-! ## Scenes side by side -/

/-- The same scene on another input. -/
def Scene.on (s : Scene) (input : Input) : Scene :=
  { s with input := input }

@[simp] theorem Scene.on_ops (s : Scene) (input : Input) : (s.on input).ops = s.ops := rfl

@[simp] theorem Scene.on_settings (s : Scene) (input : Input) : (s.on input).settings = s.settings := rfl

@[simp] theorem Scene.on_input (s : Scene) (input : Input) : (s.on input).input = input := rfl

@[simp] theorem Scene.on_maxIterations (s : Scene) (input : Input) : (s.on input).maxIterations = s.maxIterations := rfl

namespace IsomorphismAux

section

variable {n k w : Nat} {p : Equiv.Perm (Fin n)} {q : Equiv.Perm (Fin k)} {s : Scene} {input' : Input} {x y : Tensor}

/-- The ends of edges in both scenes, in either direction. -/
theorem ends_renumbered (h : s.input.Isomorphic p q input') (direction : Direction) :
    EndsRenumbered p q (s.ends direction).1 ((s.on input').ends direction).1 ∧
      EndsRenumbered p q (s.ends direction).2 ((s.on input').ends direction).2 := by
  cases direction with
  | forward => exact ⟨h.sources, h.targets⟩
  | backward => exact ⟨h.targets, h.sources⟩

/-- The edge labels in both scenes. -/
theorem edgeLabels_renumbered (h : s.input.Isomorphic p q input') :
    ∃ w, Option.Rel (Tensor.Renumbered q w) s.edgeLabels ((s.on input').edgeLabels) := by
  rw [Scene.edgeLabels, Scene.edgeLabels, Scene.on_settings, Scene.on_input]
  cases s.settings.input.edge with
  | none => exact ⟨0, .none⟩
  | some edge => exact h.edgeLabels

theorem rowPerNode_renumbered (h : s.input.Isomorphic p q input') {a b : Labels} (hab : a.Renumbered p w b) :
    Agree (Tensor.Renumbered p w) (s.rowPerNode a) ((s.on input').rowPerNode b) := by
  obtain ⟨x, y, rfl, rfl, hxy⟩ := hab
  have hx : x.rows = s.nodes := hxy.shaped.rows_eq.trans h.nodes_eq.1.symm
  have hy : y.rows = (s.on input').nodes := hxy.image.rows_eq.trans h.nodes_eq.2.symm
  rw [Scene.rowPerNode, Scene.rowPerNode, if_pos hx, if_pos hy]
  exact hxy

/-- A psi that does not pool. -/
theorem atom_renumbered (hops : s.ops = Builtin.registries) (h : s.input.Isomorphic p q input') {name : Bytes} {arg : Argument} {op : Psi}
    (hop : Builtin.psi.get name arg = .ok op) (hrows : op.RowByRow) (hxy : x.Renumbered p w y) :
    Agree (Tensor.Renumbered p (op.width w).toNat) (s.atom name arg x) ((s.on input').atom name arg y) := by
  rw [Scene.atom, Scene.atom, Scene.on_ops, Scene.on_input, hops, Builtin.registries_psi, hop, ok_bind, ok_bind, Input.isBatched,
    Input.isBatched, h.single.1, h.single.2]
  exact (hrows.single_renumbered hxy).bind fun _ _ hab => rowPerNode_renumbered h hab

/-- The messages along the edges. -/
theorem messages_renumbered (hops : s.ops = Builtin.registries) (h : s.input.Isomorphic p q input')
    (hjoined : s.input.Joined n) (direction : Direction) {phi : Option Bytes}
    (hphi : ∀ key ∈ phi, ∃ op, Builtin.phi.resolve key = .ok op) (hxy : x.Renumbered p w y) :
    Agree (fun m m' => ∃ w, m.Renumbered q w m') (s.messages direction phi x) ((s.on input').messages direction phi y) := by
  obtain ⟨horigin, hgoal⟩ := ends_renumbered h direction
  obtain ⟨we, he⟩ := edgeLabels_renumbered h
  rw [Scene.messages, Scene.messages]
  refine (hxy.gather horigin (Scene.origins hjoined direction).1).bind fun m m' hmessages => ?_
  cases phi with
  | none => exact ⟨w, hmessages⟩
  | some key =>
    obtain ⟨op, hop⟩ := hphi key rfl
    dsimp only
    rw [Scene.on_ops, hops, Builtin.registries_phi, hop, ok_bind, ok_bind]
    refine (hxy.gather hgoal (Scene.goals hjoined direction).1).bind fun t t' htargets => ?_
    refine (phi_renumbered hop hmessages he htargets).bind fun a b hab => ?_
    obtain ⟨a, b, rfl, rfl, hab⟩ := hab
    rw [Scene.messagePerEdge, Scene.messagePerEdge, hgoal.length_eq, hgoal.length_image, if_pos hab.shaped.rows_eq,
      if_pos hab.image.rows_eq]
    exact ⟨_, hab⟩

/-- One step of message passing. -/
theorem diamond_renumbered (hops : s.ops = Builtin.registries) (h : s.input.Isomorphic p q input')
    (hjoined : s.input.Joined n) (direction : Direction) {phi : Option Bytes}
    (hphi : ∀ key ∈ phi, ∃ op, Builtin.phi.resolve key = .ok op) {sigma : Bytes}
    (hsigma : ∃ known ∈ ["or", "uor", "and"], (parseKey sigma).1 = Bytes.ofString known) (hxy : x.Renumbered p w y) :
    Agree (fun a b => ∃ w, a.Renumbered p w b) (s.diamond direction phi sigma x) ((s.on input').diamond direction phi sigma y) := by
  obtain ⟨b, hop, -⟩ := TruthAux.resolve_truth hsigma
  rw [Scene.diamond, Scene.diamond, Scene.on_ops, hops, Builtin.registries_sigma, hop, ok_bind, ok_bind]
  refine (messages_renumbered hops h hjoined direction hphi hxy).bind fun m m' hmessages => ?_
  obtain ⟨v, hm⟩ := hmessages
  rw [Scene.nodes, Scene.nodes, Scene.on_input, h.nodes_eq.1, h.nodes_eq.2]
  have hout := aggregation_renumbered hm (ends_renumbered h direction).2 (Scene.goals hjoined direction).1 b (some x) (some y)
  exact hout.bind fun _ _ hab => (rowPerNode_renumbered h hab).imp fun _ _ hab => ⟨v, hab⟩

end

/-- What holds of every second one in two lists side by side holds of the second list. -/
theorem forall_of_forall₂ {α β : Type} {P : β → Prop} {as : List α} {bs : List β} (h : List.Forall₂ (fun _ b => P b) as bs) :
    ∀ b ∈ bs, P b := by
  induction h with
  | nil => exact List.forall_mem_nil _
  | cons hb _ ih => exact List.forall_mem_cons.mpr ⟨hb, ih⟩

/-- Labels with the numbers of nodes changed. -/
def renumbering {n : Nat} (p : Equiv.Perm (Fin n)) (V : Vocabulary) : Correspondence where
  Relevant u := u.Over V
  Labels _ x y := ∃ w, x.Renumbered p w y
  Assigned _ x y := ∃ w, x.Renumbered p w y

theorem renumbering_upheld {n k : Nat} {p : Equiv.Perm (Fin n)} {q : Equiv.Perm (Fin k)} {s : Scene} {input' : Input}
    (hops : s.ops = Builtin.registries) (h : s.input.Isomorphic p q input') (hadmits : s.settings.input.Admits s.input) (hn : 0 < n) :
    (renumbering p (localVocabulary.resolved Builtin.registries s.settings)).Upheld {} s (s.on input') where
  parts hrel u hu := hrel.parts u hu
  input := h.labels
  psi := by
    rintro name arg u x y ⟨⟨⟨hsum, hmax⟩, op, hop⟩, -⟩ ⟨w, hxy⟩
    exact (atom_renumbered hops h hop (psi_rowByRow hop hsum hmax) hxy).imp fun _ _ hab => ⟨_, hab⟩
  concat := by
    intro us ps _ hps
    exact Tensor.Renumbered.concat hn (forall_of_forall₂ hps)
  diamond := by
    rintro direction phi sigma u x y ⟨⟨-, hadjacency, hphi⟩, hsigma, -⟩ ⟨w, hxy⟩
    have hjoined := hadmits.joined hadjacency
    rw [h.nodes_eq.1] at hjoined
    exact diamond_renumbered hops h hjoined direction hphi hsigma hxy
  var hxy := hxy
  fix hxy := hxy
  start := by
    intro least depth base u _
    rw [Scene.opening, Scene.opening, Scene.on_settings, Scene.nodes, Scene.nodes, Scene.on_input, h.nodes_eq.1, h.nodes_eq.2]
    cases s.settings.base? base with
    | none => exact rfl
    | some b =>
      refine (Agree.refl (b.init least)).bind fun row row' hrow => ?_
      subst hrow
      by_cases hstore : Tensor.Storable n row.length
      · rw [Tensor.full?_eq hstore]
        exact ⟨rfl, row.length, Tensor.renumbered_full p b.dtype hstore⟩
      · rw [Tensor.full?_eq_none (Nat.not_le.mp hstore)]
        exact rfl
  limit width := by
    rw [Scene.limit, Scene.limit, Scene.nodes, Scene.nodes, Scene.on_input, Scene.on_maxIterations, h.nodes_eq.1, h.nodes_eq.2]
  turn := by
    rintro least depth base u w x₀ x y _ _ ⟨w', hxy⟩
    rw [Scene.nodes, Scene.nodes, Scene.on_input, h.nodes_eq.1, h.nodes_eq.2, hxy.shaped.rows_eq, hxy.image.rows_eq,
      hxy.shaped.cols_eq, hxy.image.cols_eq]
    exact ⟨Iff.rfl, fun _ => ⟨w', hxy⟩⟩
  equal := by
    rintro key x y x' y' ⟨w, hxy⟩ ⟨w', hxy'⟩
    exact hxy.equal_eq hxy'

/-- Labels that are the same. -/
def sameness (V : Vocabulary) : Correspondence where
  Relevant u := u.Over V
  Labels _ x y := y = x
  Assigned _ x y := y = x

/-- Without nodes nothing is renumbered. -/
theorem same_upheld {k : Nat} {p : Equiv.Perm (Fin 0)} {q : Equiv.Perm (Fin k)} {s : Scene} {input' : Input}
    (h : s.input.Isomorphic p q input') (hadmits : s.settings.input.Admits s.input) :
    (sameness (localVocabulary.resolved Builtin.registries s.settings)).Upheld {} s (s.on input') := by
  obtain ⟨hx, hsame⟩ := h.eq_of_none
  have hnodes : (s.on input').nodes = s.nodes := by rw [Scene.nodes, Scene.nodes, Scene.on_input, h.nodes_eq.1, h.nodes_eq.2]
  have hagree : ∀ {x y : Except Failure Tensor}, y = x → Agree (fun a b => b = a) x y := by
    intro x y hxy
    rw [hxy]
    exact (Agree.refl x).imp fun _ _ => Eq.symm
  refine ⟨fun hrel u hu => hrel.parts u hu, hx, ?_, ?_, ?_, id, id, ?_, fun width => ?_, ?_, ?_⟩
  · intro name arg u x y _ hxy
    obtain rfl : y = x := hxy
    refine hagree ?_
    simp only [id, Scene.atom, Scene.rowPerNode, hnodes, Scene.on_ops, Scene.on_input, Input.isBatched, h.single.1, h.single.2]
  · intro us ps _ hps
    exact hagree (congrArg Tensor.concat (List.map_congr_left (forall_of_forall₂ hps)))
  · intro direction phi sigma u x y hover hxy
    obtain rfl : y = x := hxy
    have hon : s.on input' = s := by rw [hsame (hadmits.joined hover.1.2.1)]; rfl
    exact hagree (by rw [hon]; rfl)
  · intro least depth base u _
    have hopening : (s.on input').opening least base = s.opening least base := by
      rw [Scene.opening, Scene.opening, hnodes, Scene.on_settings]
    show Agree _ (s.opening least base) ((s.on input').opening least base)
    rw [hopening]
    exact (Agree.refl _).imp fun _ _ hpair => hpair ▸ ⟨rfl, rfl⟩
  · rw [Scene.limit, Scene.limit, hnodes, Scene.on_maxIterations]
  · rintro least depth base u w x₀ x _ - - rfl
    rw [hnodes]
    exact ⟨Iff.rfl, fun _ => rfl⟩
  · rintro key x _ x' _ rfl rfl
    rfl

end IsomorphismAux

open IsomorphismAux

/-- On inputs of isomorphic graphs a model fails in the same class of failures, or gives labels that are the same up to the numbers of
nodes. Without nodes it gives the same labels. -/
theorem evaluate_isomorphic {settings : Settings} {c : Compiler} (hc : Reachable Builtin.registries settings c) {e : Expr} (he : e.Named)
    (hV : e.Over localVocabulary) {m : Model} (hm : c.Gives e m) {n k : Nat} {p : Equiv.Perm (Fin n)} {q : Equiv.Perm (Fin k)}
    {input input' : Input} (h : input.Isomorphic p q input') (maxIterations : Int) (live : Bool) :
    Agree (fun x y => (∃ w, x.Renumbered p w y) ∨ n = 0 ∧ y = x) (Evaluator.evaluate maxIterations live m (some input)).result
      (Evaluator.evaluate maxIterations live m (some input')).result := by
  have hsuits := Translation.suits_direction id (localVocabulary.resolved Builtin.registries settings) Builtin.registries settings
  have hresolved := hV.resolved (hm.accepted hc he)
  -- Both evaluations are of the same model: the formula is carried over to itself.
  have hsame : c.Gives (e.translate {}) m := by rwa [Expr.translate_keeps]
  rcases Nat.eq_zero_or_pos n with rfl | hn
  · have hupheld := fun hadmits => same_upheld (s := ⟨Builtin.registries, settings, input, maxIterations⟩) h hadmits
    refine (evaluate_agrees hsuits Builtin.registries_calm hc hc he hresolved hm hsame (h.check_agrees settings.input) hupheld
      (fun t _ hover => hover) live).imp ?_
    rintro x y ⟨t, -, hxy⟩
    exact .inr ⟨rfl, hxy⟩
  · have hupheld := fun hadmits => renumbering_upheld (s := ⟨Builtin.registries, settings, input, maxIterations⟩) rfl h hadmits hn
    refine (evaluate_agrees hsuits Builtin.registries_calm hc hc he hresolved hm hsame (h.check_agrees settings.input) hupheld
      (fun t _ hover => hover) live).imp ?_
    rintro x y ⟨t, -, hxy⟩
    exact .inl hxy

namespace Sample

/-- Three nodes, the first one true, with edges to and fro between the first two. -/
def island : Input :=
  ⟨Tensor.column .bool [Label.one, Label.zero, Label.zero], [0, 1], [1, 0], none, none⟩

/-- The same graph with the first and the last node exchanged, and its edges listed in the other order. -/
def islandTurned : Input :=
  ⟨Tensor.column .bool [Label.zero, Label.zero, Label.one], [1, 2], [2, 1], none, none⟩

theorem island_isomorphic : island.Isomorphic (Equiv.swap (0 : Fin 3) 2) (Equiv.swap (0 : Fin 2) 1) islandTurned where
  labels := ⟨1, ⟨rfl, rfl, rfl⟩, ⟨rfl, rfl, rfl⟩, by decide, rfl, by decide +kernel⟩
  sources := ⟨rfl, rfl, by decide +kernel⟩
  targets := ⟨rfl, rfl, by decide +kernel⟩
  edgeLabels := ⟨0, .none⟩
  single := ⟨rfl, rfl⟩

theorem expr_local : expr.Over localVocabulary := by
  refine ⟨trivial, ⟨⟨by decide +kernel, by decide +kernel⟩, ⟨trivial, trivial, "or", by decide, by decide +kernel⟩, trivial⟩,
    by decide +kernel, by decide +kernel⟩

end Sample

/-- On the turned island the sample formula holds at the last two nodes, as it holds at the first two on the island. -/
theorem evaluate_isomorphic_sample : ∃ m, Sample.compiler.Gives Sample.expr m ∧
    (Evaluator.evaluate 0 true m (some Sample.islandTurned)).result =
      .ok (Tensor.column .bool [Label.zero, Label.one, Label.one]) := by
  obtain ⟨m, hm, -, hres⟩ := Sample.runs Sample.formula_parsed Sample.island
    (Tensor.column .bool [Label.one, Label.one, Label.zero]) (by decide +kernel)
  have hagree := evaluate_isomorphic Sample.reachable (parse_wellFormed Sample.formula_parsed).named Sample.expr_local hm.gives
    Sample.island_isomorphic 0 true
  rw [hres] at hagree
  obtain ⟨y, hy, ⟨w, hrenumbered⟩ | ⟨hnone, -⟩⟩ := hagree.of_ok
  swap
  · cases hnone
  refine ⟨m, hm.gives, hy.trans (congrArg Except.ok ?_)⟩
  obtain rfl : w = 1 := Int.ofNat.inj hrenumbered.shaped.cols_eq.symm
  have hrow := hrenumbered.row_eq
  rw [← Tensor.ofRows_rowList hrenumbered.image, Tensor.rowList_eq hrenumbered.image, hrenumbered.dtype_eq]
  have h0 : y.row 0 = [Label.zero] := hrow 2
  have h1 : y.row 1 = [Label.one] := hrow 1
  have h2 : y.row 2 = [Label.one] := hrow 0
  rw [show List.range 3 = [0, 1, 2] from rfl, List.map_cons, List.map_cons, List.map_cons, h0, h1, h2]
  rfl

end ModalGraph
