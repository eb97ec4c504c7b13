import ModalGraph.Proofs.Evaluator.Input
import ModalGraph.Proofs.Operator.Diamond

/-!
# Graphs put together

What graphs that go together (`Graph.Uniform`) give as a batch: their rows below each other, the ends of their edges shifted by the
nodes of the graphs before, and a graph index that counts up with the graphs (`batch_uniform`, and `batch_eq` for labels of one
domain). Graphs that do not go together make no batch (`uniform_of_batch`). The sizes of the graphs can be read off the graph index
(`segmentCounts_numbered`); graphs without nodes leave no trace in it.
-/

namespace ModalGraph

open Tensor

namespace Graph

/-- A graph as an input, if its parts go together. -/
def input (g : Graph) : Input :=
  ⟨g.x.getD default, g.edges.map Prod.fst, g.edges.map Prod.snd, g.e, none⟩

/-- The number of nodes. -/
def size (g : Graph) : Nat :=
  g.input.nodes.toNat

/-- The rows of the edge labels. -/
def edgeRows (g : Graph) : List (List Label) :=
  (g.e.map Tensor.rowList).getD []

/-- A graph whose labels are as many as their shapes call for. -/
structure WellFormed (g : Graph) : Prop where
  nodes : ∀ x ∈ g.x, x.WellFormed
  edges : ∀ e ∈ g.e, e.WellFormed

/-- Graphs whose parts go together, with node labels of one width, which all have edge labels of one width or none has any. -/
structure Uniform (gs : List Graph) (w : Int) (we : Option Int) : Prop where
  valid : ∀ g ∈ gs, g.validate.isOk = true
  nodes : ∀ g ∈ gs, ∀ x ∈ g.x, x.cols = w
  edges : ∀ g ∈ gs, g.e.map Tensor.cols = we

/-- The labels of some graphs can be stored below each other, those of the nodes and, if there are any, those of the edges. -/
structure RoomFor (gs : List Graph) (w : Int) (we : Option Int) : Prop where
  nodes : Storable (gs.map size).sum w.toNat
  edges : ∀ k ∈ we, Storable (gs.map fun g => g.edges.length).sum k.toNat

/-- The nodes and the edges of some graphs are no more than the entries of a list can be. -/
structure Listable (gs : List Graph) : Prop where
  nodes : (gs.map size).sum < 2 ^ 63
  edges : (gs.map fun g => g.edges.length).sum < 2 ^ 63

/-- Graphs with node labels of one width and domain, which all or none have edge labels of one width and domain. -/
structure Alike (gs : List Graph) (labelled : Bool) (w we : Nat) (d de : DType) : Prop where
  nodes : ∀ g ∈ gs, ∀ x ∈ g.x, x.Proper ∧ x.cols = w ∧ x.dtype = d
  edges : ∀ g ∈ gs, ∀ e ∈ g.e, e.Proper ∧ e.cols = we ∧ e.dtype = de
  labelled_eq : ∀ g ∈ gs, g.e.isSome = labelled

/-- A graph whose parts go together: it has node labels, its edges are between its nodes, and it has a label for each edge, if any. -/
theorem validate_eq_ok {g : Graph} {x : Tensor} :
    g.validate = .ok x ↔ g.x = some x ∧ g.input.Joined x.rows ∧ ∀ e ∈ g.e, e.rows = g.edges.length := by
  have hjoined : ∀ nodes, strayEdge? nodes 0 g.edges = none ↔ g.input.Joined nodes := by
    intro nodes
    rw [strayEdge?_eq_none]
    constructor
    · refine fun h => ⟨by simp [input], fun i hi => ?_, fun i hi => ?_⟩
      · obtain ⟨p, hp, rfl⟩ := List.mem_map.mp hi
        exact (h p hp).1
      · obtain ⟨p, hp, rfl⟩ := List.mem_map.mp hi
        exact (h p hp).2
    · exact fun h p hp => ⟨h.sources _ (List.mem_map_of_mem hp), h.targets _ (List.mem_map_of_mem hp)⟩
  rw [validate]
  cases g.x with
  | none => simp
  | some x' =>
    dsimp only
    cases hstray : strayEdge? x'.rows 0 g.edges with
    | some f =>
      refine ⟨nofun, fun h => ?_⟩
      obtain ⟨hx, hin, _⟩ := h
      obtain rfl := Option.some.inj hx
      rw [(hjoined _).mpr hin] at hstray
      cases hstray
    | none =>
      have hin := (hjoined _).mp hstray
      cases g.e with
      | none => exact ⟨fun h => by obtain rfl := Except.ok.inj h; exact ⟨rfl, hin, nofun⟩, fun h => congrArg _ (Option.some.inj h.1)⟩
      | some e =>
        dsimp only
        split
        · rename_i hrows
          exact ⟨nofun, fun h => absurd (h.2.2 e rfl) hrows⟩
        · rename_i hrows
          refine ⟨fun h => ?_, fun h => congrArg _ (Option.some.inj h.1)⟩
          obtain rfl := Except.ok.inj h
          exact ⟨rfl, hin, fun e' he' => by obtain rfl := Option.some.inj he'; exact not_not.mp hrows⟩

/-- The labels of a graph whose parts go together. -/
theorem validate_input {g : Graph} (h : g.validate.isOk = true) : g.validate = .ok g.input.x := by
  obtain ⟨x, hx⟩ := exists_of_isOk h
  rw [hx, input, (validate_eq_ok.mp hx).1, Option.getD_some]

/-- A graph as an input. -/
theorem single_eq_ok {g : Graph} {i : Input} : g.single = .ok i ↔ i = g.input ∧ g.validate = .ok g.input.x := by
  rw [single]
  constructor
  · intro h
    obtain ⟨x, hx, hi⟩ := bind_ok h
    have hvalid := validate_input (congrArg Except.isOk hx)
    obtain rfl := Except.ok.inj (hvalid.symm.trans hx)
    obtain rfl := Except.ok.inj hi
    exact ⟨rfl, hvalid⟩
  · rintro ⟨rfl, hx⟩
    rw [hx]
    rfl

/-! ## The graph index -/

/-- The graph numbers of the nodes, the first graph having number `i`. -/
def numbered (i : Nat) : List Graph → List Int
  | [] => []
  | g :: gs => List.replicate g.size (i : Int) ++ numbered (i + 1) gs

theorem length_numbered (i : Nat) (gs : List Graph) : (numbered i gs).length = (gs.map size).sum := by
  induction gs generalizing i with
  | nil => rfl
  | cons g gs ih => rw [numbered, List.length_append, List.length_replicate, ih, List.map_cons, List.sum_cons]

namespace BatchAux

/-- A run of equal numbers is counted to its end. -/
theorem runLengths_replicate (v : Int) (c j m : Nat) (rest : List Int) :
    runLengths v c j (List.replicate m v ++ rest) = runLengths v (c + m) (j + m) rest := by
  induction m generalizing c j with
  | zero => rfl
  | succ m ih =>
    rw [List.replicate_succ, List.cons_append, runLengths, if_pos rfl, ih, Nat.add_right_comm c, Nat.add_right_comm j]
    rfl

/-- A run ends where a later graph begins. -/
theorem runLengths_numbered {v : Int} (c j : Nat) {i : Nat} (hv : v < i) (gs : List Graph) :
    runLengths v c j (numbered i gs) = .ok (c :: gs.flatMap fun g => oneGraph g.size) := by
  induction gs generalizing v c j i with
  | nil => rfl
  | cons g gs ih =>
    rw [numbered, List.flatMap_cons, oneGraph]
    cases hsize : g.size with
    | zero => exact ih c j (by omega)
    | succ m =>
      rw [List.replicate_succ, List.cons_append, runLengths, if_neg (by omega), if_neg (by omega), runLengths_replicate,
        ih _ _ (by omega), if_neg (Nat.succ_ne_zero m), Nat.add_comm 1 m]
      rfl

end BatchAux

open BatchAux

/-- The sizes of the graphs, read off the graph index. -/
theorem segmentCounts_numbered (i : Nat) (gs : List Graph) :
    segmentCounts (numbered i gs) = .ok (gs.flatMap fun g => oneGraph g.size) := by
  induction gs generalizing i with
  | nil => rfl
  | cons g gs ih =>
    rw [numbered, List.flatMap_cons, oneGraph]
    cases hsize : g.size with
    | zero => exact ih (i + 1)
    | succ m =>
      rw [List.replicate_succ, List.cons_append, segmentCounts, runLengths_replicate, runLengths_numbered _ _ (by omega),
        if_neg (Nat.succ_ne_zero m), Nat.add_comm 1 m]
      rfl

/-! ## The batch -/

/-- The ends of edges in several graphs, shifted by the nodes of the graphs before. -/
def joinedEnds (ends : Graph → List Int) (gs : List Graph) : List Int :=
  shifted (gs.map fun g => (g.size, ends g))

/-- The input of several graphs, with labels for the edges of all of them. -/
def together (gs : List Graph) (w : Nat) (d : DType) (e : Option Tensor) : Input :=
  ⟨ofRows w d (gs.flatMap fun g => g.input.x.rowList), joinedEnds (fun g => g.input.sources) gs,
    joinedEnds (fun g => g.input.targets) gs, e, some (numbered 0 gs)⟩

/-- The edges of a batch are between its nodes. -/
theorem together_joined {gs : List Graph} {w : Nat} {d : DType} (hvalid : ∀ g ∈ gs, g.input.Joined g.size) (e : Option Tensor) :
    (together gs w d e).Joined (gs.map size).sum := by
  have hin : ∀ ends : Graph → List Int, (∀ g ∈ gs, ∀ i ∈ ends g, 0 ≤ i ∧ i < g.size) → ∀ i ∈ joinedEnds ends gs,
      0 ≤ i ∧ i < ((gs.map size).sum : Nat) := by
    intro ends hends i hi
    have hmem := mem_shifted (fun p hp => ?_) i hi
    · rwa [List.map_map] at hmem
    · obtain ⟨g, hg, rfl⟩ := List.mem_map.mp hp
      exact hends g hg
  refine ⟨?_, hin _ fun g hg => (hvalid g hg).sources, hin _ fun g hg => (hvalid g hg).targets⟩
  show (joinedEnds _ gs).length = (joinedEnds _ gs).length
  rw [joinedEnds, joinedEnds, length_shifted, length_shifted, List.map_map, List.map_map]
  exact congrArg List.sum (List.map_congr_left fun g hg => (hvalid g hg).length_eq)

namespace BatchAux

/-- The parts of some graphs put together, numbered from `i`, with `offset` nodes before theirs. -/
structure Joins (u : Union) (i : Nat) (offset : Int) (gs : List Graph) : Prop where
  xs : u.xs = gs.map fun g => g.input.x
  sources : u.edges.map Prod.fst = (joinedEnds (fun g => g.input.sources) gs).map fun j => j + offset
  targets : u.edges.map Prod.snd = (joinedEnds (fun g => g.input.targets) gs).map fun j => j + offset
  es : u.es = gs.flatMap fun g => g.e.toList
  index : u.index = numbered i gs

/-- A graph that goes with the others is put before them. -/
theorem unite_cons {labelled : Bool} {i : Nat} {offset : Int} {g : Graph} {gs : List Graph} (hvalid : g.validate = .ok g.input.x)
    (hlabelled : g.e.isSome = labelled) : unite labelled i offset (g :: gs) =
      (fun u => u.after i offset g g.input.x) <$> unite labelled (i + 1) (offset + g.input.x.rows) gs := by
  rw [unite, hvalid, hlabelled, bne_self_eq_false]
  rfl

/-- Graphs that go together are put together. -/
theorem unite_joins {labelled : Bool} {gs : List Graph}
    (h : ∀ g ∈ gs, g.validate = .ok g.input.x ∧ g.e.isSome = labelled ∧ 0 ≤ g.input.nodes) (i : Nat) (offset : Int) :
    ∃ u, unite labelled i offset gs = .ok u ∧ Joins u i offset gs := by
  induction gs generalizing i offset with
  | nil => exact ⟨{}, rfl, rfl, rfl, rfl, rfl, rfl⟩
  | cons g gs ih =>
    obtain ⟨hvalid, hlabelled, hnodes⟩ := h g List.mem_cons_self
    have hsize : (g.size : Int) = g.input.x.rows := Int.toNat_of_nonneg hnodes
    have hends : ∀ (ends : Graph → List Int), (joinedEnds ends (g :: gs)).map (fun j => j + offset) =
        (ends g).map (fun j => j + offset) ++ (joinedEnds ends gs).map fun j => j + (offset + g.input.x.rows) := by
      intro ends
      rw [joinedEnds, List.map_cons, shifted, List.map_append, List.map_map, joinedEnds]
      congr 1
      refine List.map_congr_left fun j _ => ?_
      rw [Function.comp_apply, hsize]
      omega
    obtain ⟨u, hu, hjoins⟩ := ih (fun g' hg' => h g' (List.mem_cons_of_mem _ hg')) (i + 1) (offset + g.input.x.rows)
    refine ⟨u.after i offset g g.input.x, by rw [unite_cons hvalid hlabelled, hu]; rfl, ?_, ?_, ?_, ?_, ?_⟩
    · exact congrArg _ hjoins.xs
    · rw [Union.after, List.map_append, hjoins.sources, hends, List.map_map, input, List.map_map]
      rfl
    · rw [Union.after, List.map_append, hjoins.targets, hends, List.map_map, input, List.map_map]
      rfl
    · exact congrArg _ hjoins.es
    · exact congrArg _ hjoins.index

/-- Graphs that are put together all have parts that go together, and all of them have edge labels or none has. -/
theorem unite_ok {labelled : Bool} {gs : List Graph} {i : Nat} {offset : Int} {u : Union} (h : unite labelled i offset gs = .ok u) :
    (∀ g ∈ gs, g.validate = .ok g.input.x ∧ g.e.isSome = labelled) ∧ (u.xs = gs.map fun g => g.input.x) ∧
      u.es = gs.flatMap fun g => g.e.toList := by
  induction gs generalizing i offset u with
  | nil =>
    obtain rfl := Except.ok.inj h
    exact ⟨List.forall_mem_nil _, rfl, rfl⟩
  | cons g gs ih =>
    obtain ⟨x, hx, hrest⟩ := bind_ok h
    have hvalid := validate_input (congrArg Except.isOk (inPlace_ok hx))
    by_cases hlabelled : g.e.isSome = labelled
    · rw [unite_cons hvalid hlabelled] at h
      obtain ⟨u, hu, rfl⟩ := map_ok h
      obtain ⟨hall, hxs, hes⟩ := ih hu
      exact ⟨List.forall_mem_cons.mpr ⟨⟨hvalid, hlabelled⟩, hall⟩, congrArg _ hxs, congrArg _ hes⟩
    · rw [if_pos (by simpa using hlabelled)] at hrest
      cases hrest

/-- The edge labels of graphs that all have them, or of which none has any. -/
theorem flatMap_edgeLabels {labelled : Bool} {gs : List Graph} (h : ∀ g ∈ gs, g.e.isSome = labelled) :
    (gs.flatMap fun g => g.e.toList) = if labelled then gs.map fun g => g.e.getD default else [] := by
  cases labelled with
  | false => exact List.flatMap_eq_nil_iff.mpr fun g hg => by simpa using h g hg
  | true =>
    rw [if_pos rfl, List.map_eq_flatMap]
    refine List.flatMap_congr fun g hg => ?_
    obtain ⟨e, he⟩ := Option.isSome_iff_exists.mp (h g hg)
    rw [he, Option.toList_some, Option.getD_some]

end BatchAux

/-! ### Graphs that go together -/

section

variable {gs : List Graph} {w : Int} {we : Option Int}

/-- The graphs of a batch go together: their labels are as wide as those of the batch. -/
theorem uniform_of_batch {input : Input} (h : batch gs = .ok input) : Uniform gs input.x.cols (input.e.map Tensor.cols) := by
  cases gs with
  | nil => cases h
  | cons g₀ gs =>
    obtain ⟨u, hu, h⟩ := bind_ok h
    obtain ⟨x, hx, h⟩ := bind_ok h
    obtain ⟨e, he, h⟩ := bind_ok h
    obtain rfl := Except.ok.inj h
    obtain ⟨hall, hxs, hes⟩ := unite_ok hu
    rw [hxs] at hx
    rw [hes] at he
    refine ⟨fun g hg => congrArg Except.isOk (hall g hg).1, fun g hg y hy => ?_, fun g hg => ?_⟩
    · rw [show y = g.input.x by rw [input, Option.mem_def.mp hy, Option.getD_some]]
      exact cols_of_stack (inPlace_ok hx) _ (List.mem_map_of_mem hg)
    · have hlabelled := (hall g hg).2
      cases hge : g.e with
      | none =>
        rw [hge] at hlabelled
        rw [flatMap_edgeLabels fun g' hg' => (hall g' hg').2, ← hlabelled] at he
        obtain rfl := Except.ok.inj he
        rfl
      | some t =>
        have hmem : t ∈ (g₀ :: gs).flatMap fun g => g.e.toList := List.mem_flatMap.mpr ⟨g, hg, Option.mem_toList.mpr hge⟩
        generalize ((g₀ :: gs).flatMap fun g => g.e.toList) = es at he hmem
        obtain ⟨t', es, rfl⟩ := List.exists_cons_of_ne_nil (List.ne_nil_of_mem hmem)
        obtain ⟨y, hy, rfl⟩ := map_ok (inPlace_ok he)
        exact congrArg some (cols_of_stack hy t hmem)

/-- The node labels of graphs that go together. -/
theorem Uniform.shaped (h : Uniform gs w we) (hformed : ∀ g ∈ gs, g.WellFormed) {g : Graph} (hg : g ∈ gs) :
    g.input.x.Shaped g.size w.toNat := by
  have hx := (validate_eq_ok.mp (validate_input (h.valid g hg))).1
  have hwell := (hformed g hg).nodes _ hx
  refine hwell.shaped ?_
  rw [h.nodes g hg _ hx, Int.toNat_of_nonneg]
  exact (h.nodes g hg _ hx) ▸ hwell.2.1

/-- The edges of graphs that go together. -/
theorem Uniform.joined (h : Uniform gs w we) (hformed : ∀ g ∈ gs, g.WellFormed) {g : Graph} (hg : g ∈ gs) :
    g.input.Joined g.size :=
  (h.shaped hformed hg).rows_eq ▸ (validate_eq_ok.mp (validate_input (h.valid g hg))).2.1

/-- The edge labels of graphs that go together. -/
theorem Uniform.edgeShaped {k : Int} (h : Uniform gs w (some k)) (hformed : ∀ g ∈ gs, g.WellFormed) {g : Graph} (hg : g ∈ gs) :
    ∃ e, g.e = some e ∧ e.Shaped g.edges.length k.toNat := by
  obtain ⟨e, he, rfl⟩ := Option.map_eq_some_iff.mp (h.edges g hg)
  have hwell := (hformed g hg).edges e he
  have hshaped := hwell.shaped (Int.toNat_of_nonneg hwell.2.1).symm
  rw [(validate_eq_ok.mp (validate_input (h.valid g hg))).2.2 e he, Int.toNat_natCast] at hshaped
  exact ⟨e, he, hshaped⟩

/-- The edge labels of graphs that go together, one for each graph. -/
theorem Uniform.edgeLabels {k : Int} (h : Uniform gs w (some k)) (hformed : ∀ g ∈ gs, g.WellFormed) {g : Graph} (hg : g ∈ gs) :
    g.e = some (g.e.getD default) ∧ (g.e.getD default).Shaped g.edges.length k.toNat := by
  obtain ⟨e, he, hshaped⟩ := h.edgeShaped hformed hg
  rw [he]
  exact ⟨rfl, hshaped⟩

/-- Without room for them there are no edge labels below each other. -/
theorem stackEdgeLabels_aborts {k : Int} (hne : gs ≠ []) (h : Uniform gs w (some k)) (hformed : ∀ g ∈ gs, g.WellFormed)
    (hfit : ¬ Storable (gs.map fun g => g.edges.length).sum k.toNat) :
    ∃ f, stackEdgeLabels (gs.flatMap fun g => g.e.toList) = .error f := by
  have hlabelled : ∀ g ∈ gs, g.e.isSome = true := fun g hg => by rw [(h.edgeLabels hformed hg).1]; rfl
  rw [flatMap_edgeLabels hlabelled, if_pos rfl]
  have hstack := stack_aborts hne (fun g hg => (h.edgeLabels hformed hg).2) (Nat.not_le.mp hfit)
  obtain ⟨g, gs, rfl⟩ := List.exists_cons_of_ne_nil hne
  refine ⟨.within "stack edge labels" .aborted, ?_⟩
  show inPlace "stack edge labels" (some <$> stack ((g :: gs).map fun g => g.e.getD default)) = _
  rw [hstack]
  rfl

/-- The edge labels of graphs that go together, below each other. -/
theorem stackEdgeLabels_uniform (hne : gs ≠ []) (h : Uniform gs w we) (hformed : ∀ g ∈ gs, g.WellFormed)
    (hstore : ∀ k ∈ we, Storable (gs.map fun g => g.edges.length).sum k.toNat) (hlist : Listable gs) :
    ∃ de, stackEdgeLabels (gs.flatMap fun g => g.e.toList) = .ok (we.map fun k => ofRows k.toNat de (gs.flatMap edgeRows)) ∧
      ∀ d, we.isSome = true → (∀ g ∈ gs, ∀ e ∈ g.e, e.dtype = d) → de = d := by
  have hlabelled : ∀ g ∈ gs, g.e.isSome = we.isSome := fun g hg => by rw [← h.edges g hg, Option.isSome_map]
  rw [flatMap_edgeLabels hlabelled]
  cases we with
  | none => exact ⟨.bool, rfl, nofun⟩
  | some k =>
    have hlabels := fun g hg => h.edgeLabels hformed (g := g) hg
    obtain ⟨de, hstack, hdtype⟩ := stack_shaped hne (fun g hg => (hlabels g hg).2) (hstore k rfl) hlist.edges
    have hrows : (gs.flatMap fun g => (g.e.getD default).rowList) = gs.flatMap edgeRows := by
      refine List.flatMap_congr fun g hg => ?_
      rw [edgeRows, (hlabels g hg).1, Option.map_some, Option.getD_some, Option.getD_some]
    refine ⟨de, ?_, fun d _ hd => hdtype d fun g hg => hd g hg _ (hlabels g hg).1⟩
    obtain ⟨g, gs, rfl⟩ := List.exists_cons_of_ne_nil hne
    rw [← hrows]
    show inPlace "stack edge labels" (some <$> stack ((g :: gs).map fun g => g.e.getD default)) = _
    rw [hstack]
    rfl

/-- Without room for their labels graphs make no batch. -/
theorem batch_without_room (h : Uniform gs w we) (hformed : ∀ g ∈ gs, g.WellFormed) (hroom : ¬ RoomFor gs w we) :
    ∃ f, batch gs = .error f := by
  cases hbatch : batch gs with
  | error f => exact ⟨f, rfl⟩
  | ok input =>
    refine absurd ?_ hroom
    cases gs with
    | nil => cases hbatch
    | cons g₀ gs =>
      obtain ⟨u, hu, hbatch⟩ := bind_ok hbatch
      obtain ⟨x, hx, hbatch⟩ := bind_ok hbatch
      obtain ⟨e, he, -⟩ := bind_ok hbatch
      obtain ⟨hall, hxs, hes⟩ := unite_ok hu
      rw [hxs] at hx
      rw [hes] at he
      refine ⟨by_contra fun hfit => ?_, fun k hk => by_contra fun hfit => ?_⟩
      · rw [stack_aborts (List.cons_ne_nil g₀ gs) (fun g hg => h.shaped hformed hg) (Nat.not_le.mp hfit)] at hx
        cases hx
      · obtain rfl := Option.mem_def.mp hk
        obtain ⟨f, hf⟩ := stackEdgeLabels_aborts (List.cons_ne_nil g₀ gs) h hformed hfit
        cases hf.symm.trans he

/-- Graphs that go together, as a batch. Their labels need not be of one domain; if they are, those of the batch are of that
domain. -/
theorem batch_uniform (hne : gs ≠ []) (h : Uniform gs w we) (hformed : ∀ g ∈ gs, g.WellFormed) (hroom : RoomFor gs w we)
    (hlist : Listable gs) :
    ∃ d de, batch gs = .ok (together gs w.toNat d (we.map fun k => ofRows k.toNat de (gs.flatMap edgeRows))) ∧
      (∀ d', (∀ g ∈ gs, g.input.x.dtype = d') → d = d') ∧
      ∀ d', we.isSome = true → (∀ g ∈ gs, ∀ e ∈ g.e, e.dtype = d') → de = d' := by
  have hall : ∀ g ∈ gs, g.validate = .ok g.input.x ∧ g.e.isSome = we.isSome ∧ 0 ≤ g.input.nodes := by
    refine fun g hg => ⟨validate_input (h.valid g hg), ?_, ?_⟩
    · rw [← h.edges g hg, Option.isSome_map]
    · rw [Input.nodes, (h.shaped hformed hg).rows_eq]
      exact Int.natCast_nonneg _
  obtain ⟨u, hu, hjoins⟩ := BatchAux.unite_joins hall 0 0
  obtain ⟨d, hstack, hd⟩ := stack_shaped hne (fun g hg => h.shaped hformed hg) hroom.nodes hlist.nodes
  obtain ⟨de, hlabels, hde⟩ := stackEdgeLabels_uniform hne h hformed hroom.edges hlist
  refine ⟨d, de, ?_, hd, hde⟩
  have hends : ∀ ends : Graph → List Int, ((joinedEnds ends gs).map fun j => j + 0) = joinedEnds ends gs := by simp
  obtain ⟨g, gs, rfl⟩ := List.exists_cons_of_ne_nil hne
  rw [batch, (hall g List.mem_cons_self).2.1, hu]
  show (inPlace "stack node labels" (stack u.xs) >>= fun x => stackEdgeLabels u.es >>= fun e => _) = _
  rw [hjoins.xs, hstack, hjoins.es, hlabels, hjoins.sources, hjoins.targets, hjoins.index, hends, hends]
  rfl

end

/-! ### Graphs with labels of one domain -/

section

variable {gs : List Graph} {labelled : Bool} {w we : Nat} {d de : DType}

/-- The node labels of graphs that are alike. -/
theorem Alike.hasRows (h : Alike gs labelled w we d de) {g : Graph} (hg : g ∈ gs) (hvalid : g.validate = .ok g.input.x) :
    g.input.x.HasRows g.size w d g.input.x.rowList := by
  obtain ⟨hproper, hcols, rfl⟩ := h.nodes g hg _ (validate_eq_ok.mp hvalid).1
  exact hproper.hasRows hcols

/-- The edge labels of graphs that are alike. -/
theorem Alike.hasEdgeRows (h : Alike gs labelled w we d de) {g : Graph} (hg : g ∈ gs) (hvalid : g.validate = .ok g.input.x) :
    HasEdgeRows labelled g.edges.length we de g.edgeRows g.e := by
  rw [HasEdgeRows, ← h.labelled_eq g hg, edgeRows]
  have hrows := (validate_eq_ok.mp hvalid).2.2
  have halike := h.edges g hg
  cases he : g.e with
  | none => rfl
  | some e =>
    obtain ⟨hproper, hcols, rfl⟩ := halike e he
    have hhas := hproper.hasRows hcols
    rw [hrows e he, Int.toNat_natCast] at hhas
    exact ⟨e, rfl, hhas⟩

/-- Graphs that are alike go together. -/
theorem Alike.uniform (h : Alike gs labelled w we d de) (hvalid : ∀ g ∈ gs, g.validate = .ok g.input.x) :
    Uniform gs w (if labelled then some (we : Int) else none) := by
  refine ⟨fun g hg => congrArg Except.isOk (hvalid g hg), fun g hg x hx => (h.nodes g hg x hx).2.1, fun g hg => ?_⟩
  rw [← h.labelled_eq g hg]
  cases he : g.e with
  | none => rfl
  | some e => exact congrArg some (h.edges g hg e he).2.1

theorem Alike.wellFormed (h : Alike gs labelled w we d de) {g : Graph} (hg : g ∈ gs) : g.WellFormed :=
  ⟨fun x hx => (h.nodes g hg x hx).1.1, fun e he => (h.edges g hg e he).1.1⟩

/-- Graphs that are alike, as a batch. -/
theorem batch_eq (hne : gs ≠ []) (h : Alike gs labelled w we d de) (hvalid : ∀ g ∈ gs, g.validate = .ok g.input.x)
    (hstore : Storable (gs.map size).sum w) (hstore' : labelled = true → Storable (gs.map fun g => g.edges.length).sum we)
    (hlist : Listable gs) : ∃ e, batch gs = .ok (together gs w d e) ∧
      HasEdgeRows labelled (gs.map fun g => g.edges.length).sum we de (gs.flatMap edgeRows) e := by
  have hroom : RoomFor gs w (if labelled then some (we : Int) else none) := by
    refine ⟨hstore, ?_⟩
    cases labelled with
    | false => exact nofun
    | true => exact fun k hk => Option.some.inj hk ▸ hstore' rfl
  obtain ⟨d', de', hbatch, hd, hde⟩ := batch_uniform hne (h.uniform hvalid) (fun g hg => h.wellFormed hg) hroom hlist
  rw [hd d fun g hg => (h.nodes g hg _ (validate_eq_ok.mp (hvalid g hg)).1).2.2] at hbatch
  refine ⟨_, hbatch, ?_⟩
  cases labelled with
  | false => rfl
  | true =>
    have hlabels : ∀ g ∈ gs, (g.e.getD default).HasRows g.edges.length we de g.edgeRows := by
      intro g hg
      obtain ⟨e, he, hhas⟩ := h.hasEdgeRows hg (hvalid g hg)
      rwa [he, Option.getD_some]
    refine ⟨_, rfl, ?_⟩
    rw [hde de rfl fun g hg e he => (h.edges g hg e he).2.2]
    exact hasRows_flatMap hlabels

end

end Graph

end ModalGraph
