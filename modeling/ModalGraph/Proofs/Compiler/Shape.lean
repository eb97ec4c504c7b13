import ModalGraph.Proofs.Compiler.History

/-!
# The shape of a model compiled after other formulas

The key of a fixpoint says what its body is but not which operand it stands on, although its node reads from both. So a fixpoint that
comes up again keeps the operand of the first formula that it came up in, and a model may take along nodes that its formula does not
mention (`shape_depends_on_history`). This is the only way in which earlier calls have an influence on the shape of a model: as long
as a fixpoint came up on the operand that it stands on in the formula at hand, the model has the layers, the number of nodes and the
keys that a new compiler gives (`shape_independent_of_history`).
-/

namespace ModalGraph

open Formula

namespace Term

/-- The terms that a term is applied to. That of a fixpoint is not part of it. -/
def operands : Term → List Term
  | .psi _ _ t => [t]
  | .concat ts => ts
  | .diamond _ _ _ t => [t]
  | .input => []
  | .var .. => []
  | .fix .. => []

/-- The body of a fixpoint. -/
def body? : Term → Option Term
  | .fix _ _ _ t => some t
  | _ => none

end Term

namespace Compiler

/-- The terms of the entries of some numbers. -/
def named (es : List Entry) (ids : List Nat) : List Term :=
  ids.filterMap fun i => es[i]?.map Entry.term

theorem mem_named {es : List Entry} {ids : List Nat} {t : Term} :
    t ∈ named es ids ↔ ∃ i ∈ ids, ∃ m, es[i]? = some m ∧ m.term = t := by
  simp only [named, List.mem_filterMap, Option.map_eq_some_iff]

theorem named_append (es : List Entry) (ids ids' : List Nat) : named es (ids ++ ids') = named es ids ++ named es ids' :=
  List.filterMap_append ..

section

variable {ops : Registries} {settings : Settings} {es es' : List Entry}

/-- The numbers of listed entries name their terms. -/
theorem Ledger.named_ids (h : Ledger ops settings es) {ms : List Entry} (hms : ∀ m ∈ ms, m ∈ es) :
    named es (ms.map fun m => m.node.id) = ms.map Entry.term := by
  have hterm : ∀ m ∈ ms, es[m.node.id]?.map Entry.term = some m.term := fun m hm => by rw [h.getElem?_id (hms m hm)]; rfl
  rw [named, List.filterMap_map]
  exact (List.filterMap_congr hterm).trans (congrFun List.filterMap_eq_map' ms)

theorem Ledger.named_id (h : Ledger ops settings es) {m : Entry} (hm : m ∈ es) : named es [m.node.id] = [m.term] := by
  have hids : named es ([m].map fun m => m.node.id) = [m].map Entry.term :=
    h.named_ids fun x hx => List.mem_singleton.mp hx ▸ hm
  exact hids

/-- A node reads from the nodes of the terms that its term is applied to, unless it is a fixpoint, and from the node of its body. -/
theorem Made.named {t : Term} {n : Node} (hmade : Made ops settings es t n) (h : Ledger ops settings es') (hsub : es ⊆ es') :
    (t.isFix = false → Compiler.named es' n.inputs = t.operands) ∧ Compiler.named es' n.body.toList = t.body?.toList := by
  cases hmade with
  | psi hm hn =>
    obtain ⟨psi, _, _, hin, _, hbody, _⟩ := atomNode_ok hn
    rw [hin, hbody]
    exact ⟨fun _ => h.named_id (hsub hm), rfl⟩
  | @concat ms hms =>
    refine ⟨fun _ => ?_, rfl⟩
    show Compiler.named es' ((ms.map Entry.node).map Node.id) = ms.map Entry.term
    rw [List.map_map]
    exact h.named_ids fun m hm => hsub (hms m hm)
  | diamond hm _ hn =>
    obtain ⟨phi, sigma, _, _, _, hin, _, _, hbody, _⟩ := diamondNode_ok hn
    rw [hin, hbody]
    exact ⟨fun _ => h.named_id (hsub hm), rfl⟩
  | var => exact ⟨fun _ => rfl, rfl⟩
  | fix _ hbody => exact ⟨nofun, h.named_id (hsub hbody)⟩

theorem Ledger.named_node (h : Ledger ops settings es) {m : Entry} (hm : m ∈ es) :
    (m.term.isFix = false → named es m.node.inputs = m.term.operands) ∧ named es m.node.body.toList = m.term.body?.toList := by
  rcases h.made (h.getElem?_id hm) with rfl | ⟨n, hmade, hnode⟩
  · exact ⟨fun _ => rfl, rfl⟩
  · rw [hnode]
    exact hmade.named h (List.take_subset _ _)

theorem Entry.StandsOn.named {m : Entry} {operand : Term} (hm : m.StandsOn es operand) (h : Ledger ops settings es)
    (hfix : m.term.isFix = true) : named es m.node.inputs = [operand] := by
  obtain ⟨o, ho, rfl, hin⟩ := hm hfix
  rw [hin]
  exact h.named_id ho

/-! ## Ledgers that go side by side -/

/-- Ledgers in which the nodes of one term name nodes of the same terms. -/
def Parallel (next : Node → List Nat) (es es' : List Entry) : Prop :=
  ∀ m ∈ es, ∀ m' ∈ es', m.term = m'.term → named es (next m.node) = named es' (next m'.node)

theorem Parallel.symm {next : Node → List Nat} (hp : Parallel next es es') : Parallel next es' es :=
  fun m hm m' hm' hterm => (hp m' hm' m hm hterm.symm).symm

/-- Ledgers whose nodes read their labels from nodes of the same terms are parallel altogether. -/
theorem Parallel.deps (hp : Parallel Node.inputs es es') (h : Ledger ops settings es) (h' : Ledger ops settings es') :
    Parallel Node.deps es es' := by
  intro m hm m' hm' hterm
  rw [Node.deps, Node.deps, named_append, named_append, hp m hm m' hm' hterm, (h.named_node hm).2, (h'.named_node hm').2, hterm]

/-- The numbers of the nodes of one term. -/
def Twin (es es' : List Entry) (i j : Nat) : Prop :=
  ∃ m m', es[i]? = some m ∧ es'[j]? = some m' ∧ m.term = m'.term

theorem Parallel.follows {next : Node → List Nat} (hp : Parallel next es es') (h : Ledger ops settings es)
    (h' : Ledger ops settings es') (hnext : ∀ n, next n ⊆ n.deps) : (table es).Follows (table es') next (Twin es es') := by
  refine ⟨?_, ?_⟩
  · rintro i j ⟨m, m', hm, hm', hterm⟩
    refine ⟨m.node, m'.node, by rw [table, hm]; rfl, by rw [table, hm']; rfl, ?_⟩
    rw [(h.key m (List.mem_of_getElem? hm)).1, (h'.key m' (List.mem_of_getElem? hm')).1, hterm]
  · rintro i j n n' ⟨m, m', hm, hm', hterm⟩ hn hn' d hd
    rw [table, hm] at hn
    rw [table, hm'] at hn'
    obtain rfl := Option.some.inj hn
    obtain rfl := Option.some.inj hn'
    obtain ⟨-, o, ho, rfl⟩ := h.deps_lt hm d (hnext _ hd)
    have hmem : o.term ∈ named es (next m.node) := mem_named.mpr ⟨_, hd, o, h.getElem?_id ho, rfl⟩
    rw [hp m (List.mem_of_getElem? hm) m' (List.mem_of_getElem? hm') hterm] at hmem
    obtain ⟨d', hd', o', ho', hoterm⟩ := mem_named.mp hmem
    exact ⟨d', hd', o, o', h.getElem?_id ho, ho', hoterm.symm⟩

/-! ## Models -/

theorem Ledger.keyed (h : Ledger ops settings es) : (table es).Keyed := by
  intro i j n n' hn hn' hkey
  obtain ⟨m, hm, rfl⟩ := Option.map_eq_some_iff.mp hn
  obtain ⟨m', hm', rfl⟩ := Option.map_eq_some_iff.mp hn'
  obtain rfl := h.unique (List.mem_of_getElem? hm) (List.mem_of_getElem? hm') hkey
  exact (h.id hm).symm.trans (h.id hm')

/-- No input is made. -/
theorem Made.kind_ne_input {t : Term} {n : Node} (hmade : Made ops settings es t n) : t ≠ .input ∧ n.kind ≠ .input := by
  cases hmade with
  | psi _ hn =>
    obtain ⟨_, _, hkind, _⟩ := atomNode_ok hn
    exact ⟨nofun, hkind ▸ nofun⟩
  | diamond _ _ hn =>
    obtain ⟨_, _, _, _, hkind, _⟩ := diamondNode_ok hn
    exact ⟨nofun, hkind ▸ nofun⟩
  | concat => exact ⟨nofun, nofun⟩
  | var => exact ⟨nofun, nofun⟩
  | fix => exact ⟨nofun, nofun⟩

/-- A listed node is the input exactly if it has the key of the input. -/
theorem Ledger.kind_input (h : Ledger ops settings es) {m : Entry} (hm : m ∈ es) :
    (m.node.kind != .input) = (m.node.key != Store.inputKey) := by
  obtain ⟨hkey, hclean⟩ := h.key m hm
  rcases h.made (h.getElem?_id hm) with rfl | ⟨n, hmade, hnode⟩
  · rfl
  · obtain ⟨hterm, hkind⟩ := hmade.kind_ne_input
    have hne : m.node.key ≠ Store.inputKey := fun heq =>
      hterm (Term.key_injective (t := m.term) (u := .input) hclean trivial (hkey.symm.trans heq))
    rw [bne_iff_ne.mpr hne, hnode]
    exact bne_iff_ne.mpr hkind

/-- Layers, counted by key. -/
theorem Ledger.layers_eq (h : Ledger ops settings es) {m : Model} (hm : m.Holds (table es)) :
    m.layers = m.spec.inputs +
      ((reached m.node? Node.inputs m.nodes.length m.output).map Node.key).countP fun k => k != Store.inputKey := by
  have hord := hm.ordered h.ordered Node.inputs_subset
  rw [Model.layers, List.countP_map]
  congr 1
  refine List.countP_congr fun n hn => ?_
  obtain ⟨hnode, -⟩ := (mem_reached hord (m.rank_le _) hm.output_some).mp hn
  obtain ⟨e, he, rfl⟩ := Option.map_eq_some_iff.mp (hm.table_eq hnode)
  rw [h.kind_input (List.mem_of_getElem? he)]
  rfl

/-- Models with the same number of layers, the same number of nodes and the same keys. -/
def SameShape (m m' : Model) : Prop :=
  m.layers = m'.layers ∧ m.nodes.length = m'.nodes.length ∧ ∀ k, k ∈ m.nodes.map Node.key ↔ k ∈ m'.nodes.map Node.key

/-- Models of one term have the same shape, if the ledgers are parallel. -/
theorem IsModel.sameShape {formula formula' : Bytes} {m m' : Model} {t : Term} (hm : IsModel settings formula es m t)
    (h : Ledger ops settings es) (hm' : IsModel settings formula' es' m' t) (h' : Ledger ops settings es')
    (hp : Parallel Node.inputs es es') : SameShape m m' := by
  obtain ⟨hholds, out, hid, hterm⟩ := hm.holds h
  obtain ⟨hholds', out', hid', hterm'⟩ := hm'.holds h'
  have htwin : Twin es es' m.output m'.output := ⟨out, out', hid, hid', hterm.trans hterm'.symm⟩
  have htwin' : Twin es' es m'.output m.output := ⟨out', out, hid', hid, hterm'.trans hterm.symm⟩
  -- All nodes are reached in the ledgers, which the models are taken from.
  have hdeps := hp.deps h h'
  have hfollows := hdeps.follows h h' fun n => List.Subset.refl _
  have hfollows' := hdeps.symm.follows h' h fun n => List.Subset.refl _
  have hnodes := reached_keys_perm h.ordered h'.ordered h.keyed h'.keyed hfollows hfollows' htwin htwin'
    (List.getElem?_eq_some_iff.mp hid).1.le (List.getElem?_eq_some_iff.mp hid').1.le
  -- Layers are counted in the models themselves.
  have hord := hholds.ordered h.ordered Node.inputs_subset
  have hord' := hholds'.ordered h'.ordered Node.inputs_subset
  have hlinks := hholds.follows hholds' Node.inputs_subset (hp.follows h h' Node.inputs_subset)
  have hlinks' := hholds'.follows hholds Node.inputs_subset (hp.symm.follows h' h Node.inputs_subset)
  have hlayers := reached_keys_perm hord hord' (hholds.keyed h.keyed) (hholds'.keyed h'.keyed) hlinks hlinks'
    ⟨htwin, hholds.output_some, hholds'.output_some⟩ ⟨htwin', hholds'.output_some, hholds.output_some⟩ (m.rank_le _) (m'.rank_le _)
  have hlayers' : m.layers = m'.layers := by
    rw [h.layers_eq hholds, h'.layers_eq hholds', hlayers.countP_eq, hm.spec_eq, hm'.spec_eq]
  rw [← hm.nodes_eq, ← hm'.nodes_eq] at hnodes
  exact ⟨hlayers', by simpa using hnodes.length_eq, fun k => hnodes.mem_iff⟩

end

/-! ## Calls after other calls -/

/-- The fixpoints of a formula that have come up in earlier calls came up there first on the operand that they first stand on in the
formula. -/
def Compilation.KeepsOperands (ops : Registries) (settings : Settings) (call : Compilation) (earlier : List Compilation) : Prop :=
  ∀ u v, u.term = v.term → v.term.isFix = true → IsFirst (visits ops settings earlier) u →
    IsFirst (call.plan ops settings).visits v → u.operand = v.operand

section

variable {ops : Registries} {settings : Settings}

/-- The ledgers of a call on a new compiler and after earlier calls are parallel, if the fixpoints of the formula keep their
operands. -/
theorem Compilation.KeepsOperands.parallel {call : Compilation} {earlier : List Compilation}
    (hkeep : call.KeepsOperands ops settings earlier) {es es' : List Entry}
    (h : Recorded ops settings [⟨Store.inputNode settings.input, .input⟩] (call.plan ops settings).visits es)
    (h' : Recorded ops settings [⟨Store.inputNode settings.input, .input⟩]
      (visits ops settings earlier ++ (call.plan ops settings).visits) es') : Parallel Node.inputs es es' := by
  intro m hm m' hm' hterm
  cases hfix : m.term.isFix with
  | false => rw [(h.ledger.named_node hm).1 hfix, (h'.ledger.named_node hm').1 (hterm ▸ hfix), hterm]
  | true =>
    have hfix' : m'.term.isFix = true := hterm ▸ hfix
    have hnew : ∀ e ∈ ([⟨Store.inputNode settings.input, .input⟩] : List Entry), e.term.isFix = false := fun e he => by
      rw [List.mem_singleton.mp he]
      rfl
    obtain ⟨v, hfirst, hv, hstands⟩ := (h.added m hm).resolve_left fun hin => by simp [hnew m hin] at hfix
    obtain ⟨u, hfirst', hu, hstands'⟩ := (h'.added m' hm').resolve_left fun hin => by simp [hnew m' hin] at hfix'
    have huv : u.term = v.term := hu.trans (hterm.symm.trans hv.symm)
    rw [hstands.named h.ledger hfix, hstands'.named h'.ledger hfix']
    rcases isFirst_append.mp hfirst' with hearlier | ⟨-, hhere⟩
    · rw [hkeep u v huv (hv.symm ▸ hfix) hearlier hfirst]
    · rw [hhere.unique hfirst huv]

end

end Compiler

open Compiler

/-- A formula whose fixpoints came up before only on the operands that they stand on in it is compiled to a model of the shape that a
new compiler gives: the same layers, as many nodes, and the same keys. -/
theorem shape_independent_of_history {ops : Registries} {settings : Settings} {c₀ : Compiler}
    (h₀ : Compiler.new ops settings = .ok c₀) (earlier : List Compilation) (call : Compilation)
    (hkeep : call.KeepsOperands ops settings earlier) :
    Matched SameShape (call.on c₀).result (call.on (c₀.after earlier)).result := by
  have hlist₀ := listed_new h₀
  obtain ⟨es, hlist, hrec⟩ := hlist₀.after earlier
  obtain ⟨es₁, formula₁, hlist₁, hrec₁, hmatch₁⟩ := hlist₀.call call
  obtain ⟨es₂, formula₂, hlist₂, hrec₂, hmatch₂⟩ := hlist.call call
  have hparallel := hkeep.parallel hrec₁ (hrec.trans hrec₂)
  refine (hmatch₁.trans hmatch₂.symm).imp ?_
  rintro m₁ m₂ ⟨t, hm₁, hm₂⟩
  exact hm₁.sameShape hlist₁.ledger hm₂ hlist₂.ledger hparallel

namespace Sample

/-- The labels that `a` gives on the input. -/
def onInput : Term :=
  .psi (Bytes.ofString "a") none .input

/-- The fixpoint `mu X,b.(X)`. -/
def fixpoint : Term :=
  .fix true 0 (Bytes.ofString "b") (.var 0 (Bytes.ofString "b"))

/-- The formula `a;mu X,b.(X)` comes to `a` and then, on its labels, to the variable and the fixpoint. -/
def fixpointVisits : List Visit :=
  [⟨onInput, .input, []⟩, ⟨.var 0 (Bytes.ofString "b"), onInput, [(Bytes.ofString "X", Bytes.ofString "b")]⟩, ⟨fixpoint, onInput, []⟩]

/-- The formula `a;mu X,b.(X)`, parsed. -/
def fixpointExpr : Expr :=
  .seq Position.start (.atom Position.start (Bytes.ofString "a") none)
    (.fix ⟨2, 1, 3⟩ true (Bytes.ofString "X") (Bytes.ofString "b") (.var ⟨10, 1, 11⟩ (Bytes.ofString "X")))

/-- It is parsed alone as in a longer text, and the other text is that of two operators. -/
theorem calls_parsed : parse (call "a;mu X,b.(X)").text = .ok fixpointExpr ∧
    parse (call "a;mu X,b.(X);not").text =
      .ok (.seq Position.start fixpointExpr (.atom ⟨13, 1, 14⟩ (Bytes.ofString "not") none)) ∧
    parse (call "b;nope").text =
      .ok (.seq Position.start (.atom Position.start (Bytes.ofString "b") none) (.atom ⟨2, 1, 3⟩ (Bytes.ofString "nope") none)) :=
  ⟨parse_of_same (by decide +kernel), parse_of_same (by decide +kernel), parse_of_same (by decide +kernel)⟩

theorem visits_calls : visits Builtin.registries twoBases calls =
    fixpointVisits ++ [⟨.psi (Bytes.ofString "b") none .input, .input, []⟩] := by
  obtain ⟨hfix, -, hnope⟩ := calls_parsed
  simp only [visits, calls, List.flatMap_cons, List.flatMap_nil, Compilation.plan, hfix, hnope]
  rfl

theorem visits_again : ((call "a;mu X,b.(X);not").plan Builtin.registries twoBases).visits =
    fixpointVisits ++ [⟨.psi (Bytes.ofString "not") none fixpoint, fixpoint, []⟩] := by
  rw [Compilation.plan, calls_parsed.2.1]
  rfl

/-- The fixpoint comes up on the labels of `a` again. -/
theorem keepsOperands : (call "a;mu X,b.(X);not").KeepsOperands Builtin.registries twoBases calls := by
  intro u v hterm hfix hfirst hfirst'
  rw [visits_calls, isFirst_append] at hfirst
  rw [visits_again, isFirst_append] at hfirst'
  rcases hfirst with hfirst | ⟨-, rfl | ⟨-, hfirst⟩⟩
  · rcases hfirst' with hfirst' | ⟨-, rfl | ⟨-, hfirst'⟩⟩
    · rw [hfirst.unique hfirst' hterm]
    · cases hfix
    · exact hfirst'.elim
  · rw [← hterm] at hfix
    cases hfix
  · exact hfirst.elim

end Sample

/-- The formula `a;mu X,b.(X);not` has the same shape after `a;mu X,b.(X)`. -/
theorem shape_independent_of_history_sample :
    (Sample.call "a;mu X,b.(X);not").KeepsOperands Builtin.registries Sample.twoBases Sample.calls ∧
      ∃ m₀ m, ((Sample.call "a;mu X,b.(X);not").on Sample.newCompiler).result = .ok m₀ ∧
        ((Sample.call "a;mu X,b.(X);not").on (Sample.newCompiler.after Sample.calls)).result = .ok m ∧ SameShape m₀ m := by
  have hmatch := shape_independent_of_history Sample.newCompiler_new Sample.calls (Sample.call "a;mu X,b.(X);not")
    Sample.keepsOperands
  obtain ⟨m₀, hm₀⟩ : ∃ m₀, ((Sample.call "a;mu X,b.(X);not").on Sample.newCompiler).result = .ok m₀ :=
    exists_of_isOk (by decide +kernel)
  rw [hm₀] at hmatch
  obtain ⟨m, hm, hsame⟩ := hmatch.of_ok
  exact ⟨Sample.keepsOperands, m₀, m, hm₀, hm, hsame⟩

/-- After `a;mu X,b.(X)` the model of `mu X,b.(X)` takes along the node of `a`, which a new compiler does not make: it has a layer and
a node more. -/
theorem shape_depends_on_history :
    ∃ m₀ m, ((Sample.call "mu X,b.(X)").on Sample.newCompiler).result = .ok m₀ ∧
      ((Sample.call "mu X,b.(X)").on (Sample.newCompiler.after [Sample.call "a;mu X,b.(X)"])).result = .ok m ∧
      m₀.layers = 3 ∧ m.layers = 4 ∧ m₀.nodes.length = 3 ∧ m.nodes.length = 4 ∧
      Sample.onInput.key ∉ m₀.nodes.map Node.key ∧ Sample.onInput.key ∈ m.nodes.map Node.key := by
  obtain ⟨m₀, hm₀⟩ : ∃ m₀, ((Sample.call "mu X,b.(X)").on Sample.newCompiler).result = .ok m₀ :=
    exists_of_isOk (by decide +kernel)
  obtain ⟨m, hm⟩ : ∃ m, ((Sample.call "mu X,b.(X)").on (Sample.newCompiler.after [Sample.call "a;mu X,b.(X)"])).result = .ok m :=
    exists_of_isOk (by decide +kernel)
  have hrun : (((Sample.call "mu X,b.(X)").on Sample.newCompiler).result.toOption.bind fun m₀ =>
      ((Sample.call "mu X,b.(X)").on (Sample.newCompiler.after [Sample.call "a;mu X,b.(X)"])).result.toOption.map fun m =>
        decide (m₀.layers = 3 ∧ m.layers = 4 ∧ m₀.nodes.length = 3 ∧ m.nodes.length = 4 ∧
          Sample.onInput.key ∉ m₀.nodes.map Node.key ∧ Sample.onInput.key ∈ m.nodes.map Node.key)) = some true := by
    decide +kernel
  rw [hm₀, hm] at hrun
  exact ⟨m₀, m, hm₀, hm, of_decide_eq_true (Option.some.inj hrun)⟩

end ModalGraph
