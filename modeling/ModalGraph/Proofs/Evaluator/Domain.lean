import ModalGraph.Proofs.Compiler.History
import ModalGraph.Proofs.Evaluator.Refinement
import ModalGraph.Proofs.Operator.Domain

/-!
# The domain of a result

The labels that a formula gives are of a domain that the formula may give on the domains of its input (`meaning_yields`). Equality of
assignments leaves their domains out, so a fixpoint ends at the labels of its base or at labels that its body gives, depending on the
labels of the input, and with these the domain of its result may change (`domain_depends_on_labels`). The domain is the same for all
inputs of the same domains where the formula can give one only (`evaluate_same_domain`).
-/

namespace ModalGraph

open Formula

namespace DomainAux

/-- The domain of labels put together. -/
theorem dtype_concat {ts : List Tensor} {y : Tensor} (h : Tensor.concat ts = .ok y) :
    ∃ t rest, ts = t :: rest ∧ y.dtype = t.dtype.join (rest.map Tensor.dtype) := by
  unfold Tensor.concat at h
  split at h
  · cases h
  · rename_i t rest
    refine ⟨t, rest, rfl, ?_⟩
    split at h
    · cases h
    · dsimp only at h
      split at h
      · cases h
      · split at h
        · rw [← Except.ok.inj h]
        · split at h
          · rw [← Except.ok.inj h]
            rfl
          · cases h

end DomainAux

open DomainAux

/-! ## Operators in a scene -/

section

variable {s : Scene} {x y : Tensor}

theorem Scene.dtype_atom (hops : s.ops = Builtin.registries) {name : Bytes} {arg : Argument} (h : s.atom name arg x = .ok y) :
    y.dtype = psiDomain name arg x.dtype := by
  obtain ⟨psi, hpsi, h⟩ := bind_ok h
  obtain ⟨out, hout, h⟩ := bind_ok h
  obtain rfl := Scene.rowPerNode_eq h
  rw [hops] at hpsi
  split at hout
  · exact (psi_gives hpsi).multiple hout
  · exact (psi_gives hpsi).single hout

theorem Scene.dtype_messages (hops : s.ops = Builtin.registries) {edge : DType} (hedge : ∀ t, s.input.e = some t → t.dtype = edge)
    {direction : Direction} {phi : Option Bytes} (h : s.messages direction phi x = .ok y) : y.dtype = phiDomain edge x.dtype phi := by
  obtain ⟨labels, hlabels, h⟩ := bind_ok h
  cases phi with
  | none =>
    obtain rfl := Except.ok.inj h
    exact dtype_gather hlabels
  | some key =>
    obtain ⟨op, hop, h⟩ := bind_ok h
    obtain ⟨targets, htargets, h⟩ := bind_ok h
    obtain ⟨out, hout, h⟩ := bind_ok h
    have hlabelled : ∀ t, s.edgeLabels = some t → t.dtype = edge := by
      intro t ht
      rw [Scene.edgeLabels] at ht
      split at ht
      · exact hedge t ht
      · cases ht
    cases out with
    | none => cases h
    | some m =>
      rw [Scene.messagePerEdge] at h
      split at h
      · obtain rfl := Except.ok.inj h
        rw [hops] at hop
        exact phi_gives hop (dtype_gather hlabels) (dtype_gather htargets) hlabelled hout
      · cases h

theorem Scene.dtype_diamond (hops : s.ops = Builtin.registries) {edge : DType} (hedge : ∀ t, s.input.e = some t → t.dtype = edge)
    {direction : Direction} {phi : Option Bytes} {sigma : Bytes} (h : s.diamond direction phi sigma x = .ok y) :
    y.dtype = sigmaDomain sigma (phiDomain edge x.dtype phi) := by
  obtain ⟨op, hop, h⟩ := bind_ok h
  obtain ⟨m, hm, h⟩ := bind_ok h
  obtain ⟨out, hout, h⟩ := bind_ok h
  obtain rfl := Scene.rowPerNode_eq h
  rw [hops] at hop
  rw [sigma_gives hop hout, Scene.dtype_messages hops hedge hm]

end

/-! ## Formulas -/

mutual

/-- A formula in which everything can be resolved may give some domain. -/
theorem exists_yields {ops : Registries} {settings : Settings} (edge : DType) : ∀ (e : Expr) {ρ : List (Bytes × DType)} (d : DType),
    e.WellFormed (ρ.map Prod.fst) → e.Accepted ops settings → ∃ d', e.Yields settings edge ρ d d'
  | .atom .., _, _, _, _ => ⟨_, rfl⟩
  | .seq _ left right, ρ, d, hwf, hacc => by
    obtain ⟨c, hc⟩ := exists_yields edge left d hwf.1 hacc.1
    obtain ⟨d', hd'⟩ := exists_yields edge right c hwf.2 hacc.2
    exact ⟨d', c, hc, hd'⟩
  | .par _ children, ρ, d, hwf, hacc => by
    obtain ⟨ds, hds, hlen⟩ := exists_allYield edge children d hwf.2 hacc
    cases ds with
    | nil => exact absurd hwf.1 (by rw [← hlen]; decide)
    | cons c cs => exact ⟨_, c, cs, hds, rfl⟩
  | .diamond .., _, _, _, _ => ⟨_, rfl⟩
  | .fix .., _, _, _, hacc => by
    obtain ⟨⟨b, _, hb, _⟩, _⟩ := hacc
    exact ⟨b.dtype, b, hb, .refl⟩
  | .var _ name, ρ, d, hwf, _ => by
    obtain ⟨p, hp, hname⟩ := List.mem_map.mp (show name ∈ ρ.map Prod.fst from hwf)
    have hsome : ρ.lookup name ≠ none := fun hnone => by
      simpa [hname] using List.lookup_eq_none_iff.mp hnone p hp
    exact Option.ne_none_iff_exists'.mp hsome
  | .hole, _, _, hwf, _ => hwf.elim

theorem exists_allYield {ops : Registries} {settings : Settings} (edge : DType) : ∀ (es : List Expr) {ρ : List (Bytes × DType)}
    (d : DType), Expr.AllWellFormed (ρ.map Prod.fst) es → Expr.AllAccepted ops settings es →
      ∃ ds, Expr.AllYield settings edge ρ d es ds ∧ ds.length = es.length
  | [], _, _, _, _ => ⟨[], rfl, rfl⟩
  | e :: es, ρ, d, hwf, hacc => by
    obtain ⟨c, hc⟩ := exists_yields edge e d hwf.1 hacc.1
    obtain ⟨cs, hcs, hlen⟩ := exists_allYield edge es d hwf.2 hacc.2
    exact ⟨c :: cs, ⟨c, cs, rfl, hc, hcs⟩, by rw [List.length_cons, hlen, List.length_cons]⟩

end

/-- The domains of the labels that are assigned to variables. -/
def Assignment.domains (ρ : Assignment) : List (Bytes × DType) :=
  ρ.map fun p => (p.1, p.2.dtype)

theorem Assignment.domains_fst (ρ : Assignment) : ρ.domains.map Prod.fst = ρ.map Prod.fst := by
  rw [Assignment.domains, List.map_map]
  rfl

mutual

/-- The labels that a formula gives are of a domain that it may give. -/
theorem meaning_yields {s : Scene} (hops : s.ops = Builtin.registries) {edge : DType}
    (hedge : ∀ t, s.input.e = some t → t.dtype = edge) : ∀ (e : Expr) {ρ : Assignment} {operand : Except Failure Tensor} {d : DType}
    {y : Tensor}, e.WellFormed (ρ.map Prod.fst) → e.Accepted s.ops s.settings → (∀ x, operand = .ok x → x.dtype = d) →
      meaning s ρ operand e = .ok y → e.Yields s.settings edge ρ.domains d y.dtype
  | .atom _ name arg, ρ, operand, d, y, _, _, hop, h => by
    rw [meaning] at h
    obtain ⟨x, hx, h⟩ := bind_ok h
    rw [← hop x hx]
    exact Scene.dtype_atom hops h
  | .seq _ left right, ρ, operand, d, y, hwf, hacc, hop, h => by
    rw [meaning] at h
    cases hl : meaning s ρ operand left with
    | error f =>
      -- A failed operand counts only where it is consumed: what the right part gives does not depend on it.
      obtain ⟨c, hc⟩ := exists_yields edge left d (ρ.domains_fst.symm ▸ hwf.1) hacc.1
      exact ⟨c, hc, meaning_yields hops hedge right hwf.2 hacc.2 (hl ▸ nofun) h⟩
    | ok x =>
      refine ⟨x.dtype, meaning_yields hops hedge left hwf.1 hacc.1 hop hl, ?_⟩
      refine meaning_yields hops hedge right hwf.2 hacc.2 (fun x' hx' => ?_) h
      rw [Except.ok.inj (hl.symm.trans hx')]
  | .par _ children, ρ, operand, d, y, hwf, hacc, hop, h => by
    rw [meaning] at h
    obtain ⟨ts, hts, h⟩ := bind_ok h
    obtain ⟨t, rest, rfl, hy⟩ := dtype_concat h
    exact ⟨t.dtype, rest.map Tensor.dtype, meanings_yield hops hedge children hwf.2 hacc hop hts, hy⟩
  | .diamond _ direction phi sigma, ρ, operand, d, y, _, _, hop, h => by
    rw [meaning] at h
    obtain ⟨x, hx, h⟩ := bind_ok h
    rw [← hop x hx]
    exact Scene.dtype_diamond hops hedge h
  | .fix _ least v base body, ρ, operand, d, y, hwf, hacc, hop, h => by
    obtain ⟨⟨b, row, hb, hrow⟩, hbody⟩ := hacc
    rw [meaning, Scene.fixpoint_eq hb hrow] at h
    obtain ⟨start, hstart, h⟩ := bind_ok h
    obtain ⟨rfl, -⟩ := Tensor.full?_some (orAborted_ok hstart)
    refine ⟨b, hb, ?_⟩
    rw [← Tensor.full_dtype s.nodes row b.dtype]
    refine (settle_turns h).lift Tensor.dtype fun x x' hx => ?_
    obtain ⟨next, hnext, hx⟩ := bind_ok hx
    split at hx
    · obtain rfl := Except.ok.inj hx
      exact meaning_yields hops hedge body (ρ := (v, x) :: ρ) hwf.2.2 hbody hop hnext
    · cases hx
  | .var pos name, ρ, operand, d, y, _, _, _, h => by
    rw [meaning] at h
    show ρ.domains.lookup name = some y.dtype
    rw [Assignment.domains, lookup_map]
    split at h
    · rename_i labels hlabels
      rw [hlabels, Except.ok.inj h]
      rfl
    · cases h
  | .hole, _, _, _, _, hwf, _, _, _ => hwf.elim

/-- The labels that several formulas give are of domains that they may give. -/
theorem meanings_yield {s : Scene} (hops : s.ops = Builtin.registries) {edge : DType}
    (hedge : ∀ t, s.input.e = some t → t.dtype = edge) : ∀ (es : List Expr) {ρ : Assignment} {operand : Except Failure Tensor}
    {d : DType} {ys : List Tensor}, Expr.AllWellFormed (ρ.map Prod.fst) es → Expr.AllAccepted s.ops s.settings es →
      (∀ x, operand = .ok x → x.dtype = d) → meanings s ρ operand es = .ok ys →
        Expr.AllYield s.settings edge ρ.domains d es (ys.map Tensor.dtype)
  | [], _, _, _, ys, _, _, _, h => by
    obtain rfl := Except.ok.inj h
    rfl
  | e :: es, ρ, operand, d, ys, hwf, hacc, hop, h => by
    rw [meanings] at h
    obtain ⟨x, hx, h⟩ := bind_ok h
    obtain ⟨xs, hxs, h⟩ := bind_ok h
    obtain rfl := Except.ok.inj h
    exact ⟨x.dtype, xs.map Tensor.dtype, rfl, meaning_yields hops hedge e hwf.1 hacc.1 hop hx,
      meanings_yield hops hedge es hwf.2 hacc.2 hop hxs⟩

end

/-! ## Evaluation -/

/-- The domain of the edge labels. Without edge labels nothing is made of them. -/
def Input.edgeDomain (input : Input) : DType :=
  (input.e.map Tensor.dtype).getD .bool

/-- The domain of a result is one that the formula may give on the domains of the input. -/
theorem evaluate_yields {settings : Settings} {c : Compiler} (hc : Compiler.Reachable Builtin.registries settings c) {e : Expr}
    {m : Model} (hm : c.Returns e m) {input : Input} (hinput : m.spec.check (some input) = .ok input) {maxIterations : Int}
    {y : Tensor} (hy : (Evaluator.evaluate maxIterations true m (some input)).result = .ok y) :
    e.Yields settings input.edgeDomain [] input.x.dtype y.dtype := by
  obtain ⟨-, -, -, -, -, -, hacc⟩ := RefinementAux.returns_plays hc Builtin.registries_calm hm input maxIterations
  have houtcome := evaluate_outcome hc Builtin.registries_calm hm hinput maxIterations
  rw [hy, outcome_ok] at houtcome
  refine meaning_yields (s := ⟨Builtin.registries, settings, input, maxIterations⟩) rfl (fun t ht => ?_) e (ρ := [])
    (RefinementAux.returns_compileAs hm).1 hacc (fun x hx => by rw [Except.ok.inj hx]) (outcome_eq_ok.mp houtcome.symm)
  rw [Input.edgeDomain, show input.e = some t from ht]
  rfl

/-- A formula that may give one domain only on the domains of some labels gives results of the same domain on all inputs of these
domains that go with its model, whatever the labels, the nodes, the edges and the limit on iterations are. -/
theorem evaluate_same_domain {settings : Settings} {c : Compiler} (hc : Compiler.Reachable Builtin.registries settings c) {e : Expr}
    {m : Model} (hm : c.Returns e m) {input input' : Input} (hinput : m.spec.check (some input) = .ok input)
    (hinput' : m.spec.check (some input') = .ok input') (hx : input.x.dtype = input'.x.dtype)
    (he : input.e.map Tensor.dtype = input'.e.map Tensor.dtype)
    (hone : ∀ d d', e.Yields settings input.edgeDomain [] input.x.dtype d →
      e.Yields settings input.edgeDomain [] input.x.dtype d' → d = d')
    {maxIterations maxIterations' : Int} {y y' : Tensor}
    (hy : (Evaluator.evaluate maxIterations true m (some input)).result = .ok y)
    (hy' : (Evaluator.evaluate maxIterations' true m (some input')).result = .ok y') : y.dtype = y'.dtype := by
  have hyields := evaluate_yields hc hm hinput hy
  have hyields' := evaluate_yields hc hm hinput' hy'
  rw [Input.edgeDomain, ← he, ← hx] at hyields'
  exact hone _ _ hyields hyields'

namespace Sample

/-- One node with a number. -/
def single (v : Label) : Input :=
  ⟨Tensor.column .uint8 [v], [], [], none, none⟩

theorem dtype_single (v : Label) : (single v).x.dtype = .uint8 := rfl

/-- The formula `mu X,b.(id);not`. -/
def negated : Bytes :=
  Bytes.ofString "mu X,b.(id);not"

/-- The formula, parsed. -/
def negatedExpr : Expr :=
  .seq ⟨0, 1, 1⟩ (.fix ⟨0, 1, 1⟩ true (Bytes.ofString "X") (Bytes.ofString "b") (.atom ⟨8, 1, 9⟩ (Bytes.ofString "id") none))
    (.atom ⟨12, 1, 13⟩ (Bytes.ofString "not") none)

theorem negated_parsed : parse negated = .ok negatedExpr := parse_of_same (by decide +kernel)

/-- The last operator gives truth values, whatever the fixpoint gives. -/
theorem negatedExpr_yields {edge d d' : DType} (h : negatedExpr.Yields twoBases edge [] d d') : d' = .bool := by
  obtain ⟨c, -, rfl⟩ := h
  rfl

/-- A model accepts a node labelled zero and a node labelled one, and gives labels of some domains. -/
def givesDomains (m : Model) (d d' : DType) : Bool :=
  (m.spec.check (some (single Label.zero))).isOk && (m.spec.check (some (single Label.one))).isOk &&
    (Evaluator.evaluate 0 true m (some (single Label.zero))).result.toOption.map Tensor.dtype == some d &&
    (Evaluator.evaluate 0 true m (some (single Label.one))).result.toOption.map Tensor.dtype == some d'

theorem of_givesDomains {m : Model} {d d' : DType} (h : givesDomains m d d' = true) :
    m.spec.check (some (single Label.zero)) = .ok (single Label.zero) ∧
      m.spec.check (some (single Label.one)) = .ok (single Label.one) ∧
      (∃ y, (Evaluator.evaluate 0 true m (some (single Label.zero))).result = .ok y ∧ y.dtype = d) ∧
      ∃ y, (Evaluator.evaluate 0 true m (some (single Label.one))).result = .ok y ∧ y.dtype = d' := by
  have hresult : ∀ {r : Except Failure Tensor} {d : DType}, (r.toOption.map Tensor.dtype == some d) = true →
      ∃ y, r = .ok y ∧ y.dtype = d := by
    intro r d h
    cases r with
    | error f => cases h
    | ok y => exact ⟨y, rfl, Option.some.inj (beq_iff_eq.mp h)⟩
  simp only [givesDomains, Bool.and_eq_true] at h
  obtain ⟨⟨⟨hzero, hone⟩, hy⟩, hy'⟩ := h
  exact ⟨check_of_isOk hzero, check_of_isOk hone, hresult hy, hresult hy'⟩

/-- A model that is compiled first and that gives labels of some domains. -/
theorem exists_model (text : Bytes) (d d' : DType) (h : (match (newCompiler.compile false text).result with
      | .ok m => givesDomains m d d'
      | .error _ => false) = true) : ∃ m, (newCompiler.compile false text).result = .ok m ∧ givesDomains m d d' = true := by
  cases hm : (newCompiler.compile false text).result with
  | error f =>
    rw [hm] at h
    cases h
  | ok m =>
    rw [hm] at h
    exact ⟨m, rfl, h⟩

end Sample

/-- The fixpoint of `mu X,b.(id);not` gives labels of different domains on a node labelled zero and on a node labelled one, but the
formula gives truth values on both. -/
theorem evaluate_same_domain_sample : ∃ m y y', Sample.newCompiler.Returns Sample.negatedExpr m ∧
    (Evaluator.evaluate 0 true m (some (Sample.single Label.zero))).result = .ok y ∧
    (Evaluator.evaluate 0 true m (some (Sample.single Label.one))).result = .ok y' ∧ y.dtype = y'.dtype := by
  obtain ⟨m, hm, hrun⟩ := Sample.exists_model Sample.negated .bool .bool (by decide +kernel)
  obtain ⟨hzero, hone, ⟨y, hy, -⟩, y', hy', -⟩ := Sample.of_givesDomains hrun
  have hreturns : Sample.newCompiler.Returns Sample.negatedExpr m := .text Sample.negated_parsed hm
  refine ⟨m, y, y', hreturns, hy, hy', ?_⟩
  exact evaluate_same_domain (.new Sample.newCompiler_new) hreturns hzero hone
    ((Sample.dtype_single _).trans (Sample.dtype_single _).symm) rfl
    (fun d d' hd hd' => (Sample.negatedExpr_yields hd).trans (Sample.negatedExpr_yields hd').symm) hy hy'

/-- The model of `mu X,b.(id)` gives truth values on a node labelled zero, where the fixpoint settles at the labels it starts from, and
numbers on a node labelled one, although both inputs are numbers. -/
theorem domain_depends_on_labels : ∃ m y y', (Sample.newCompiler.compile false (Bytes.ofString "mu X,b.(id)")).result = .ok m ∧
    m.spec.check (some (Sample.single Label.zero)) = .ok (Sample.single Label.zero) ∧
    m.spec.check (some (Sample.single Label.one)) = .ok (Sample.single Label.one) ∧
    (Sample.single Label.zero).x.dtype = (Sample.single Label.one).x.dtype ∧
    (Evaluator.evaluate 0 true m (some (Sample.single Label.zero))).result = .ok y ∧
    (Evaluator.evaluate 0 true m (some (Sample.single Label.one))).result = .ok y' ∧ y.dtype = .bool ∧ y'.dtype = .uint8 := by
  obtain ⟨m, hm, hrun⟩ := Sample.exists_model (Bytes.ofString "mu X,b.(id)") .bool .uint8 (by decide +kernel)
  obtain ⟨hzero, hone, ⟨y, hy, hd⟩, y', hy', hd'⟩ := Sample.of_givesDomains hrun
  exact ⟨m, y, y', hm, hzero, hone, (Sample.dtype_single _).trans (Sample.dtype_single _).symm, hy, hy', hd, hd'⟩

end ModalGraph
