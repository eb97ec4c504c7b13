import ModalGraph.Proofs.Compiler.Translation
import ModalGraph.Proofs.Evaluator.Convergence

/-!
# Two evaluations side by side

A correspondence says, for each term, which labels go together: those of the term in one scene and those of the term that it is carried
over to in another scene; and the same for the labels of variables. It is upheld if one step keeps to it (`Correspondence.Upheld`):
each operator on labels that go together gives labels that go together, or fails in the same class of failures on both sides; the rows
that fixpoints start from go together; and the test that ends an iteration has the same outcome on both sides. Then the values of a
whole term go together (`value_agrees`), and so do the results of evaluating the two formulas (`evaluate_agrees`).
-/

namespace ModalGraph

open Formula Compiler

/-- What goes together in two evaluations: the terms it is said of, the labels of a term, and those of a variable by its key. -/
structure Correspondence where
  Relevant : Term → Prop
  Labels : Term → Tensor → Tensor → Prop
  Assigned : Bytes → Tensor → Tensor → Prop

/-- One step on each side keeps to a correspondence. -/
structure Correspondence.Upheld (g : Correspondence) (τ : Translation) (s s' : Scene) : Prop where
  parts : ∀ {u}, g.Relevant u → ∀ p ∈ u.parts, g.Relevant p
  input : g.Labels .input s.input.x s'.input.x
  psi : ∀ {name arg u x y}, g.Relevant (.psi name arg u) → g.Labels u x y →
    Agree (g.Labels (.psi name arg u)) (s.atom name arg x) (s'.atom (τ.psi name) arg y)
  concat : ∀ {us ps}, g.Relevant (.concat us) → List.Forall₂ (fun u p => g.Labels u p.1 p.2) us ps →
    Agree (g.Labels (.concat us)) (Tensor.concat (ps.map Prod.fst)) (Tensor.concat (ps.map Prod.snd))
  diamond : ∀ {direction phi sigma u x y}, g.Relevant (.diamond direction phi sigma u) → g.Labels u x y →
    Agree (g.Labels (.diamond direction phi sigma u)) (s.diamond direction phi sigma x)
      (s'.diamond (τ.direction direction) phi (τ.sigma sigma) y)
  var : ∀ {depth base x y}, g.Assigned (variableKey depth base) x y → g.Labels (.var depth base) x y
  fix : ∀ {least depth base u x y}, g.Assigned (variableKey depth base) x y → g.Labels (.fix least depth base u) x y
  start : ∀ {least depth base u}, g.Relevant (.fix least depth base u) →
    Agree (fun p p' => p.1 = p'.1 ∧ g.Assigned (variableKey depth base) p.2 p'.2) (s.opening least base)
      (s'.opening (τ.least least) base)
  limit : ∀ width, s.limit width = s'.limit width
  turn : ∀ {least depth base u w x₀ x y}, g.Relevant (.fix least depth base u) → s.opening least base = .ok (w, x₀) → g.Labels u x y →
    (x.rows = s.nodes ∧ x.cols = (w : Int) ↔ y.rows = s'.nodes ∧ y.cols = (w : Int)) ∧
      (x.rows = s.nodes ∧ x.cols = (w : Int) → g.Assigned (variableKey depth base) x y)
  equal : ∀ {k x y x' y'}, g.Assigned k x y → g.Assigned k x' y' → x'.equal x = y'.equal y

namespace Correspondence

variable {g : Correspondence} {τ : Translation} {s s' : Scene}

/-- Scopes of the same variables whose labels go together. -/
def Paired (g : Correspondence) (scope scope' : Evaluator.Scope) : Prop :=
  List.Forall₂ (fun p p' => p.1 = p'.1 ∧ g.Assigned p.1 p.2 p'.2) scope scope'

theorem Paired.lookup {scope scope' : Evaluator.Scope} (h : g.Paired scope scope') (k : Bytes) :
    (scope.lookup k = none ∧ scope'.lookup k = none) ∨
      ∃ x y, scope.lookup k = some x ∧ scope'.lookup k = some y ∧ g.Assigned k x y := by
  induction h with
  | nil => exact .inl ⟨rfl, rfl⟩
  | @cons p p' _ _ hp _ ih =>
    obtain ⟨k', x⟩ := p
    obtain ⟨k'', y⟩ := p'
    obtain ⟨rfl, hassigned⟩ : k' = k'' ∧ g.Assigned k' x y := hp
    rw [List.lookup_cons, List.lookup_cons]
    by_cases hk : k = k'
    · subst hk
      rw [beq_self_eq_true]
      exact .inr ⟨x, y, rfl, rfl, hassigned⟩
    · rw [show (k == k') = false by simpa using hk]
      exact ih

section

variable {A : Tensor → Tensor → Prop} {body body' : Tensor → Except Failure Tensor} {x y z : Tensor}

/-- Iterations whose turns agree, and stop together, agree on the labels and take the same number of turns. -/
theorem settleIn_agrees (hbody : ∀ x y, A x y → Agree A (body x) (body' y))
    (hequal : ∀ x y x' y', A x y → A x' y' → x'.equal x = y'.equal y) (limit : Nat) (remaining : Nat) : ∀ {x y : Tensor}, A x y →
      Agree (fun p p' => A p.1 p'.1 ∧ p.2 = p'.2) (settleIn limit body remaining x) (settleIn limit body' remaining y) := by
  induction remaining with
  | zero => exact fun _ => rfl
  | succ remaining ih =>
    intro x y hxy
    rw [settleIn, settleIn]
    refine (hbody x y hxy).bind fun x' y' hxy' => ?_
    rw [hequal x y x' y' hxy hxy']
    cases y'.equal y with
    | true => exact ⟨hxy, rfl⟩
    | false => exact ih hxy'

/-- Iterations whose turns agree, and stop together, pass through labels that go together. -/
theorem passes_agrees (hbody : ∀ x y, A x y → Agree A (body x) (body' y))
    (hequal : ∀ x y x' y', A x y → A x' y' → x'.equal x = y'.equal y) (h : Passes body x z) :
    ∀ {y : Tensor}, A x y → ∃ z', Passes body' y z' ∧ A z z' := by
  induction h with
  | here => exact fun hxy => ⟨_, .here, hxy⟩
  | @on x x' z hx heq _ ih =>
    intro y hxy
    have hagree := hbody x y hxy
    rw [hx] at hagree
    obtain ⟨y', hy, hxy'⟩ := hagree.of_ok
    obtain ⟨z', hz', hzz⟩ := ih hxy'
    exact ⟨z', .on hy (hequal x y x' y' hxy hxy' ▸ heq) hz', hzz⟩

theorem passes_agrees_right (hbody : ∀ x y, A x y → Agree A (body x) (body' y))
    (hequal : ∀ x y x' y', A x y → A x' y' → x'.equal x = y'.equal y) (h : Passes body' y z) :
    ∀ {x : Tensor}, A x y → ∃ z', Passes body x z' ∧ A z' z := by
  induction h with
  | here => exact fun hxy => ⟨_, .here, hxy⟩
  | @on y y' z hy heq _ ih =>
    intro x hxy
    have hagree := hbody x y hxy
    rw [hy] at hagree
    obtain ⟨x', hx, hxy'⟩ := hagree.of_ok_right
    obtain ⟨z', hz', hzz⟩ := ih hxy'
    exact ⟨z', .on hx ((hequal x y x' y' hxy hxy').trans heq) hz', hzz⟩

end

/-- The turns of a fixpoint agree, if its body does. -/
theorem assigned_agrees (hg : g.Upheld τ s s') {least : Bool} {depth : Nat} {base : Bytes} {u : Term} {w : Nat} {x₀ : Tensor}
    (hrel : g.Relevant (.fix least depth base u)) (hrow : s.opening least base = .ok (w, x₀))
    {body body' : Tensor → Except Failure Tensor}
    (hbody : ∀ x y, g.Assigned (variableKey depth base) x y → Agree (g.Labels u) (body x) (body' y)) (x y : Tensor)
    (hxy : g.Assigned (variableKey depth base) x y) :
    Agree (g.Assigned (variableKey depth base)) (s.assigned w body x) (s'.assigned w body' y) := by
  rw [Scene.assigned, Scene.assigned]
  refine (hbody x y hxy).bind fun x' y' hxy' => ?_
  obtain ⟨hshape, hassigned⟩ := hg.turn hrel hrow hxy'
  by_cases hx : x'.rows = s.nodes ∧ x'.cols = w
  · rw [if_pos hx, if_pos (hshape.mp hx)]
    exact hassigned hx
  · rw [if_neg hx, if_neg fun hy => hx (hshape.mpr hy)]
    exact rfl

/-- Fixpoints agree, if their bodies do. -/
theorem fixpoint_agrees (hg : g.Upheld τ s s') {least : Bool} {depth : Nat} {base : Bytes} {u : Term}
    (hrel : g.Relevant (.fix least depth base u)) {body body' : Tensor → Except Failure Tensor}
    (hbody : ∀ x y, g.Assigned (variableKey depth base) x y → Agree (g.Labels u) (body x) (body' y)) :
    Agree (g.Assigned (variableKey depth base)) (s.fixpoint least base body) (s'.fixpoint (τ.least least) base body') := by
  rw [Scene.fixpoint, Scene.fixpoint]
  have hstart := hg.start hrel
  cases hrow : s.opening least base with
  | error f =>
    rw [hrow] at hstart
    cases hrow' : s'.opening (τ.least least) base with
    | error f' =>
      rw [hrow'] at hstart
      exact hstart
    | ok p' =>
      rw [hrow'] at hstart
      exact hstart.elim
  | ok p =>
    obtain ⟨w, x₀⟩ := p
    rw [hrow] at hstart
    obtain ⟨⟨w', x₀'⟩, hrow', hwidth, hassigned⟩ := hstart.of_ok
    dsimp only at hwidth hassigned
    subst hwidth
    rw [hrow', ok_bind, ok_bind]
    dsimp only
    rw [← hg.limit, settle_eq, settle_eq]
    exact (settleIn_agrees (assigned_agrees hg hrel hrow hbody) (fun _ _ _ _ => hg.equal) _ _ hassigned).map fun _ _ h => h.1

mutual

/-- The values of a term and of what it is carried over to go together, in scopes that do. -/
theorem value_agrees (hg : g.Upheld τ s s') : ∀ (t : Term) {scope scope' : Evaluator.Scope}, g.Relevant t → g.Paired scope scope' →
    Agree (g.Labels t) (t.value s scope) ((t.translate τ).value s' scope')
  | .input, _, _, _, _ => hg.input
  | .psi name arg t, _, _, hrel, hscope => by
    rw [Term.translate, Term.value, Term.value]
    exact (value_agrees hg t (hg.parts hrel t (List.mem_singleton.mpr rfl)) hscope).bind fun x y hxy => hg.psi hrel hxy
  | .concat ts, _, _, hrel, hscope => by
    rw [Term.translate, Term.value, Term.value]
    refine (values_agree hg ts (hg.parts hrel) hscope).bind fun xs ys hxys => ?_
    obtain ⟨ps, rfl, rfl, hps⟩ := hxys
    exact hg.concat hrel hps
  | .diamond direction phi sigma t, _, _, hrel, hscope => by
    rw [Term.translate, Term.value, Term.value]
    exact (value_agrees hg t (hg.parts hrel t (List.mem_singleton.mpr rfl)) hscope).bind fun x y hxy => hg.diamond hrel hxy
  | .var depth base, _, _, _, hscope => by
    rw [Term.translate, Term.value, Term.value]
    obtain ⟨hx, hy⟩ | ⟨x, y, hx, hy, hxy⟩ := hscope.lookup (variableKey depth base)
    · rw [hx, hy]
      exact rfl
    · rw [hx, hy]
      exact hg.var hxy
  | .fix least depth base t, _, _, hrel, hscope => by
    rw [Term.translate, Term.value, Term.value]
    refine (fixpoint_agrees hg hrel fun x y hxy => ?_).imp fun _ _ => hg.fix
    exact value_agrees hg t (hg.parts hrel t (List.mem_singleton.mpr rfl)) (.cons ⟨rfl, hxy⟩ hscope)

/-- The values of several terms go together one by one. -/
theorem values_agree (hg : g.Upheld τ s s') : ∀ (ts : List Term) {scope scope' : Evaluator.Scope}, (∀ t ∈ ts, g.Relevant t) →
    g.Paired scope scope' → Agree (fun xs ys => ∃ ps : List (Tensor × Tensor), xs = ps.map Prod.fst ∧ ys = ps.map Prod.snd ∧
        List.Forall₂ (fun u p => g.Labels u p.1 p.2) ts ps) (Term.values s scope ts) (Term.values s' scope' (Term.translateAll τ ts))
  | [], _, _, _, _ => ⟨[], rfl, rfl, .nil⟩
  | t :: ts, _, _, hrel, hscope => by
    rw [Term.translateAll, Term.values, Term.values]
    refine (value_agrees hg t (hrel t List.mem_cons_self) hscope).bind fun x y hxy => ?_
    refine (values_agree hg ts (fun u hu => hrel u (List.mem_cons_of_mem _ hu)) hscope).bind fun xs ys hxys => ?_
    obtain ⟨ps, rfl, rfl, hps⟩ := hxys
    exact ⟨(x, y) :: ps, rfl, rfl, .cons hxy hps⟩

end

/-! ## Convergences -/

/-- The turns of a fixpoint in scopes that go together agree. -/
theorem turn_agrees (hg : g.Upheld τ s s') {least : Bool} {depth : Nat} {base : Bytes} {u : Term} {w : Nat} {x₀ : Tensor}
    (hrel : g.Relevant (.fix least depth base u)) (hrow : s.opening least base = .ok (w, x₀)) {scope scope' : Evaluator.Scope}
    (hscope : g.Paired scope scope') : ∀ x y, g.Assigned (variableKey depth base) x y →
    Agree (g.Assigned (variableKey depth base)) (u.turn s scope depth base w x) ((u.translate τ).turn s' scope' depth base w y) := by
  have hbody : g.Relevant u := hg.parts hrel u (List.mem_singleton.mpr rfl)
  intro x y hxy
  show Agree _ (s.assigned w (fun x => u.value s ((variableKey depth base, x) :: scope)) x)
    (s'.assigned w (fun y => (u.translate τ).value s' ((variableKey depth base, y) :: scope')) y)
  refine assigned_agrees hg hrel hrow (fun x y hxy => ?_) x y hxy
  exact value_agrees hg u hbody (.cons ⟨rfl, hxy⟩ hscope)

/-- A fixpoint that starts from some labels starts from labels that go with them on the other side. -/
theorem start_agrees (hg : g.Upheld τ s s') {least : Bool} {depth : Nat} {base : Bytes} {u : Term} {w : Nat} {x₀ : Tensor}
    (hrel : g.Relevant (.fix least depth base u)) (hrow : s.opening least base = .ok (w, x₀)) :
    ∃ y₀, s'.opening (τ.least least) base = .ok (w, y₀) ∧ g.Assigned (variableKey depth base) x₀ y₀ := by
  have hstart := hg.start hrel
  rw [hrow] at hstart
  obtain ⟨⟨w', y₀⟩, hrow', rfl, hassigned⟩ := hstart.of_ok
  exact ⟨y₀, hrow', hassigned⟩

theorem start_agrees_right (hg : g.Upheld τ s s') {least : Bool} {depth : Nat} {base : Bytes} {u : Term} {w : Nat} {y₀ : Tensor}
    (hrel : g.Relevant (.fix least depth base u)) (hrow' : s'.opening (τ.least least) base = .ok (w, y₀)) :
    ∃ x₀, s.opening least base = .ok (w, x₀) ∧ g.Assigned (variableKey depth base) x₀ y₀ := by
  have hstart := hg.start hrel
  rw [hrow'] at hstart
  obtain ⟨⟨w', x₀⟩, hrow, rfl, hassigned⟩ := hstart.of_ok_right
  exact ⟨x₀, hrow, hassigned⟩

/-- Where a term converges, what it is carried over to converges in as many turns. -/
theorem converges_carried (hg : g.Upheld τ s s') {scope : Evaluator.Scope} {t u : Term} {k : Nat} (h : Converges s scope t u k) :
    ∀ {scope' : Evaluator.Scope}, g.Relevant t → g.Paired scope scope' → Converges s' scope' (t.translate τ) (u.translate τ) k := by
  induction h with
  | psi _ ih => exact fun hrel hscope => .psi (ih (hg.parts hrel _ (List.mem_singleton.mpr rfl)) hscope)
  | @concat _ ts t _ _ ht _ ih =>
    intro scope' hrel hscope
    refine .concat ?_ (ih (hg.parts hrel t ht) hscope)
    rw [Term.translateAll_eq_map]
    exact List.mem_map_of_mem ht
  | diamond _ ih => exact fun hrel hscope => .diamond (ih (hg.parts hrel _ (List.mem_singleton.mpr rfl)) hscope)
  | @inTurn scope least depth base t _ _ _ _ x hrow hpass _ ih =>
    intro scope' hrel hscope
    obtain ⟨y₀, hrow', hassigned⟩ := start_agrees hg hrel hrow
    obtain ⟨z, hz, hxz⟩ := passes_agrees (turn_agrees hg hrel hrow hscope) (fun _ _ _ _ => hg.equal) hpass hassigned
    have hscope' : g.Paired ((variableKey depth base, x) :: scope) ((variableKey depth base, z) :: scope') := .cons ⟨rfl, hxz⟩ hscope
    exact .inTurn hrow' hz (ih (hg.parts hrel t (List.mem_singleton.mpr rfl)) hscope')
  | @settled scope least depth base t k w _ _ hrow hsettle =>
    intro scope' hrel hscope
    obtain ⟨y₀, hrow', hassigned⟩ := start_agrees hg hrel hrow
    have hagree := settleIn_agrees (turn_agrees hg hrel hrow hscope) (fun _ _ _ _ => hg.equal) (s.limit w) (s.limit w) hassigned
    rw [hsettle] at hagree
    obtain ⟨⟨y', k'⟩, hsettle', -, rfl⟩ := hagree.of_ok
    rw [hg.limit] at hsettle'
    exact .settled hrow' hsettle'

/-- What a term is carried over to converges nowhere else, and in no other number of turns. -/
theorem converges_origin (hg : g.Upheld τ s s') {scope' : Evaluator.Scope} {t' u' : Term} {k : Nat} (h : Converges s' scope' t' u' k) :
    ∀ {t : Term} {scope : Evaluator.Scope}, t' = t.translate τ → g.Relevant t → g.Paired scope scope' →
      ∃ u, u' = u.translate τ ∧ Converges s scope t u k := by
  induction h with
  | psi _ ih =>
    intro t scope ht hrel hscope
    cases t with
    | psi name arg t =>
      cases ht
      obtain ⟨u, rfl, hu⟩ := ih rfl (hg.parts hrel t (List.mem_singleton.mpr rfl)) hscope
      exact ⟨u, rfl, .psi hu⟩
    | _ => cases ht
  | concat hmem _ ih =>
    intro t scope ht hrel hscope
    cases t with
    | concat ts =>
      cases ht
      rw [Term.translateAll_eq_map] at hmem
      obtain ⟨t, ht, rfl⟩ := List.mem_map.mp hmem
      obtain ⟨u, rfl, hu⟩ := ih rfl (hg.parts hrel t ht) hscope
      exact ⟨u, rfl, .concat ht hu⟩
    | _ => cases ht
  | diamond _ ih =>
    intro t scope ht hrel hscope
    cases t with
    | diamond direction phi sigma t =>
      cases ht
      obtain ⟨u, rfl, hu⟩ := ih rfl (hg.parts hrel t (List.mem_singleton.mpr rfl)) hscope
      exact ⟨u, rfl, .diamond hu⟩
    | _ => cases ht
  | @inTurn scope' _ _ _ _ _ _ _ _ x hrow' hpass _ ih =>
    intro t scope ht hrel hscope
    cases t with
    | fix least depth base t =>
      obtain ⟨rfl, rfl, rfl, rfl⟩ := Term.fix.inj ht
      obtain ⟨x₀, hrow, hassigned⟩ := start_agrees_right hg hrel hrow'
      obtain ⟨z, hz, hzx⟩ := passes_agrees_right (turn_agrees hg hrel hrow hscope) (fun _ _ _ _ => hg.equal) hpass hassigned
      have hscope' : g.Paired ((variableKey _ _, z) :: scope) ((variableKey _ _, x) :: scope') := .cons ⟨rfl, hzx⟩ hscope
      obtain ⟨u, rfl, hu⟩ := ih rfl (hg.parts hrel t (List.mem_singleton.mpr rfl)) hscope'
      exact ⟨u, rfl, .inTurn hrow hz hu⟩
    | _ => cases ht
  | @settled _ _ _ _ _ _ w _ _ hrow' hsettle =>
    intro t scope ht hrel hscope
    cases t with
    | fix least depth base t =>
      obtain ⟨rfl, rfl, rfl, rfl⟩ := Term.fix.inj ht
      obtain ⟨x₀, hrow, hassigned⟩ := start_agrees_right hg hrel hrow'
      rw [← hg.limit] at hsettle
      have hagree := settleIn_agrees (turn_agrees hg hrel hrow hscope) (fun _ _ _ _ => hg.equal) (s.limit w) (s.limit w) hassigned
      rw [hsettle] at hagree
      obtain ⟨⟨y, k⟩, hsettle', -, rfl⟩ := hagree.of_ok_right
      exact ⟨_, rfl, .settled hrow hsettle'⟩
    | _ => cases ht

end Correspondence

/-- A report of a fixpoint, and one of what the fixpoint is carried over to, with the same number of turns. -/
def Event.Carried (τ : Translation) (ev ev' : Event) : Prop :=
  ∃ least depth base u k, ev = .fixpointConverged (Term.fix least depth base u).key least k ∧
    ev' = .fixpointConverged ((Term.fix least depth base u).translate τ).key (τ.least least) k

/-! ## Evaluations -/

section

variable {ops : Registries} {settings : Settings} {c : Compiler} {e : Expr} {m : Model}

theorem gives_spec (hc : Reachable ops settings c) (he : e.Named) (hm : c.Gives e m) : m.spec = settings.input := by
  obtain ⟨e', he', -, canceled, formula, hm⟩ := hm.compileAs he
  obtain ⟨es, -, -, hspec, -⟩ := RefinementAux.compileAs_holds hc he' hm
  exact hspec

/-- A model that is given evaluates to the value of its formula's term, up to the words of a failure. -/
theorem evaluate_value (hc : Reachable ops settings c) (hcalm : ops.Calm) (he : e.Named) (hm : c.Gives e m) {t : Term}
    (ht : e.term [] .input = some t) {input : Input} (hinput : m.spec.check (some input) = .ok input) (maxIterations : Int) :
    outcome (Evaluator.evaluate maxIterations true m (some input)).result =
      outcome (t.value ⟨ops, settings, input, maxIterations⟩ []) := by
  obtain ⟨e', t', he', ⟨canceled, formula, hm⟩, hplan', hplan⟩ := hm.planned hc he
  obtain ⟨t'', ht'', hvalue⟩ := compileAs_outcome hc hcalm he' hm hinput maxIterations
  obtain rfl : t' = t := Option.some.inj ((plan_ok e hplan).1.symm.trans ht)
  obtain rfl : t'' = t' := Option.some.inj (ht''.symm.trans (plan_ok e' hplan').1)
  exact hvalue

theorem reported_iff_of_gives (hc : Reachable ops settings c) (hcalm : ops.Calm) (he : e.Named) (hm : c.Gives e m) {t : Term}
    (ht : e.term [] .input = some t) {input : Input} {maxIterations : Int} {labels : Tensor}
    (hok : (Evaluator.evaluate maxIterations true m (some input)).result = .ok labels) (key : Bytes) (least : Bool) (k : Nat) :
    .fixpointConverged key least k ∈ (Evaluator.evaluate maxIterations true m (some input)).events ↔
      Told ⟨ops, settings, input, maxIterations⟩ [] t (.fixpointConverged key least k) := by
  obtain ⟨e', t', he', ⟨canceled, formula, hm⟩, hplan', hplan⟩ := hm.planned hc he
  obtain rfl : t' = t := Option.some.inj ((plan_ok e hplan).1.symm.trans ht)
  exact reported_iff hc hcalm he' hm (plan_ok e' hplan').1 hok key least k

end

section

variable {τ : Translation} {V : Vocabulary} {ops : Registries} {settings : Settings} {c c' : Compiler} {e : Expr} {m m' : Model}

/-- Evaluating the model of a formula and the model of what the formula is carried over to, on inputs of which one is admitted if the
other one is, gives labels that go together, or fails in the same class of failures. -/
theorem evaluate_agrees (hτ : τ.Suits V ops settings) (hcalm : ops.Calm) (hc : Reachable ops settings c)
    (hc' : Reachable ops settings c') (he : e.Named) (hV : e.Over V) (hm : c.Gives e m) (hm' : c'.Gives (e.translate τ) m')
    {g : Correspondence} {input input' : Input} {maxIterations : Int}
    (hcheck : Agree (fun _ _ => True) (settings.input.check (some input)) (settings.input.check (some input')))
    (hg : settings.input.Admits input → g.Upheld τ ⟨ops, settings, input, maxIterations⟩ ⟨ops, settings, input', maxIterations⟩)
    (hrel : ∀ t, e.term [] .input = some t → t.Over V → g.Relevant t) (live : Bool) :
    Agree (fun x y => ∃ t, e.term [] .input = some t ∧ g.Labels t x y)
      (Evaluator.evaluate maxIterations live m (some input)).result (Evaluator.evaluate maxIterations live m' (some input')).result := by
  have he' : (e.translate τ).Named := he.translate hτ.toSpells hV
  cases live with
  | false => exact rfl
  | true =>
    have hspec := gives_spec hc he hm
    have hspec' := gives_spec hc' he' hm'
    cases hok : settings.input.check (some input) with
    | error f =>
      rw [hok] at hcheck
      cases hok' : settings.input.check (some input') with
      | error f' =>
        rw [hok'] at hcheck
        rw [Evaluator.evaluate_refused (hspec ▸ hok), Evaluator.evaluate_refused (hspec' ▸ hok')]
        exact hcheck
      | ok i =>
        rw [hok'] at hcheck
        exact hcheck.elim
    | ok i =>
      obtain ⟨rfl, hadmits⟩ := check_eq_ok.mp hok
      rw [hok] at hcheck
      obtain ⟨i', hok', -⟩ := hcheck.of_ok
      obtain ⟨rfl, -⟩ := check_eq_ok.mp hok'
      obtain ⟨t, ht, ht', hover⟩ := term_carried hτ hc he hm hV
      have hvalues := Correspondence.value_agrees (hg hadmits) t (hrel t ht hover) .nil
      refine (hvalues.imp fun x y hxy => ⟨t, ht, hxy⟩).congr ?_ ?_
      · exact evaluate_value hc hcalm he hm ht (by rw [hspec]; exact hok) maxIterations
      · exact evaluate_value hc' hcalm he' hm' ht' (by rw [hspec']; exact hok') maxIterations

/-- Evaluations that succeed report as many turns of what a fixpoint is carried over to as of the fixpoint. -/
theorem reports_carried (hτ : τ.Suits V ops settings) (hcalm : ops.Calm) (hc : Reachable ops settings c)
    (hc' : Reachable ops settings c') (he : e.Named) (hV : e.Over V) (hm : c.Gives e m) (hm' : c'.Gives (e.translate τ) m')
    {g : Correspondence} {input input' : Input} {maxIterations : Int}
    (hg : g.Upheld τ ⟨ops, settings, input, maxIterations⟩ ⟨ops, settings, input', maxIterations⟩)
    (hrel : ∀ t, e.term [] .input = some t → t.Over V → g.Relevant t) {x x' : Tensor}
    (hx : (Evaluator.evaluate maxIterations true m (some input)).result = .ok x)
    (hx' : (Evaluator.evaluate maxIterations true m' (some input')).result = .ok x') :
    (∀ key least k, .fixpointConverged key least k ∈ (Evaluator.evaluate maxIterations true m (some input)).events →
        ∃ ev ∈ (Evaluator.evaluate maxIterations true m' (some input')).events, Event.Carried τ (.fixpointConverged key least k) ev) ∧
      ∀ key least k, .fixpointConverged key least k ∈ (Evaluator.evaluate maxIterations true m' (some input')).events →
        ∃ ev ∈ (Evaluator.evaluate maxIterations true m (some input)).events, Event.Carried τ ev (.fixpointConverged key least k) := by
  obtain ⟨t, ht, ht', hover⟩ := term_carried hτ hc he hm hV
  have hreported := reported_iff_of_gives hc hcalm he hm ht hx
  have hreported' := reported_iff_of_gives hc' hcalm (he.translate hτ.toSpells hV) hm' ht' hx'
  have hrelevant := hrel t ht hover
  constructor
  · intro key least k hev
    obtain ⟨least, depth, base, u, k, hu, hev⟩ := (hreported key least k).mp hev
    have hcarried := Correspondence.converges_carried hg hu hrelevant .nil
    exact ⟨_, (hreported' _ _ _).mpr ⟨_, _, _, _, _, hcarried, rfl⟩, least, depth, base, u, k, hev, rfl⟩
  · intro key least k hev
    obtain ⟨least', depth, base, u', k, hu', hev⟩ := (hreported' key least k).mp hev
    obtain ⟨u, hu, hconverges⟩ := Correspondence.converges_origin hg hu' rfl hrelevant .nil
    cases u with
    | fix least depth base u =>
      obtain ⟨rfl, rfl, rfl, rfl⟩ := Term.fix.inj hu
      exact ⟨_, (hreported _ _ _).mpr ⟨_, _, _, _, _, hconverges, rfl⟩, least, _, _, u, k, rfl, hev⟩
    | _ => cases hu

end

end ModalGraph
