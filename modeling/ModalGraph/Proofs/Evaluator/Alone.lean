import ModalGraph.Proofs.Compiler.Built
import ModalGraph.Proofs.Evaluator.Course

/-!
# Nodes in the middle of an evaluation

Whatever an evaluation has kept by the time it comes to a node, it gives there exactly what the node gives when evaluated on its own, be
it labels or a failure with all its words, and goes on with a faithful run, also where it fails (`eval_eq_alone`). So this holds of every
call that an evaluation makes, in any frame and any turn of any fixpoint around (`Comes.result_eq_alone`).

Two steps concur if they give the same from any two faithful runs and leave these faithful (`Concur`). Computing a node concurs with
computing it by other means, if the nodes that it asks for do (`compute_concurs`), and the rank of nodes carries the induction.
-/

namespace ModalGraph

open Formula

namespace Evaluator

/-- Two steps give the same result from any two faithful runs, and leave faithful runs. -/
def Concur {α : Type} (t : Task) (scope : Scope) (act act' : Eval α) : Prop :=
  ∀ r r', Faithful t scope r → Faithful t scope r' →
    (act.run r).1 = (act'.run r').1 ∧ Faithful t scope (act.run r).2 ∧ Faithful t scope (act'.run r').2

namespace Concur

variable {t : Task} {scope : Scope} {α β : Type} {act act' : Eval α}

theorem pure (a : α) : Concur t scope (Pure.pure a) (Pure.pure a) :=
  fun _ _ hr hr' => ⟨rfl, hr, hr'⟩

theorem throw (f : Failure) : Concur t scope (MonadExcept.throw f : Eval α) (MonadExcept.throw f) :=
  fun _ _ hr hr' => ⟨rfl, hr, hr'⟩

/-- A result taken as a step. -/
theorem lift (x : Except Failure α) : Concur t scope (liftM x) (liftM x) := by
  intro r r' hr hr'
  rw [run_lift, run_lift]
  exact ⟨rfl, hr, hr'⟩

theorem bind {f f' : α → Eval β} (h : Concur t scope act act') (hf : ∀ a, Concur t scope (f a) (f' a)) :
    Concur t scope (act >>= f) (act' >>= f') := by
  intro r r' hr hr'
  have hact := h r r' hr hr'
  rw [run_bind, run_bind]
  rcases hrun : act.run r with ⟨x, r₁⟩
  rcases hrun' : act'.run r' with ⟨x', r₁'⟩
  rw [hrun, hrun'] at hact
  obtain ⟨rfl, hr₁, hr₁'⟩ := hact
  cases x with
  | error e => exact ⟨rfl, hr₁, hr₁'⟩
  | ok a => exact hf a r₁ r₁' hr₁ hr₁'

theorem checkLive : Concur t scope checkLive checkLive := by
  intro r r' hr hr'
  rw [run_checkLive hr.live, run_checkLive hr'.live]
  exact ⟨rfl, hr, hr'⟩

theorem report (ev : Event) :
    Concur t scope (modify fun r => { r with events := ev :: r.events }) (modify fun r => { r with events := ev :: r.events }) :=
  fun _ _ hr hr' => ⟨rfl, ⟨hr.live, hr.closed, hr.current⟩, ⟨hr'.live, hr'.closed, hr'.current⟩⟩

end Concur

/-- An iteration of its own starts with what is kept until the end. -/
theorem Faithful.inner {t : Task} {scope : Scope} {r : Run} (h : Faithful t scope r) (inner : Scope) :
    Faithful t inner { r with current := [] } :=
  ⟨h.live, h.closed, nofun⟩

/-- After an iteration of its own the labels kept before are there again, and what is kept until the end depends on no variable. -/
theorem Faithful.outer {t : Task} {scope inner : Scope} {r r' : Run} (h : Faithful t scope r) (h' : Faithful t inner r') :
    Faithful t scope { r' with current := r.current } :=
  ⟨h'.live, h'.closed, h.current⟩

namespace Concur

variable {t : Task} {scope : Scope} {α β : Type} {act act' : Eval α}

/-- Steps in iterations of their own, under other labels of variables. -/
theorem inIteration {inner : Scope} (h : Concur t inner act act') :
    Concur t scope (Evaluator.inIteration act) (Evaluator.inIteration act') := by
  intro r r' hr hr'
  obtain ⟨heq, hr₁, hr₁'⟩ := h _ _ (hr.inner inner) (hr'.inner inner)
  rw [run_inIteration, run_inIteration]
  exact ⟨heq, hr.outer hr₁, hr'.outer hr₁'⟩

/-- The same two steps for each of some nodes. -/
theorem mapM {f f' : Nat → Eval Tensor} {ids : List Nat} (h : ∀ i ∈ ids, Concur t scope (f i) (f' i)) :
    Concur t scope (ids.mapM f) (ids.mapM f') := by
  induction ids with
  | nil => exact pure []
  | cons i ids ih =>
    rw [List.mapM_cons, List.mapM_cons]
    refine (h i List.mem_cons_self).bind fun x => ?_
    exact (ih fun j hj => h j (List.mem_cons_of_mem i hj)).bind fun xs => pure (x :: xs)

/-- Iterations whose turns concur. -/
theorem iterate {key : Bytes} {limit : Nat} {step step' : Tensor → Eval Tensor} (h : ∀ x, Concur t scope (step x) (step' x))
    (remaining : Nat) :
    ∀ x, Concur t scope (Evaluator.iterate key limit step remaining x) (Evaluator.iterate key limit step' remaining x) := by
  induction remaining with
  | zero => exact fun x => checkLive.bind fun _ => throw _
  | succ remaining ih =>
    intro x
    rw [Evaluator.iterate, Evaluator.iterate]
    refine checkLive.bind fun _ => (h x).bind fun y => ?_
    by_cases heq : y.equal x = true
    · rw [if_pos heq, if_pos heq]
      exact pure _
    · rw [if_neg heq, if_neg heq]
      exact ih y

/-- Turns of a fixpoint whose bodies concur. -/
theorem bodyStep {ask ask' : Scope → Nat → Eval Tensor} {b : Binder} {body : Nat}
    (h : ∀ x, Concur t ((b.var, x) :: scope) (ask ((b.var, x) :: scope) body) (ask' ((b.var, x) :: scope) body)) (x : Tensor) :
    Concur t scope (Evaluator.bodyStep t ask scope b body x) (Evaluator.bodyStep t ask' scope b body x) := by
  refine (inIteration (h x)).bind fun y => ?_
  exact (lift (checkBody t b _ y)).bind fun _ => pure y

end Concur

section

variable {s : Scene} {es : List Compiler.Entry} {t : Task} {scope : Scope} {n : Node}

/-- The psi of a node does not make the caller give up. -/
theorem psi_calm (h : Plays s es t) (hn : t.model.node? n.id = some n) (hkind : n.kind = .psi) {psi : Psi}
    (hop : n.operators = .psi psi) : psi.interrupts = false := by
  obtain ⟨m, rfl, hm⟩ := stands_of_node? h hn
  have hbuilt := h.ledger.built (List.mem_of_getElem? hm.1)
  generalize m.term = u at hbuilt
  cases hbuilt with
  | @psi _ name arg _ _ _ hget _ _ hop' =>
    cases hop.symm.trans hop'
    exact h.calm name arg psi hget
  | input hk | concat _ hk | diamond _ _ _ _ hk | var _ hk | fix _ _ _ hk => cases hkind.symm.trans hk

/-- Computing a node concurs with computing it by other means of asking for nodes, if these concur. -/
theorem compute_concurs (h : Plays s es t) (hn : t.model.node? n.id = some n) {ask ask' : Scope → Nat → Eval Tensor}
    (hask : ∀ i ∈ n.deps, ∀ inner, Concur t inner (ask inner i) (ask' inner i)) :
    Concur t scope (compute t ask scope n) (compute t ask' scope n) := by
  have hinputs : ∀ i ∈ n.inputs, Concur t scope (ask scope i) (ask' scope i) := fun i hi =>
    hask i (List.mem_append_left _ hi) scope
  unfold compute
  cases hkind : n.kind with
  | input => exact Concur.pure t.input.x
  | psi =>
    dsimp only
    split
    · rename_i i psi hin hop
      refine (hinputs i (by rw [hin]; exact List.mem_singleton_self i)).bind fun x => ?_
      rw [psi_calm h hn hkind hop]
      exact Concur.lift (applyPsi t n psi x)
    · exact Concur.throw .aborted
  | concat => exact (Concur.mapM hinputs).bind fun parts => Concur.lift (Tensor.concat parts)
  | diamond =>
    dsimp only
    split
    · rename_i i phi sigma hin hop
      refine (hinputs i (by rw [hin]; exact List.mem_singleton_self i)).bind fun x => ?_
      exact Concur.lift (applyDiamond t n phi sigma x)
    · exact Concur.throw .aborted
  | «variable» =>
    dsimp only
    cases scope.lookup n.key with
    | none => exact Concur.throw _
    | some v => exact Concur.pure v
  | fixpoint =>
    dsimp only
    split
    · rename_i b body hb hbody
      have hturn : ∀ x, Concur t scope (bodyStep t ask scope b body x) (bodyStep t ask' scope b body x) :=
        Concur.bodyStep fun x => hask body (by simp [Node.deps, hbody]) ((b.var, x) :: scope)
      refine (Concur.lift (t.start b)).bind fun x₀ => ?_
      exact (Concur.iterate hturn _ x₀).bind fun p => (Concur.report _).bind fun _ => Concur.pure p.1
    · exact Concur.throw .aborted
  | other code => exact Concur.throw _

/-- The labels kept for a node are what it gives on its own. -/
theorem Faithful.known {r : Run} (hr : Faithful t scope r) {v : Tensor} (hv : r.known n = some v) : alone t scope n.id = .ok v := by
  rw [Run.known] at hv
  split at hv
  · exact hr.closed hv scope
  · exact hr.current hv

/-- The labels that a node gives on its own kept for it. -/
theorem Faithful.keep (h : Plays s es t) (hn : t.model.node? n.id = some n) {r : Run} (hr : Faithful t scope r) {v : Tensor}
    (hv : alone t scope n.id = .ok v) : Faithful t scope (r.keep n v) := by
  obtain ⟨m, rfl, hm⟩ := stands_of_node? h hn
  have hvalue := outcome_eq_ok.mp ((alone_outcome h hm).symm.trans (outcome_eq_ok.mpr hv))
  exact (sound_iff_faithful h).mp (((sound_iff_faithful h).mpr hr).keep h hm hvalue)

/-- On its own a node is computed. -/
theorem alone_eq_compute (hn : t.model.node? n.id = some n) :
    alone t scope n.id = ((compute t (eval t t.model.nodes.length) scope n).run {}).1 := by
  rw [alone, eval_unknown hn (known_start n)]
  rcases (compute t (eval t t.model.nodes.length) scope n).run {} with ⟨a | v, r⟩
  · rfl
  · rfl

/-- In the middle of an evaluation a node gives what it gives on its own, labels or a failure, and leaves a faithful run. -/
theorem eval_eq_alone (h : Plays s es t) (rank : Nat) : ∀ {i : Nat} {n : Node} {fuel : Nat} {scope : Scope} {r : Run},
    t.model.node? i = some n → t.model.rank i = rank → rank < fuel → Faithful t scope r →
      ((eval t fuel scope i).run r).1 = alone t scope i ∧ Faithful t scope ((eval t fuel scope i).run r).2 := by
  induction rank using Nat.strong_induction_on with
  | _ rank ih =>
    intro i n fuel scope r hn hrank hfuel hr
    obtain ⟨fuel, rfl⟩ := Nat.exists_eq_add_one_of_ne_zero (Nat.ne_of_gt (Nat.zero_lt_of_lt hfuel))
    obtain ⟨m, rfl, hm⟩ := stands_of_node? h hn
    obtain rfl : m.node.id = i := h.ledger.id hm.1
    -- Whatever fuel there is, the nodes that are asked for give what they give on their own.
    have hask : ∀ j ∈ m.node.deps, ∀ inner, Concur t inner (eval t fuel inner j) (eval t t.model.nodes.length inner j) := by
      intro j hj inner r₁ r₂ hr₁ hr₂
      obtain ⟨⟨n', hn'⟩, hlt⟩ := h.holds.deps_rank h.ledger.ordered hn hj
      have hle := t.model.rank_le m.node.id
      obtain ⟨heq₁, hfaithful₁⟩ := ih _ (hrank ▸ hlt) hn' rfl (by omega : t.model.rank j < fuel) hr₁
      obtain ⟨heq₂, hfaithful₂⟩ := ih _ (hrank ▸ hlt) hn' rfl (by omega : t.model.rank j < t.model.nodes.length) hr₂
      exact ⟨heq₁.trans heq₂.symm, hfaithful₁, hfaithful₂⟩
    cases hknown : r.known m.node with
    | some v =>
      rw [eval_known hn hknown]
      exact ⟨(hr.known hknown).symm, hr⟩
    | none =>
      obtain ⟨heq, hr', -⟩ := compute_concurs h hn hask r {} hr (Faithful.start t scope)
      rw [← alone_eq_compute hn] at heq
      rw [eval_unknown hn hknown]
      rcases hrun : (compute t (eval t fuel) scope m.node).run r with ⟨a | v, r'⟩
      · rw [hrun] at heq hr'
        exact ⟨heq, hr'⟩
      · rw [hrun] at heq hr'
        exact ⟨heq, hr'.keep h hn heq.symm⟩

/-- The same node asked for with different fuel. -/
theorem eval_concurs (h : Plays s es t) {i : Nat} (hn : t.model.node? i = some n) {fuel fuel' : Nat} (hfuel : t.model.rank i < fuel)
    (hfuel' : t.model.rank i < fuel') : Concur t scope (eval t fuel scope i) (eval t fuel' scope i) := by
  intro r r' hr hr'
  obtain ⟨heq, hfaithful⟩ := eval_eq_alone h _ hn rfl hfuel hr
  obtain ⟨heq', hfaithful'⟩ := eval_eq_alone h _ hn rfl hfuel' hr'
  exact ⟨heq.trans heq'.symm, hfaithful, hfaithful'⟩

/-! ## Calls -/

/-- What the turns of an iteration keep up holds at every turn that it comes to. -/
theorem ComesToTurn.preserves {step : Tensor → Eval Tensor} {P : Run → Prop}
    (hlive : ∀ {r r'}, P r → Evaluator.checkLive.run r = (.ok (), r') → P r')
    (hstep : ∀ {x y r r'}, P r → (step x).run r = (.ok y, r') → P r') {remaining : Nat} {x y : Tensor} {r r' : Run}
    (h : ComesToTurn step remaining x r y r') (hr : P r) : P r' := by
  induction h with
  | here hasked => exact hlive hr hasked
  | later hasked hrun _ _ ih => exact ih (hstep (hlive hr hasked) hrun)

theorem Asks.mem_deps {ask : Scope → Nat → Eval Tensor} {inner : Scope} {i : Nat} {r r' : Run} (h : Asks t ask scope n r inner i r') :
    i ∈ n.deps := by
  cases h with
  | psi _ hin | diamond _ hin | part _ hin => simp [Node.deps, hin]
  | body _ _ hbody _ _ => simp [Node.deps, hbody]

/-- The nodes that computing a node asks for are asked for from faithful runs. -/
theorem Asks.faithful (h : Plays s es t) (hn : t.model.node? n.id = some n) {fuel : Nat} (hfuel : t.model.rank n.id < fuel + 1) {r r' : Run}
    (hr : Faithful t scope r) {inner : Scope} {i : Nat} (hasks : Asks t (eval t fuel) scope n r inner i r') : Faithful t inner r' := by
  have hconcur : ∀ j ∈ n.deps, ∀ inner, Concur t inner (eval t fuel inner j) (eval t fuel inner j) := by
    intro j hj inner
    obtain ⟨⟨n', hn'⟩, hlt⟩ := h.holds.deps_rank h.ledger.ordered hn hj
    exact eval_concurs h hn' (by omega) (by omega)
  cases hasks with
  | psi => exact hr
  | diamond => exact hr
  | @part before after i xs r' _ hin hrun =>
    have hbefore : Concur t scope (before.mapM (eval t fuel scope)) (before.mapM (eval t fuel scope)) :=
      Concur.mapM fun j hj => hconcur j (List.mem_append_left _ (hin ▸ List.mem_append_left _ hj)) scope
    have hafter := (hbefore r r hr hr).2.1
    rwa [hrun] at hafter
  | @body b _ x₀ x r' _ hb hbody _ hturn =>
    refine (hturn.preserves (P := Faithful t scope) (fun {r r'} hr hasked => ?_) (fun {x y r r'} hr hrun => ?_) hr).inner _
    · rw [run_checkLive hr.live] at hasked
      obtain rfl : r = r' := congrArg Prod.snd hasked
      exact hr
    have hturn := Concur.bodyStep (fun x => hconcur i (by simp [Node.deps, hbody]) ((b.var, x) :: scope)) x
    have hafter := (hturn r r hr hr).2.1
    rwa [hrun] at hafter

/-- Every call of an evaluation is for a node of the model, with enough fuel, and from a faithful run. -/
theorem Comes.faithful (h : Plays s es t) {c : Call} (hc : Comes t c) :
    (∃ n, t.model.node? c.id = some n) ∧ t.model.rank c.id < c.fuel ∧ Faithful t c.scope c.run := by
  induction hc with
  | start => exact ⟨h.holds.output_some, Nat.lt_succ_of_le (t.model.rank_le _), Faithful.start t []⟩
  | @asked fuel id i scope inner r r' n _ hn _ hasks ih =>
    obtain ⟨-, hrank, hr⟩ := ih
    dsimp only at hrank hr ⊢
    obtain ⟨m, rfl, hm⟩ := stands_of_node? h hn
    obtain rfl : m.node.id = id := h.ledger.id hm.1
    obtain ⟨hn', hlt⟩ := h.holds.deps_rank h.ledger.ordered hn hasks.mem_deps
    exact ⟨hn', by omega, hasks.faithful h hn hrank hr⟩

/-- Every call of an evaluation gives what its node gives on its own. -/
theorem Comes.result_eq_alone (h : Plays s es t) {c : Call} (hc : Comes t c) : (c.result t).1 = alone t c.scope c.id := by
  obtain ⟨⟨n, hn⟩, hfuel, hr⟩ := hc.faithful h
  exact (eval_eq_alone h _ hn rfl hfuel hr).1

end

end Evaluator

end ModalGraph
