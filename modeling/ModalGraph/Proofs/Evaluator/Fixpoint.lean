import ModalGraph.Proofs.Evaluator.Refinement
import ModalGraph.Proofs.Tensor.Truth

/-!
# Fixpoints over truth values

A base of truth values starts a least fixpoint from 0 and a greatest one from 1, at every node and in every feature. If the body of
such a fixpoint, evaluated on its own, is a monotone function of the labels of its variable, then the iteration moves in one direction
and has settled after at most as many turns as there are labels, and one more to notice it; the default limit is never less. It
settles at the least, or the greatest, labels that the body does not change (`fixpoint_settles`). Where there is no room for the labels
that it starts from, the body is not evaluated at all. This holds in the middle of an evaluation as well, whatever labels are kept at that
point: those kept for a node are what it gives when evaluated on its own (`Faithful`), and evaluating more nodes keeps it so
(`eval_alone`).
-/

namespace ModalGraph

open Formula

/-! ## Bases of truth values -/

/-- A base of `w` truth values: 0 at the bottom and 1 at the top, as far as these are set. -/
structure Base.IsTruth (w : Nat) (b : Base) : Prop where
  width_eq : b.width = w
  dtype_eq : b.dtype = .bool
  bottom : ∀ vs ∈ b.bottom, ∀ v ∈ vs, v.isZero = true
  top : ∀ vs ∈ b.top, ∀ v ∈ vs, v = Label.one

theorem Base.bool_isTruth (w : Nat) : (Base.bool w).IsTruth w := by
  refine ⟨rfl, rfl, ?_, ?_⟩
  · rintro vs ⟨⟩ v hv
    obtain rfl := List.mem_singleton.mp hv
    decide
  · rintro vs ⟨⟩ v hv
    exact List.mem_singleton.mp hv

/-- The labels at every node that a fixpoint over truth values starts from. -/
def truthStart (n w : Nat) (least : Bool) : Tensor :=
  Tensor.full n (List.replicate w (Label.ofBool !least)) .bool

section

variable {n w : Nat} {least : Bool}

theorem Base.IsTruth.cast_start {b : Base} (hb : b.IsTruth w) {vs : List Label} (hvs : b.start least = some vs) :
    ∀ v ∈ vs, DType.cast .bool v = Label.ofBool !least := by
  intro v hv
  rw [Base.start] at hvs
  cases least with
  | true => rw [DType.cast, hb.bottom vs hvs v hv]
  | false =>
    rw [DType.cast, hb.top vs hvs v hv]
    rfl

/-- The row that a fixpoint over truth values starts from. -/
theorem Base.IsTruth.init_eq {b : Base} (hb : b.IsTruth w) {row : List Label} (h : b.init least = .ok row) :
    row = List.replicate w (Label.ofBool !least) := by
  have hlen := Base.length_init h
  obtain ⟨hnone, rfl⟩ := Base.init_eq_ok.mp h
  obtain ⟨vs, hvs, -⟩ := Base.initFault?_eq_none.mp hnone
  rw [hb.width_eq] at hlen
  refine List.eq_replicate_iff.mpr ⟨by exact_mod_cast hlen, fun v hv => ?_⟩
  rw [hvs, Option.getD_some] at hv
  obtain ⟨u, hu, rfl⟩ := Base.mem_rowOf hv
  rw [hb.dtype_eq]
  exact hb.cast_start hvs u hu

theorem truthStart_data : (truthStart n w least).data = Array.replicate (n * w) (Label.ofBool !least) := by
  have hcast : DType.cast .bool (Label.ofBool !least) = Label.ofBool !least := by
    rw [DType.cast, Label.isZero_ofBool, Bool.not_not]
  rw [truthStart, Tensor.full_natCast, Tensor.ofRows, List.map_replicate, hcast, List.flatten_replicate_replicate, List.toArray_replicate]

theorem truthStart_isTruth : (truthStart n w least).IsTruth n w := by
  refine ⟨⟨?_, ?_, ?_⟩, ?_⟩
  · exact Tensor.full_rows _ _ _
  · rw [truthStart, Tensor.full_cols, List.length_replicate]
  · simp [truthStart_data]
  · intro v hv
    rw [truthStart_data] at hv
    obtain ⟨_, rfl⟩ := Array.mem_replicate.mp hv
    exact Label.isTruth_ofBool _

/-- From the start every way leads in the direction of the fixpoint. -/
theorem truthStart_toward {x : Tensor} (hx : x.IsTruth n w) : (truthStart n w least).Toward least x := by
  refine (truthStart_isTruth.toward_iff hx).mpr fun k hk h => ?_
  rw [Tensor.truth, truthStart_data] at h
  simp [hk] at h

end

namespace Evaluator

/-! ## Nodes evaluated on their own -/

/-- The labels of a node, evaluated from the start of a run. -/
def alone (t : Task) (scope : Scope) (id : Nat) : Except Failure Tensor :=
  ((eval t (t.model.nodes.length + 1) scope id).run {}).1

/-- A run in which every label kept is what its node gives when evaluated on its own: for nodes without free variables under any
labels of variables, for the others under the labels in scope. -/
structure Faithful (t : Task) (scope : Scope) (r : Run) : Prop where
  live : r.patience = .endless
  closed : ∀ {i v}, r.closed.lookup i = some v → ∀ scope', alone t scope' i = .ok v
  current : ∀ {i v}, r.current.lookup i = some v → alone t scope i = .ok v

theorem Faithful.start (t : Task) (scope : Scope) : Faithful t scope {} :=
  ⟨rfl, nofun, nofun⟩

section

variable {s : Scene} {es : List Compiler.Entry} {t : Task} {scope : Scope}

/-- A node evaluated on its own gives the value of its term. -/
theorem alone_outcome (h : Plays s es t) {i : Nat} {m : Compiler.Entry} (hm : Stands es t i m) :
    outcome (alone t scope i) = outcome (m.term.value s scope) := by
  have hid := h.ledger.id hm.1
  subst hid
  have hgives := eval_gives h (t.model.nodes.length + 1) scope (List.mem_of_getElem? hm.1) ⟨_, hm.2⟩
    (Nat.lt_succ_of_le (t.model.rank_le _))
  exact (hgives {} (Sound.start s es t scope)).1

theorem stands_of_node? (h : Plays s es t) {i : Nat} {n : Node} (hn : t.model.node? i = some n) :
    ∃ m, m.node = n ∧ Stands es t i m := by
  obtain ⟨m, hm, rfl⟩ := Option.map_eq_some_iff.mp (h.holds.table_eq hn)
  exact ⟨m, rfl, hm, hn⟩

/-- Only a number of the model gives labels. -/
theorem stands_of_alone (h : Plays s es t) {i : Nat} {v : Tensor} (hv : alone t scope i = .ok v) : ∃ m, Stands es t i m := by
  cases hn : t.model.node? i with
  | none =>
    rw [alone, eval, hn] at hv
    cases hv
  | some n =>
    obtain ⟨m, _, hm⟩ := stands_of_node? h hn
    exact ⟨m, hm⟩

theorem sound_iff_faithful (h : Plays s es t) {r : Run} : Sound s es t scope r ↔ Faithful t scope r := by
  constructor
  · intro hr
    refine ⟨hr.live, fun hlook scope' => ?_, fun hlook => ?_⟩
    · obtain ⟨m, hm, hvalue⟩ := hr.closed hlook
      exact outcome_eq_ok.mp ((alone_outcome h hm).trans (outcome_eq_ok.mpr (hvalue scope')))
    · obtain ⟨m, hm, hvalue⟩ := hr.current hlook
      exact outcome_eq_ok.mp ((alone_outcome h hm).trans (outcome_eq_ok.mpr hvalue))
  · intro hr
    refine ⟨hr.live, fun hlook => ?_, fun hlook => ?_⟩
    · obtain ⟨m, hm⟩ := stands_of_alone h (hr.closed hlook [])
      refine ⟨m, hm, fun scope' => ?_⟩
      exact outcome_eq_ok.mp ((alone_outcome h hm).symm.trans (outcome_eq_ok.mpr (hr.closed hlook scope')))
    · obtain ⟨m, hm⟩ := stands_of_alone h (hr.current hlook)
      refine ⟨m, hm, ?_⟩
      exact outcome_eq_ok.mp ((alone_outcome h hm).symm.trans (outcome_eq_ok.mpr (hr.current hlook)))

/-- In the middle of an evaluation a node gives the same labels as on its own, and the run stays faithful. -/
theorem eval_alone (h : Plays s es t) {i fuel : Nat} {n : Node} (hn : t.model.node? i = some n) (hfuel : t.model.rank i < fuel)
    {r : Run} (hr : Faithful t scope r) {v : Tensor} (hv : alone t scope i = .ok v) :
    ∃ r', (eval t fuel scope i).run r = (.ok v, r') ∧ Faithful t scope r' := by
  obtain ⟨m, rfl, hm⟩ := stands_of_node? h hn
  have hid := h.ledger.id hm.1
  subst hid
  obtain ⟨hout, hsound⟩ := eval_gives h fuel scope (List.mem_of_getElem? hm.1) ⟨_, hn⟩ hfuel r ((sound_iff_faithful h).mpr hr)
  rw [← alone_outcome h hm, hv, outcome_ok, outcome_eq_ok] at hout
  exact ⟨_, Prod.ext hout rfl, (sound_iff_faithful h).mp (hsound v hout)⟩

/-- The same in an iteration of its own. -/
theorem inIteration_alone (h : Plays s es t) {i fuel : Nat} {n : Node} (hn : t.model.node? i = some n)
    (hfuel : t.model.rank i < fuel) {inner : Scope} {r : Run} (hr : Faithful t scope r) {v : Tensor}
    (hv : alone t inner i = .ok v) : ∃ r', (inIteration (eval t fuel inner i)).run r = (.ok v, r') ∧ Faithful t scope r' := by
  have hfresh : Faithful t inner { r with current := [] } := ⟨hr.live, hr.closed, nofun⟩
  obtain ⟨r', hrun, hr'⟩ := eval_alone h hn hfuel hfresh hv
  refine ⟨{ r' with current := r.current }, ?_, hr'.live, hr'.closed, hr.current⟩
  rw [run_inIteration, hrun]

end

/-! ## Turns of an iteration -/

/-- `k` evaluations of a body, each on the labels that the one before gave. -/
inductive Turns (turn : Tensor → Eval Tensor) : Nat → Tensor → Run → Tensor → Run → Prop where
  | none (x : Tensor) (r : Run) : Turns turn 0 x r x r
  | next {k : Nat} {x y z : Tensor} {r r' r'' : Run} :
      (turn x).run r = (.ok y, r') → Turns turn k y r' z r'' → Turns turn (k + 1) x r z r''

/-- One turn of an iteration: the body, and a check of its shape. -/
def turnStep (t : Task) (b : Binder) (width : Nat) (turn : Tensor → Eval Tensor) (x : Tensor) : Eval Tensor := do
  let next ← turn x
  liftM (checkBody t b width next)
  return next

section

variable {t : Task} {b : Binder} {n w : Nat} {turn : Tensor → Eval Tensor} {f : Tensor → Tensor} {P : Run → Prop}

theorem turnStep_run (hnodes : t.nodes = n) {x y : Tensor} (hy : y.IsTruth n w) {r r' : Run} (h : (turn x).run r = (.ok y, r')) :
    (turnStep t b w turn x).run r = (.ok y, r') := by
  have hcheck : checkBody t b w y = .ok () := by
    rw [checkBody, hnodes, hy.rows_eq, hy.cols_eq, if_neg (by simp)]
  rw [turnStep, run_bind_ok h, hcheck]
  rfl

/-- An iteration over truth values whose turns give a function of their labels takes turns until the function stands still, and one
turn more. -/
theorem iterate_run (hnodes : t.nodes = n) (hf : ∀ x, x.IsTruth n w → (f x).IsTruth n w) (hlive : ∀ r, P r → r.patience = .endless)
    (hturn : ∀ x r, x.IsTruth n w → P r → ∃ r', (turn x).run r = (.ok (f x), r') ∧ P r') (key : Bytes) (limit : Nat) {k : Nat} :
    ∀ {remaining : Nat} {x : Tensor} {r : Run}, x.IsTruth n w → P r → k < remaining →
      (∀ i < k, (f^[i + 1] x).equal (f^[i] x) = false) → (f^[k + 1] x).equal (f^[k] x) = true →
      ∃ r', Turns turn (k + 1) x r (f^[k + 1] x) r' ∧ P r' ∧
        (iterate key limit (turnStep t b w turn) remaining x).run r = (.ok (f^[k] x, limit - (remaining - (k + 1))), r') := by
  induction k with
  | zero =>
    intro remaining x r hx hr hlt _ hat
    obtain ⟨r', hrun, hr'⟩ := hturn x r hx hr
    obtain ⟨remaining, rfl⟩ := Nat.exists_eq_add_one_of_ne_zero (Nat.ne_of_gt hlt)
    refine ⟨r', .next hrun (.none _ _), hr', ?_⟩
    rw [iterate, run_bind_ok (run_checkLive (hlive r hr)), run_bind_ok (turnStep_run hnodes (hf x hx) hrun),
      if_pos (show (f x).equal x = true from hat)]
    rfl
  | succ k ih =>
    intro remaining x r hx hr hlt hbefore hat
    obtain ⟨r', hrun, hr'⟩ := hturn x r hx hr
    obtain ⟨remaining, rfl⟩ := Nat.exists_eq_add_one_of_ne_zero (Nat.ne_of_gt (Nat.zero_lt_of_lt hlt))
    obtain ⟨r'', hturns, hr'', hiter⟩ := ih (hf x hx) hr' (Nat.lt_of_succ_lt_succ hlt)
      (fun i hi => hbefore (i + 1) (Nat.succ_lt_succ hi)) hat
    refine ⟨r'', .next hrun hturns, hr'', ?_⟩
    have hmoved : (f x).equal x = false := hbefore 0 (Nat.succ_pos k)
    rw [iterate, run_bind_ok (run_checkLive (hlive r hr)), run_bind_ok (turnStep_run hnodes (hf x hx) hrun), hmoved]
    refine hiter.trans ?_
    rw [Nat.add_sub_add_right]
    rfl

end

/-- The node of a fixpoint: where its body is, and the row that its base starts it from. -/
theorem fixpoint_node {s : Scene} {es : List Compiler.Entry} {t : Task} (h : Plays s es t) {node : Node} {b : Binder} {body : Nat}
    (hnode : t.model.node? node.id = some node) (hkind : node.kind = .fixpoint) (hb : node.binder = some b)
    (hbody : node.body = some body) :
    ∃ base row, s.settings.base? b.base = some base ∧ base.init b.least = .ok row ∧ b.init = some row ∧ b.dtype = base.dtype ∧
      (∃ n, t.model.node? body = some n) ∧ t.model.rank body < t.model.rank node.id := by
  obtain ⟨m, rfl, hm⟩ := stands_of_node? h hnode
  have hdep := h.holds.deps_rank h.ledger.ordered hnode (d := body) (by rw [Node.deps, hbody]; simp)
  suffices ∃ base row, s.settings.base? b.base = some base ∧ base.init b.least = .ok row ∧ b.init = some row ∧
      b.dtype = base.dtype by
    obtain ⟨base, row, h₁, h₂, h₃, h₄⟩ := this
    exact ⟨base, row, h₁, h₂, h₃, h₄, hdep⟩
  rcases h.ledger.made hm.1 with rfl | ⟨n, hmade, heq⟩
  · cases hkind
  rw [heq] at hkind hb
  generalize m.term = u at hmade
  cases hmade with
  | psi _ hn => simp [(Compiler.atomNode_ok hn).choose_spec.2.1] at hkind
  | concat => cases hkind
  | diamond _ _ hn => simp [(Compiler.diamondNode_ok hn).choose_spec.choose_spec.2.2.1] at hkind
  | var => cases hkind
  | @fix b' depth least init _ _ _ _ _ hbase =>
    obtain rfl := Option.some.inj hb
    obtain ⟨hsome, hinit⟩ := Compiler.base?_of_fixpointBase hbase
    exact ⟨b'.base, init, hsome, hinit, rfl, rfl⟩

end Evaluator

open Evaluator

/-- What a fixpoint over truth values starts from, if there is room for it. -/
theorem start_truth {t : Task} {b : Binder} {n w : Nat} (hnodes : t.nodes = n)
    (hrow : b.init = some (List.replicate w (Label.ofBool !b.least))) (hdtype : b.dtype = .bool) (hroom : Tensor.Storable n w) :
    t.start b = .ok (truthStart n w b.least) := by
  rw [Task.start, hrow, Option.getD_some, hnodes, hdtype, Tensor.full?_eq (by rwa [List.length_replicate])]
  rfl

/-- Without that room there is nothing to start from. -/
theorem start_without_room {t : Task} {b : Binder} {n w : Nat} (hnodes : t.nodes = n)
    (hrow : b.init = some (List.replicate w (Label.ofBool !b.least))) (hroom : ¬ Tensor.Storable n w) :
    t.start b = .error .aborted := by
  rw [Task.start, hrow, Option.getD_some, hnodes, Tensor.full?_eq_none (by rw [List.length_replicate]; exact Nat.not_le.mp hroom)]
  rfl

/-- A fixpoint with nothing to start from breaks off before its body is evaluated. -/
theorem fixpoint_breaksOff {t : Task} {b : Binder} (h : t.start b = .error .aborted) (ask : Scope → Nat → Eval Tensor) (scope : Scope)
    (node : Node) (body : Nat) (r : Run) : (fixpoint t ask scope node b body).run r = (.error .aborted, r) := by
  rw [fixpoint, run_bind, run_lift, h]

/-- A fixpoint over truth values whose body, on its own, is a monotone function of its variable's labels. If there is room for the labels
that it starts from, then under the default limit it evaluates its body at most once more than there are labels, each time moving on in
its direction, and gives the least (or the greatest) truth values that the body does not change. Without that room it breaks off
before its body is evaluated at all. -/
theorem fixpoint_settles {ops : Registries} {settings : Settings} {c : Compiler} (hc : Compiler.Reachable ops settings c)
    (hcalm : ops.Calm) {e : Expr} {m : Model} (hm : c.Returns e m) {input : Input} {n w : Nat} (hnodes : input.nodes = n)
    {maxIterations : Int} (hdefault : maxIterations ≤ 0) {node : Node} {b : Binder} {body : Nat}
    (hnode : m.node? node.id = some node) (hkind : node.kind = .fixpoint) (hb : node.binder = some b) (hbody : node.body = some body)
    {base : Base} (hbase : settings.base? b.base = some base) (htruth : base.IsTruth w) {scope : Scope} {f : Tensor → Tensor}
    (hf : ∀ x, x.IsTruth n w → alone ⟨m, input, maxIterations⟩ ((b.var, x) :: scope) body = .ok (f x))
    (hascends : Tensor.Ascends n w f) {fuel : Nat} (hfuel : m.rank node.id ≤ fuel) {r : Run}
    (hr : Faithful ⟨m, input, maxIterations⟩ scope r) :
    (¬ Tensor.Storable n w → (fixpoint ⟨m, input, maxIterations⟩ (eval ⟨m, input, maxIterations⟩ fuel) scope node b body).run r =
      (.error .aborted, r)) ∧
    (Tensor.Storable n w → ∃ k ≤ n * w, ∃ r',
      (fixpoint ⟨m, input, maxIterations⟩ (eval ⟨m, input, maxIterations⟩ fuel) scope node b body).run r =
        (.ok (f^[k] (truthStart n w b.least)),
          { r' with events := .fixpointConverged node.key b.least (k + 1) :: r'.events }) ∧
      Turns (fun x => inIteration (eval ⟨m, input, maxIterations⟩ fuel ((b.var, x) :: scope) body)) (k + 1)
        (truthStart n w b.least) r (f^[k + 1] (truthStart n w b.least)) r' ∧
      (∀ i ≤ k, (f^[i] (truthStart n w b.least)).Toward b.least (f^[i + 1] (truthStart n w b.least))) ∧
      (f^[k] (truthStart n w b.least)).IsTruth n w ∧
      (f (f^[k] (truthStart n w b.least))).equal (f^[k] (truthStart n w b.least)) = true ∧
      ∀ y, y.IsTruth n w → (f y).equal y = true → (f^[k] (truthStart n w b.least)).Toward b.least y) := by
  obtain ⟨es, hplays, _⟩ := RefinementAux.returns_plays hc hcalm hm input maxIterations
  obtain ⟨base', row, hbase', hinit, hrow, hdtype, ⟨n', hn'⟩, hrank⟩ := fixpoint_node hplays hnode hkind hb hbody
  obtain rfl : base' = base := Option.some.inj (hbase'.symm.trans hbase)
  have hrow' := htruth.init_eq hinit
  subst hrow'
  have hn : Task.nodes ⟨m, input, maxIterations⟩ = n := hnodes
  refine ⟨fun hroom => ?_, fun hroom => ?_⟩
  · exact fixpoint_breaksOff (start_without_room hn hrow hroom) _ _ _ _ _
  have hstart : (truthStart n w b.least).IsTruth n w := truthStart_isTruth
  have hfirst : (truthStart n w b.least).Toward b.least (f (truthStart n w b.least)) :=
    truthStart_toward (hascends.isTruth _ hstart)
  obtain ⟨k, hk, hbefore, hat⟩ := hascends.exists_settled hstart hfirst
  have hk' : k ≤ n * w := hk.trans (Tensor.room_le _ _ _)
  have hlimit : k < Task.limit ⟨m, input, maxIterations⟩ w := by
    rw [Task.limit, if_neg (by simpa using hdefault), hn, Tensor.word_succ hroom]
    omega
  -- A turn evaluates the body in an iteration of its own, where it gives what it gives on its own.
  have hturn : ∀ x r, x.IsTruth n w → Faithful ⟨m, input, maxIterations⟩ scope r →
      ∃ r', (inIteration (eval ⟨m, input, maxIterations⟩ fuel ((b.var, x) :: scope) body)).run r = (.ok (f x), r') ∧
        Faithful ⟨m, input, maxIterations⟩ scope r' :=
    fun x r hx hr => inIteration_alone hplays hn' (Nat.lt_of_lt_of_le hrank hfuel) hr (hf x hx)
  obtain ⟨r', hturns, _, hiter⟩ := iterate_run (t := ⟨m, input, maxIterations⟩) (b := b) hnodes hascends.isTruth
    (fun _ hr => hr.live) hturn node.key (Task.limit ⟨m, input, maxIterations⟩ w) hstart hr hlimit hbefore hat
  refine ⟨k, hk', r', ?_, hturns, fun i _ => hascends.iterate_toward hstart hfirst i, hascends.iterate_isTruth hstart k, ?_, ?_⟩
  · have hsub : Task.limit ⟨m, input, maxIterations⟩ w - (Task.limit ⟨m, input, maxIterations⟩ w - (k + 1)) = k + 1 := by omega
    rw [hsub] at hiter
    have hfull : (liftM (Task.start ⟨m, input, maxIterations⟩ b) : Eval Tensor).run r = (.ok (truthStart n w b.least), r) := by
      rw [run_lift, start_truth hn hrow (hdtype.trans htruth.dtype_eq) hroom]
    rw [fixpoint, run_bind_ok hfull, hrow, Option.getD_some, List.length_replicate]
    refine (run_bind_ok hiter).trans ?_
    rw [run_bind_ok (run_change _ r'), run_return]
  · rw [← Function.iterate_succ_apply' f k]
    exact hat
  · intro y hy heq
    exact hascends.iterate_bounded hstart hy (truthStart_toward hy) ((hascends.isTruth y hy).toward_of_equal hy heq) k

namespace Sample

/-- A least fixpoint whose body is its variable. -/
def loop : Bytes :=
  Bytes.ofString "mu X,r.X"

/-- The least fixpoint, parsed. -/
def loopExpr : Expr :=
  .fix ⟨0, 1, 1⟩ true (Bytes.ofString "X") (Bytes.ofString "r") (.var ⟨7, 1, 8⟩ (Bytes.ofString "X"))

theorem loop_parsed : parse loop = .ok loopExpr := parse_of_same (by decide +kernel)

/-- The node of the sample fixpoint in a model that any compiler made of it. Its body gives the labels of its variable. -/
theorem loop_node {settings : Settings} {c : Compiler} (hc : Compiler.Reachable Builtin.registries settings c) {m : Model}
    (hm : (c.compile false loop).result = .ok m) (input : Input) :
    ∃ node b body, m.output = node.id ∧ m.node? node.id = some node ∧ node.kind = .fixpoint ∧ node.binder = some b ∧
      node.body = some body ∧ b.base = Bytes.ofString "r" ∧ ∀ x, alone ⟨m, input, 0⟩ [(b.var, x)] body = .ok x := by
  obtain ⟨es, hplays, out, hout, houtput, hterm, _⟩ :=
    RefinementAux.returns_plays hc Builtin.registries_calm (Compiler.Returns.text loop_parsed hm) input 0
  obtain ⟨node, hnode⟩ := hplays.holds.output_some
  obtain ⟨out', rfl, hstands⟩ := stands_of_node? hplays hnode
  have hid : out'.node.id = m.output := hplays.ledger.id hstands.1
  obtain rfl : out' = out := by
    have hout' := hplays.ledger.getElem?_id hout
    rw [← houtput] at hout'
    exact Option.some.inj (hstands.1.symm.trans hout')
  have hfix : Term.fix true 0 (Bytes.ofString "r") (.var 0 (Bytes.ofString "r")) = out'.term := Option.some.inj hterm
  rcases hplays.ledger.made hstands.1 with rfl | ⟨n, hmade, heq⟩
  · cases hfix
  generalize out'.term = u at hmade hfix
  cases hmade with
  | psi => cases hfix
  | concat => cases hfix
  | diamond => cases hfix
  | var => cases hfix
  | @fix b depth least init operand body hop hbody hkey hbase =>
    obtain ⟨rfl, rfl, hr, hvar⟩ := Term.fix.inj hfix
    have hmem : body ∈ es := List.mem_of_mem_take hbody
    refine ⟨out'.node, _, body.node.id, hid.symm, hid ▸ hnode, by rw [heq]; rfl, by rw [heq]; rfl, by rw [heq]; rfl, hr.symm, ?_⟩
    intro x
    obtain ⟨n', hn'⟩ := hplays.holds.deps_some hnode body.node.id (by rw [heq]; simp [Node.deps, Compiler.fixpointNode])
    obtain ⟨body', hnode', hstands'⟩ := stands_of_node? hplays hn'
    obtain rfl : body' = body := Option.some.inj (hstands'.1.symm.trans (hplays.ledger.getElem?_id hmem))
    refine outcome_eq_ok.mp ((alone_outcome hplays hstands').trans (outcome_eq_ok.mpr ?_))
    rw [← hvar, Term.value, hr, ← hkey]
    simp

/-- The model of the sample fixpoint. -/
def loopModel : Model :=
  (compiler.compile false loop).result.toOption.get (by decide +kernel)

theorem loop_compiled : (compiler.compile false loop).result = .ok loopModel :=
  ok_of_toOption (Option.some_get _).symm

/-- One feature for each node, and a base of 100000000 truth values. -/
def wideSettings : Settings :=
  ⟨⟨⟨.uint8, 1⟩, none, true, false⟩, [(Bytes.ofString "r", Base.bool 100000000)], 0⟩

/-- A new compiler for these settings. -/
def wideCompiler : Compiler :=
  Compiler.fresh Builtin.registries wideSettings

theorem wide_faultless : wideSettings.faults = [] := by decide +kernel

theorem wide_reachable : Compiler.Reachable Builtin.registries wideSettings wideCompiler :=
  .new (Compiler.new_of_faultless wide_faultless)

/-- The model of the sample fixpoint over truth values that wide. -/
def wideModel : Model :=
  (wideCompiler.compile false loop).result.toOption.get (by decide +kernel)

theorem wide_compiled : (wideCompiler.compile false loop).result = .ok wideModel :=
  ok_of_toOption (Option.some_get _).symm

theorem wide_base : wideSettings.base? (Bytes.ofString "r") = some (Base.bool 100000000) := by decide +kernel

/-- The row of truth values that the base starts its fixpoint from. -/
theorem wide_row {es : List Compiler.Entry} {t : Task} {input : Input} (h : Plays ⟨Builtin.registries, wideSettings, input, 0⟩ es t)
    {node : Node} {b : Binder} {body : Nat} (hnode : t.model.node? node.id = some node) (hkind : node.kind = .fixpoint)
    (hb : node.binder = some b) (hbody : node.body = some body) (hbase : b.base = Bytes.ofString "r") :
    b.init = some (List.replicate 100000000 (Label.ofBool !b.least)) ∧ b.dtype = .bool := by
  obtain ⟨base, row, hget, hinit, hrow, hdtype, -⟩ := fixpoint_node h hnode hkind hb hbody
  obtain rfl : base = Base.bool 100000000 := Option.some.inj ((hbase ▸ hget).symm.trans wide_base)
  exact ⟨hrow.trans (congrArg some ((Base.bool_isTruth 100000000).init_eq hinit)), hdtype⟩

/-- One node more than there is room for truth values that wide. -/
def manyNodes : Input :=
  ⟨⟨351844, 1, .uint8, Array.replicate 351844 Label.zero⟩, [], [], none, none⟩

end Sample

/-- The sample fixpoint gives 0 everywhere. -/
theorem fixpoint_settles_sample : ∃ node b body, ∃ k ≤ 2 * 1, ∃ r',
    (fixpoint ⟨Sample.loopModel, Sample.input, 0⟩ (eval ⟨Sample.loopModel, Sample.input, 0⟩ (Sample.loopModel.rank node.id)) [] node b
      body).run {} = (.ok (id^[k] (truthStart 2 1 b.least)), r') := by
  obtain ⟨node, b, body, -, hnode, hkind, hb, hbody, hbase, hf⟩ := Sample.loop_node Sample.reachable Sample.loop_compiled Sample.input
  have hsettings : Sample.settings.base? b.base = some (Base.bool 1) := by
    rw [hbase]
    decide +kernel
  have htruth : (Base.bool 1).IsTruth 1 := Base.bool_isTruth 1
  obtain ⟨k, hk, r', hrun, _⟩ := (fixpoint_settles Sample.reachable Builtin.registries_calm (.text Sample.loop_parsed Sample.loop_compiled)
    (n := 2) (w := 1) rfl (le_refl 0) hnode hkind hb hbody hsettings htruth (fun x _ => hf x) ⟨fun _ hx => hx, fun _ _ _ _ h => h⟩
    (le_refl _) (Faithful.start _ _)).2 (by decide)
  exact ⟨node, b, body, k, hk, _, hrun⟩

/-- With 351844 nodes and a base of 100000000 truth values there is no room for what a fixpoint starts from: it breaks off, although its
body, which is its variable, is monotone and gives every assignment of truth values back. -/
theorem fixpoint_without_room : ∃ node b body, Sample.wideModel.node? node.id = some node ∧ node.kind = .fixpoint ∧
    node.binder = some b ∧ node.body = some body ∧ Sample.wideSettings.base? b.base = some (Base.bool 100000000) ∧
    Sample.wideModel.spec.check (some Sample.manyNodes) = .ok Sample.manyNodes ∧ Sample.manyNodes.nodes = 351844 ∧
    (∀ x, x.IsTruth 351844 100000000 → alone ⟨Sample.wideModel, Sample.manyNodes, 0⟩ [(b.var, x)] body = .ok (id x)) ∧
    Tensor.Ascends 351844 100000000 id ∧
    (fixpoint ⟨Sample.wideModel, Sample.manyNodes, 0⟩
      (eval ⟨Sample.wideModel, Sample.manyNodes, 0⟩ (Sample.wideModel.rank node.id)) [] node b body).run {} = (.error .aborted, {}) := by
  obtain ⟨node, b, body, -, hnode, hkind, hb, hbody, hbase, hf⟩ :=
    Sample.loop_node Sample.wide_reachable Sample.wide_compiled Sample.manyNodes
  refine ⟨node, b, body, hnode, hkind, hb, hbody, hbase ▸ Sample.wide_base, check_of_isOk (by decide +kernel), rfl, fun x _ => hf x,
    ⟨fun _ hx => hx, fun _ _ _ _ h => h⟩, ?_⟩
  obtain ⟨es, hplays, -⟩ := RefinementAux.returns_plays Sample.wide_reachable Builtin.registries_calm
    (Compiler.Returns.text Sample.loop_parsed Sample.wide_compiled) Sample.manyNodes 0
  have hrow := (Sample.wide_row hplays hnode hkind hb hbody hbase).1
  exact fixpoint_breaksOff (start_without_room (n := 351844) rfl hrow (by decide)) _ _ _ _ _

end ModalGraph
