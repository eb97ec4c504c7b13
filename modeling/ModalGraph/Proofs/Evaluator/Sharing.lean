import ModalGraph.Proofs.Compiler.Shape
import ModalGraph.Proofs.Evaluator.Alone
import ModalGraph.Proofs.Evaluator.Computations

/-!
# No work is done twice

An evaluation reports a fixpoint as often as it computes it: the reports of a step and the fixpoints among what it computes are in
step (`Accounts`). Where an evaluation asks for a node, what it has computed before and what it computes then are parts of what it
computes altogether (`Comes.computations_eq`). As nothing is computed twice, an evaluation computes a node that depends on no variable
once, wherever it is asked for, and reports it once if it is a fixpoint (`computed_once`).
-/

namespace ModalGraph

/-- Whether a report says that the fixpoint of a key has settled. -/
def Event.settles (key : Bytes) : Event → Bool
  | .fixpointConverged k _ _ => k == key
  | _ => false

namespace Evaluator

/-! ## Reports of fixpoints -/

/-- Whether a computation is of the fixpoint of a key. -/
def Task.isFixpoint (t : Task) (key : Bytes) (e : Computation) : Bool :=
  (t.model.node? e.node).any fun n => n.kind = .fixpoint && n.key == key

/-- How often a run has reported the fixpoint of a key. -/
def Run.settled (key : Bytes) (r : Run) : Nat :=
  r.events.countP (Event.settles key)

/-- A step that reports the fixpoint of a key as often as it computes it, when it succeeds. -/
def Accounts {α : Type} (t : Task) (key : Bytes) (act : Eval α) (log : Run → List Computation) : Prop :=
  ∀ ⦃r a r'⦄, act.run r = (.ok a, r') → r'.settled key = r.settled key + (log r).countP (t.isFixpoint key)

namespace Accounts

variable {t : Task} {key : Bytes} {α β : Type} {act : Eval α} {log : Run → List Computation}

theorem silent (h : Leaves Run.events act) : Accounts t key act fun _ => [] := by
  intro r a r' hrun
  have hevents := h r
  rw [hrun] at hevents
  rw [Run.settled, hevents]
  rfl

/-- A run that fails has nothing to account for. -/
theorem failed (f : Failure) (log : Run → List Computation) : Accounts t key (throw f : Eval α) log := by
  intro r a r' hrun
  cases hrun

theorem bind {f : α → Eval β} {next : α → Run → List Computation} (h : Accounts t key act log) (hf : ∀ a, Accounts t key (f a) (next a)) :
    Accounts t key (act >>= f) (thenLog act log next) := by
  intro r b r' hrun
  obtain ⟨a, r₁, hact, hnext⟩ := run_bind_inv hrun
  rw [thenLog, hact, List.countP_append, hf a hnext, h hact, Nat.add_assoc]

/-- A step before one that reports nothing. -/
theorem followed {f : α → Eval β} (h : Accounts t key act log) (hf : ∀ a, Leaves Run.events (f a)) :
    Accounts t key (act >>= f) log := by
  have hboth := h.bind fun a => silent (hf a)
  rwa [thenLog_nil] at hboth

/-- A step that computes a node of another kind, or of another key, besides. -/
theorem cons (h : Accounts t key act log) {e : Computation} (he : t.isFixpoint key e = false) :
    Accounts t key act fun r => e :: log r := by
  intro r a r' hrun
  rw [List.countP_cons_of_neg (by rw [he]; exact Bool.false_ne_true)]
  exact h hrun

theorem mapM {f : Nat → Eval Tensor} {log : Nat → Run → List Computation} {ids : List Nat}
    (h : ∀ i ∈ ids, Accounts t key (f i) (log i)) : Accounts t key (ids.mapM f) (mapLog f log ids) := by
  induction ids with
  | nil => exact silent (Leaves.pure [])
  | cons i ids ih =>
    rw [List.mapM_cons]
    exact (h i List.mem_cons_self).bind fun x =>
      (ih fun j hj => h j (List.mem_cons_of_mem i hj)).followed fun xs => Leaves.pure (x :: xs)

theorem inIteration (h : Accounts t key act log) :
    Accounts t key (Evaluator.inIteration act) fun r => log { r with current := [] } := by
  intro r a r' hrun
  rw [run_inIteration] at hrun
  obtain ⟨hres, rfl⟩ := Prod.mk.inj hrun
  exact h (show act.run { r with current := [] } = (.ok a, (act.run { r with current := [] }).2) from Prod.ext hres rfl)

theorem iterate {name : Bytes} {limit : Nat} {step : Tensor → Eval Tensor} {log : Nat → Tensor → Run → List Computation}
    (h : ∀ k x, Accounts t key (step x) (log k x)) (remaining : Nat) :
    ∀ (k : Nat) (x : Tensor), Accounts t key (Evaluator.iterate name limit step remaining x) (iterateLog step log k remaining x) := by
  induction remaining with
  | zero => exact fun k x => silent ((Leaves.checkLive fun _ => rfl).bind fun _ => Leaves.throw _)
  | succ remaining ih =>
    intro k x
    rw [Evaluator.iterate, iterateLog]
    refine (silent (Leaves.checkLive fun _ => rfl)).bind fun _ => (h k x).bind fun y => ?_
    split
    · exact silent (Leaves.pure _)
    · exact ih (k + 1) y

end Accounts

section

variable {t : Task} {key : Bytes}

theorem isFixpoint_of_kind {frame : Frame} {n : Node} (hn : t.model.node? n.id = some n) (hkind : n.kind ≠ .fixpoint) :
    t.isFixpoint key ⟨frame, n.id⟩ = false := by
  simp [Task.isFixpoint, hn, hkind]

theorem isFixpoint_of_fixpoint {frame : Frame} {n : Node} (hn : t.model.node? n.id = some n) (hkind : n.kind = .fixpoint) :
    t.isFixpoint key ⟨frame, n.id⟩ = (n.key == key) := by
  simp [Task.isFixpoint, hn, hkind]

/-- Computing a node reports itself, if it is a fixpoint, and the fixpoints among what it makes other nodes compute. -/
theorem compute_accounts {ask : Scope → Nat → Eval Tensor} {log : Frame → Scope → Nat → Run → List Computation} {n : Node}
    (hn : t.model.node? n.id = some n) (hask : ∀ i ∈ n.deps, ∀ frame scope, Accounts t key (ask scope i) (log frame scope i))
    (frame : Frame) (scope : Scope) :
    Accounts t key (compute t ask scope n) fun r => ⟨frame, n.id⟩ :: computeLog t ask log frame scope n r := by
  have hinputs : ∀ i ∈ n.inputs, Accounts t key (ask scope i) (log frame scope i) :=
    fun i hi => hask i (List.mem_append_left _ hi) frame scope
  unfold compute
  cases hkind : n.kind with
  | input =>
    rw [computeLog, hkind]
    exact (Accounts.silent (Leaves.pure _)).cons (isFixpoint_of_kind hn (by simp [hkind]))
  | psi =>
    refine Accounts.cons ?_ (isFixpoint_of_kind hn (by simp [hkind]))
    dsimp only
    split
    · rename_i i psi hin hop
      rw [computeLog, hkind, hin, hop]
      refine (hinputs i (by rw [hin]; exact List.mem_singleton_self i)).followed fun x => ?_
      split
      · exact Leaves.bind (Leaves.change (f := fun r => { r with patience := .times 0 }) fun r => rfl) fun _ => Leaves.lift _
      · exact Leaves.lift _
    · exact Accounts.failed _ _
  | concat =>
    rw [computeLog, hkind]
    exact ((Accounts.mapM hinputs).followed fun _ => Leaves.lift _).cons (isFixpoint_of_kind hn (by simp [hkind]))
  | diamond =>
    refine Accounts.cons ?_ (isFixpoint_of_kind hn (by simp [hkind]))
    dsimp only
    split
    · rename_i i phi sigma hin hop
      rw [computeLog, hkind, hin, hop]
      exact (hinputs i (by rw [hin]; exact List.mem_singleton_self i)).followed fun x => Leaves.lift _
    · exact Accounts.failed _ _
  | «variable» =>
    rw [computeLog, hkind]
    refine Accounts.cons ?_ (isFixpoint_of_kind hn (by simp [hkind]))
    dsimp only
    split
    · exact Accounts.silent (Leaves.pure _)
    · exact Accounts.failed _ _
  | fixpoint =>
    dsimp only
    split
    · rename_i b body hb hbody
      rw [computeLog, hkind, hb, hbody]
      have hturn : ∀ k x, Accounts t key (bodyStep t ask scope b body x)
          fun r => log ((n.id, k) :: frame) ((b.var, x) :: scope) body { r with current := [] } := fun k x =>
        (hask body (by simp [Node.deps, hbody]) ((n.id, k) :: frame) ((b.var, x) :: scope)).inIteration.followed
          fun y => (Leaves.lift _).bind fun _ => Leaves.pure y
      intro r v r' hrun
      obtain ⟨x₀, r₀, hstart, hturns⟩ := run_bind_inv hrun
      dsimp only
      rw [nil_thenLog hstart]
      rw [run_lift] at hstart
      obtain ⟨-, rfl⟩ := Prod.mk.inj hstart
      obtain ⟨p, r₁, hiter, hreport⟩ := run_bind_inv hturns
      have hcount := Accounts.iterate hturn _ 0 _ hiter
      rw [run_bind_ok (run_change _ r₁), run_return] at hreport
      obtain ⟨-, rfl⟩ := Prod.mk.inj hreport
      -- The report of the fixpoint itself comes on top of those of its turns.
      have hown : Run.settled key { r₁ with events := .fixpointConverged n.key b.least p.2 :: r₁.events } =
          r₁.settled key + if n.key == key then 1 else 0 := by
        rw [Run.settled, List.countP_cons]
        rfl
      rw [hown, hcount, List.countP_cons, isFixpoint_of_fixpoint hn hkind, Nat.add_assoc]
    · exact Accounts.failed _ _
  | other code => exact Accounts.failed _ _

/-- Asking for a node reports a fixpoint as often as it is computed, by induction on the fuel. -/
theorem eval_accounts (fuel : Nat) :
    ∀ (frame : Frame) (scope : Scope) (id : Nat), Accounts t key (eval t fuel scope id) (evalLog t fuel frame scope id) := by
  induction fuel with
  | zero => exact fun _ _ _ => Accounts.failed _ _
  | succ fuel ih =>
    intro frame scope id r v r' hrun
    cases hn : t.model.node? id with
    | none =>
      rw [eval, hn] at hrun
      cases hrun
    | some n =>
      cases hr : r.known n with
      | some w =>
        rw [eval_known hn hr] at hrun
        obtain ⟨-, rfl⟩ := Prod.mk.inj hrun
        rw [evalLog_known hn hr]
        rfl
      | none =>
        obtain rfl := (Model.mem_of_node? hn).2
        rw [eval_unknown hn hr] at hrun
        rw [evalLog_unknown hn hr]
        rcases hcompute : (compute t (eval t fuel) scope n).run r with ⟨f | w, r₁⟩
        · rw [hcompute] at hrun
          cases hrun
        · rw [hcompute] at hrun
          obtain ⟨-, rfl⟩ := Prod.mk.inj hrun
          have hkeep : (r₁.keep n w).settled key = r₁.settled key := by
            unfold Run.keep
            split <;> rfl
          rw [hkeep]
          exact compute_accounts hn (fun i _ frame scope => ih frame scope i) frame scope hcompute

end

/-! ## Calls and what is computed before them -/

/-- A list of computations that has those of a call in the middle, after computations of all nodes that the call finds labels of for the
whole evaluation and that were not known at the start. -/
def Places (r : Run) (log part : List Computation) (r' : Run) : Prop :=
  ∃ earlier later, log = earlier ++ part ++ later ∧ ∀ j, r'.closed.Has j → r.closed.Has j ∨ ∃ e ∈ earlier, e.node = j

namespace Places

variable {r r' r'' : Run} {log log' part : List Computation}

theorem refl (r : Run) (log : List Computation) : Places r log log r :=
  ⟨[], [], by simp, fun _ hj => .inl hj⟩

/-- More is computed afterwards. -/
theorem append (h : Places r log part r') (log' : List Computation) : Places r (log ++ log') part r' := by
  obtain ⟨earlier, later, rfl, hknown⟩ := h
  exact ⟨earlier, later ++ log', by simp, hknown⟩

/-- More is computed before, and leads to the run that the rest starts from. -/
theorem after (h : Places r' log part r'') (before : List Computation)
    (hbefore : ∀ j, r'.closed.Has j → r.closed.Has j ∨ ∃ e ∈ before, e.node = j) : Places r (before ++ log) part r'' := by
  obtain ⟨earlier, later, rfl, hknown⟩ := h
  refine ⟨before ++ earlier, later, by simp, fun j hj => ?_⟩
  rcases hknown j hj with hj | ⟨e, he, hnode⟩
  · exact (hbefore j hj).imp_right fun ⟨e, he, hnode⟩ => ⟨e, List.mem_append_left _ he, hnode⟩
  · exact .inr ⟨e, List.mem_append_right _ he, hnode⟩

/-- A run that knows the same nodes for the whole evaluation comes first. -/
theorem ofClosed (h : Places r' log part r'') (hclosed : r'.closed = r.closed) : Places r log part r'' := by
  obtain ⟨earlier, later, rfl, hknown⟩ := h
  exact ⟨earlier, later, rfl, hclosed ▸ hknown⟩

theorem trans (h : Places r log log' r') (h' : Places r' log' part r'') : Places r log part r'' := by
  obtain ⟨earlier, later, rfl, hknown⟩ := h
  exact (h'.after _ hknown).append later

end Places

section

variable {t : Task} {rank : Nat → Nat} {frame : Frame} {bound : Nat}

/-- One of the nodes that are asked for one after the other. -/
theorem mapM_places {f : Nat → Eval Tensor} {log : Nat → Run → List Computation} {turns : Nat × Nat → Prop} {before after : List Nat}
    {i : Nat} (h : ∀ j ∈ before, Frugal t rank frame bound turns (f j) (log j)) {xs : List Tensor} {r r' : Run}
    (hrun : (before.mapM f).run r = (.ok xs, r')) : Places r (mapLog f log (before ++ i :: after) r) (log i r') r' := by
  induction before generalizing r xs with
  | nil =>
    obtain ⟨-, rfl⟩ := Prod.mk.inj hrun
    exact (Places.refl r _).append _
  | cons j before ih =>
    rw [List.mapM_cons] at hrun
    obtain ⟨x, r₁, hfirst, hthen⟩ := run_bind_inv hrun
    obtain ⟨ys, r₂, hrest, hret⟩ := run_bind_inv hthen
    obtain ⟨-, rfl⟩ := Prod.mk.inj hret
    rw [List.cons_append, mapLog, thenLog, hfirst]
    refine (ih (fun k hk => h k (List.mem_cons_of_mem j hk)) hrest).after _ fun k hk => ?_
    have htraced := (h j List.mem_cons_self).traced r k
    rw [hfirst] at htraced
    exact htraced hk

/-- Asking the caller changes no labels that are kept. -/
theorem checkLive_closed {r r' : Run} (h : checkLive.run r = (.ok (), r')) : r'.closed = r.closed := by
  have hsame : (checkLive.run r).2.closed = r.closed := Leaves.checkLive (fun _ => rfl) r
  rwa [h] at hsame

/-- A turn of an iteration. -/
theorem iterate_places {step : Tensor → Eval Tensor} {log : Nat → Tensor → Run → List Computation} {turns : Nat → Nat × Nat → Prop}
    (h : ∀ k x, Frugal t rank frame bound (turns k) (step x) (log k x)) {remaining : Nat} {x y : Tensor} {r r' : Run}
    (hturn : ComesToTurn step remaining x r y r') (k : Nat) :
    ∃ k', Places r (iterateLog step log k remaining x r) (log k' y r') r' := by
  induction hturn generalizing k with
  | @here remaining x r r' hasked =>
    rw [iterateLog, nil_thenLog hasked, thenLog]
    exact ⟨k, ((Places.refl r' _).append _).ofClosed (checkLive_closed hasked)⟩
  | @later remaining x y z r r₁ r₂ r₃ hasked hrun heq _ ih =>
    rw [iterateLog, nil_thenLog hasked, thenLog, hrun]
    dsimp only
    rw [heq, if_neg Bool.false_ne_true]
    obtain ⟨k', hplaces⟩ := ih (k + 1)
    refine ⟨k', (hplaces.after _ fun j hj => ?_).ofClosed (checkLive_closed hasked)⟩
    have htraced := (h k x).traced r₁ j
    rw [hrun] at htraced
    exact htraced hj

/-- A call that computing a node asks for. -/
theorem Asks.places {ask : Scope → Nat → Eval Tensor} {log : Frame → Scope → Nat → Run → List Computation} {n : Node}
    (hask : ∀ i ∈ n.deps, ∀ frame scope, Frugal t rank frame (rank n.id) (fun _ => False) (ask scope i) (log frame scope i))
    {scope inner : Scope} {i : Nat} {r r' : Run} (h : Asks t ask scope n r inner i r') (frame : Frame) :
    ∃ frame', Places r (computeLog t ask log frame scope n r) (log frame' inner i r') r' := by
  unfold computeLog
  cases h with
  | psi hkind hin hop =>
    rw [hkind, hin, hop]
    exact ⟨frame, .refl r _⟩
  | diamond hkind hin hop =>
    rw [hkind, hin, hop]
    exact ⟨frame, .refl r _⟩
  | @part before after i xs r' hkind hin hrun =>
    rw [hkind, hin]
    refine ⟨frame, mapM_places (fun j hj => hask j (List.mem_append_left _ ?_) frame scope) hrun⟩
    rw [hin]
    exact List.mem_append_left _ hj
  | @body b body x₀ x r' hkind hb hbody hfirst hturn =>
    rw [hkind, hb, hbody]
    have hstart : (liftM (t.start b) : Eval Tensor).run r = (.ok x₀, r) := by
      rw [run_lift, hfirst]
    dsimp only
    rw [nil_thenLog hstart]
    obtain ⟨k, hplaces⟩ := iterate_places (fun k x => bodyStep_frugal hask hbody frame scope b k x) hturn 0
    exact ⟨_, hplaces⟩

end

/-! ## Evaluations -/

section

variable {t : Task} {c : Call}

/-- A call of an evaluation is for a node of the model, with enough fuel. -/
theorem Comes.fuelled (h : NodeTable.Ordered t.model.node? Node.deps t.model.rank) (hout : ∃ n, t.model.node? t.model.output = some n)
    (hc : Comes t c) : (∃ n, t.model.node? c.id = some n) ∧ t.model.rank c.id < c.fuel := by
  induction hc with
  | start => exact ⟨hout, Nat.lt_succ_of_le (t.model.rank_le _)⟩
  | asked _ hn _ hasks ih =>
    exact ⟨h.next_some hn _ hasks.mem_deps, Nat.lt_of_lt_of_le (h.next_lt hn _ hasks.mem_deps) (Nat.le_of_lt_succ ih.2)⟩

/-- What a call of an evaluation computes is in the middle of what the evaluation computes. -/
theorem Comes.computations_eq (h : NodeTable.Ordered t.model.node? Node.deps t.model.rank) (hc : Comes t c) :
    ∃ frame, Places {} t.computations (evalLog t c.fuel frame c.scope c.id c.run) c.run := by
  induction hc with
  | start => exact ⟨[], .refl _ _⟩
  | @asked fuel id i scope inner r r' n _ hn hr hasks ih =>
    obtain ⟨frame, hplaces⟩ := ih
    obtain rfl := (Model.mem_of_node? hn).2
    rw [evalLog_unknown hn hr] at hplaces
    obtain ⟨frame', hasked⟩ := hasks.places (fun j hj frame scope => eval_frugal (fun hn => h.next_lt hn) fuel (h.next_lt hn j hj)) frame
    exact ⟨frame', hplaces.trans (hasked.after [_] fun j hj => .inl hj)⟩

/-- A call for a node whose labels are not known computes the node. -/
theorem Comes.mem_computations (h : NodeTable.Ordered t.model.node? Node.deps t.model.rank)
    (hout : ∃ n, t.model.node? t.model.output = some n) (hc : Comes t c) {n : Node} (hn : t.model.node? c.id = some n)
    (hr : c.run.known n = none) : ∃ frame, ⟨frame, c.id⟩ ∈ t.computations := by
  obtain ⟨frame, earlier, later, heq, -⟩ := hc.computations_eq h
  obtain ⟨fuel, hfuel⟩ := Nat.exists_eq_succ_of_ne_zero (Nat.ne_of_gt (Nat.zero_lt_of_lt (hc.fuelled h hout).2))
  rw [hfuel, evalLog_unknown hn hr] at heq
  exact ⟨frame, by rw [heq]; simp⟩

/-- A node that depends on no variable is computed if it is asked for. -/
theorem Comes.computed (h : NodeTable.Ordered t.model.node? Node.deps t.model.rank)
    (hout : ∃ n, t.model.node? t.model.output = some n) (hc : Comes t c) {n : Node} (hn : t.model.node? c.id = some n)
    (hclosed : n.isClosed = true) : ∃ e ∈ t.computations, e.node = c.id := by
  cases hr : c.run.known n with
  | none =>
    obtain ⟨frame, hmem⟩ := hc.mem_computations h hout hn hr
    exact ⟨_, hmem, rfl⟩
  | some v =>
    obtain ⟨frame, earlier, later, heq, hknown⟩ := hc.computations_eq h
    have hhas : c.run.closed.Has c.id := by
      rw [Run.known, if_pos hclosed, (Model.mem_of_node? hn).2] at hr
      rw [Memo.Has, hr]
      rfl
    obtain ⟨e, he, hnode⟩ := (hknown c.id hhas).resolve_left Bool.false_ne_true
    exact ⟨e, by rw [heq, List.append_assoc]; exact List.mem_append_left _ he, hnode⟩

/-- No labels are computed twice that are kept in one place. -/
theorem computations_nodup (h : NodeTable.Ordered t.model.node? Node.deps t.model.rank) : (t.computations.map t.place).Nodup :=
  ((eval_frugal (fun hn => h.next_lt hn) _ (Nat.lt_succ_self _)).spends {}).nodup

/-- A node that depends on no variable is computed at most once. -/
theorem countP_node_le_one (h : NodeTable.Ordered t.model.node? Node.deps t.model.rank) {i : Nat} (hclosed : t.isClosed i = true) :
    t.computations.countP (fun e => e.node == i) ≤ 1 := by
  have hplace : ∀ e ∈ t.computations, (e.node == i) = true → (((· == ⟨[], i⟩) : Computation → Bool) ∘ t.place) e = true := by
    intro e _ he
    obtain rfl := beq_iff_eq.mp he
    exact beq_iff_eq.mpr (place_of_closed hclosed)
  calc t.computations.countP (fun e => e.node == i)
      ≤ t.computations.countP (((· == ⟨[], i⟩) : Computation → Bool) ∘ t.place) := List.countP_mono_left hplace
    _ = (t.computations.map t.place).count ⟨[], i⟩ := (List.countP_map ..).symm
    _ ≤ 1 := List.nodup_iff_count_le_one.mp (computations_nodup h) _

/-- No node is computed twice in a frame. -/
theorem count_le_one (h : NodeTable.Ordered t.model.node? Node.deps t.model.rank) (e : Computation) : t.computations.count e ≤ 1 :=
  List.nodup_iff_count_le_one.mp (computations_nodup h).of_map e

/-- A run reports the fixpoint of a key as often as it computes it, when it succeeds. -/
theorem run_settled {labels : Tensor} (h : (run t).1 = .ok labels) (key : Bytes) :
    (run t).2.settled key = t.computations.countP (t.isFixpoint key) := by
  have hcount : Accounts t key (eval t (t.model.nodes.length + 1) [] t.model.output)
      (evalLog t (t.model.nodes.length + 1) [] [] t.model.output) := eval_accounts _ _ _ _
  exact (hcount (Prod.ext h rfl : run t = (.ok labels, (run t).2))).trans (Nat.zero_add _)

/-- The reports on the fixpoint of a key among those of an evaluation. -/
theorem events_settled (h : t.model.spec.check (some t.input) = .ok t.input) (key : Bytes) :
    (evaluate t.maxIterations true t.model (some t.input)).events.countP (Event.settles key) = (run t).2.settled key := by
  rw [evaluate_checked h]
  simp [Event.settles, Run.settled]

/-- A successful evaluation reports a fixpoint that depends on no variable once, if it asks for it. -/
theorem settled_once (h : NodeTable.Ordered t.model.node? Node.deps t.model.rank) (hkeyed : NodeTable.Keyed t.model.node?)
    (hout : ∃ n, t.model.node? t.model.output = some n) {labels : Tensor} (hrun : (run t).1 = .ok labels) (hc : Comes t c) {n : Node}
    (hn : t.model.node? c.id = some n) (hkind : n.kind = .fixpoint) (hclosed : n.isClosed = true) : (run t).2.settled n.key = 1 := by
  obtain ⟨e, he, hnode⟩ := hc.computed h hout hn hclosed
  have hsame : ∀ e ∈ t.computations, t.isFixpoint n.key e = true ↔ (e.node == c.id) = true := by
    intro e _
    constructor
    · intro hfix
      obtain ⟨n', hn', hfix⟩ := (Option.any_eq_true _ _).mp hfix
      exact beq_iff_eq.mpr (hkeyed hn' hn (by simpa using (Bool.and_eq_true_iff.mp hfix).2))
    · intro heq
      rw [Task.isFixpoint, beq_iff_eq.mp heq, hn]
      simp [hkind]
  have hle := countP_node_le_one h (i := c.id) (by rw [Task.isClosed, hn]; exact hclosed)
  have hpos : 0 < t.computations.countP fun e => e.node == c.id := List.countP_pos_iff.mpr ⟨e, he, beq_iff_eq.mpr hnode⟩
  rw [run_settled hrun, List.countP_congr hsame]
  omega

end

end Evaluator

open Evaluator Formula

/-- An evaluation shares its work. Every call for a node whose labels are not known is one of its computations. Among these, a node
that depends on no variable is there once at most, however many nodes refer to it, in however many turns; and any other node is
there once at most for each frame. When the evaluation succeeds, it reports each fixpoint that it asks for and that depends on no
variable exactly once, wherever the fixpoint stands. -/
theorem computed_once {ops : Registries} {settings : Settings} {c : Compiler} (hc : Compiler.Reachable ops settings c) {e : Expr}
    {t : Task} (hm : c.Returns e t.model) (hinput : t.model.spec.check (some t.input) = .ok t.input) :
    (∀ call n, Comes t call → t.model.node? call.id = some n → call.run.known n = none →
      ∃ frame, ⟨frame, call.id⟩ ∈ t.computations) ∧
    (∀ i n, t.model.node? i = some n → n.isClosed = true → t.computations.countP (fun e => e.node == i) ≤ 1) ∧
    (∀ i n frame, t.model.node? i = some n → n.isClosed = false → t.computations.count ⟨frame, i⟩ ≤ 1) ∧
    (∀ labels, (evaluate t.maxIterations true t.model (some t.input)).result = .ok labels → ∀ call n, Comes t call →
      t.model.node? call.id = some n → n.kind = .fixpoint → n.isClosed = true →
        (evaluate t.maxIterations true t.model (some t.input)).events.countP (Event.settles n.key) = 1) := by
  obtain ⟨es, hledger, hholds, -⟩ := RefinementAux.returns_holds hc hm
  have hordered : NodeTable.Ordered t.model.node? Node.deps t.model.rank := hholds.ordered hledger.ordered fun n => List.Subset.refl _
  refine ⟨fun call n hcomes hn hr => hcomes.mem_computations hordered hholds.output_some hn hr, fun i n hn hclosed => ?_,
    fun i n frame _ _ => count_le_one hordered ⟨frame, i⟩, fun labels hlabels call n hcomes hn hkind hclosed => ?_⟩
  · exact countP_node_le_one hordered (by rw [Task.isClosed, hn]; exact hclosed)
  · rw [RefinementAux.evaluate_result hinput] at hlabels
    rw [events_settled hinput]
    exact settled_once hordered (hholds.keyed hledger.keyed) hholds.output_some hlabels hcomes hn hkind hclosed

namespace Sample

/-- A fixpoint that does not depend on the variable of the fixpoint around it. -/
def within : Bytes :=
  Bytes.ofString "mu Y,r.(mu X,r.((a||X;|>or);or))"

/-- The two fixpoints, parsed. -/
def withinExpr : Expr :=
  (parse within).toOption.get (by decide +kernel)

/-- The model of the two fixpoints. -/
def withinModel : Model :=
  (compiler.compile false within).result.toOption.get (by decide +kernel)

theorem within_returns : compiler.Returns withinExpr withinModel :=
  .text (ok_of_toOption (Option.some_get _).symm) (ok_of_toOption (Option.some_get _).symm)

/-- The two fixpoints on the sample input. -/
def withinTask : Task :=
  ⟨withinModel, input, 0⟩

/-- The node of the fixpoint outside. -/
def outerNode : Node :=
  (withinModel.node? withinModel.output).get (by decide +kernel)

/-- What the fixpoint outside binds. -/
def outerBinder : Binder :=
  outerNode.binder.get (by decide +kernel)

/-- The number of the fixpoint inside, which is the body of the one outside. -/
def innerId : Nat :=
  outerNode.body.get (by decide +kernel)

/-- The node of the fixpoint inside. -/
def innerNode : Node :=
  (withinModel.node? innerId).get (by decide +kernel)

/-- The evaluation comes to the fixpoint inside in the first turn of the one outside. -/
theorem comes_inner : ∃ call, Comes withinTask call ∧ call.id = innerId := by
  have hkind : outerNode.kind = .fixpoint := by decide +kernel
  have hfirst : withinTask.start outerBinder = .ok (Tensor.column .bool [Label.zero, Label.zero]) :=
    ok_of_toOption (by decide +kernel)
  have hlimit : withinTask.limit (outerBinder.init.getD []).length = 999 + 1 := by decide +kernel
  have hturn : ComesToTurn (bodyStep withinTask (eval withinTask withinModel.nodes.length) [] outerBinder innerId)
      (withinTask.limit (outerBinder.init.getD []).length) (Tensor.column .bool [Label.zero, Label.zero]) {}
      (Tensor.column .bool [Label.zero, Label.zero]) {} := by
    rw [hlimit]
    exact .here rfl
  exact ⟨_, .asked .start (Option.some_get _).symm (known_start _)
    (.body hkind (Option.some_get _).symm (Option.some_get _).symm hfirst hturn), rfl⟩

theorem inner_node : withinModel.node? innerId = some innerNode :=
  (Option.some_get _).symm

/-- The fixpoint inside depends on no variable. -/
theorem inner_closed : innerNode.kind = .fixpoint ∧ innerNode.isClosed = true := by
  decide +kernel

end Sample

/-- In the sample the body of one fixpoint is another one, which is asked for in every turn. It is computed once and reported once. -/
theorem computed_once_sample : Sample.withinTask.computations.countP (fun e => e.node == Sample.innerId) ≤ 1 ∧
    (evaluate 0 true Sample.withinModel (some Sample.input)).events.countP (Event.settles Sample.innerNode.key) = 1 := by
  have hinput : Sample.withinModel.spec.check (some Sample.input) = .ok Sample.input := check_of_isOk (by decide +kernel)
  have hlabels : (evaluate 0 true Sample.withinModel (some Sample.input)).result = .ok Sample.labels :=
    ok_of_toOption (by decide +kernel)
  obtain ⟨-, honce, -, hreports⟩ := computed_once Sample.reachable (t := Sample.withinTask) Sample.within_returns hinput
  obtain ⟨call, hcomes, hid⟩ := Sample.comes_inner
  obtain ⟨hkind, hclosed⟩ := Sample.inner_closed
  exact ⟨honce Sample.innerId Sample.innerNode Sample.inner_node hclosed,
    hreports Sample.labels hlabels call Sample.innerNode hcomes (hid ▸ Sample.inner_node) hkind hclosed⟩

end ModalGraph
