import ModalGraph.Proofs.Compiler.Nodes
import ModalGraph.Proofs.Operator.Registry

/-!
# Evaluation with kept labels

An evaluation keeps labels that it has computed: those of nodes without free variables until its end, the others until the iteration
is over. A run is sound (`Sound`) if what it keeps for a node is the value of the node's term, for a node without free variables
whatever the variables are. Evaluating a node of a compiled model from a sound run gives the value of its term, up to the words of a
failure, and leaves a sound run (`eval_gives`). Two facts about the nodes carry this: a node reads from nodes with smaller numbers,
so the fuel suffices, and its list of free variables has every variable that its term mentions, so kept labels do not go stale.
-/

namespace ModalGraph

open Formula Compiler

namespace Evaluator

/-- A task whose model holds nodes of a ledger, and the scene with the same operators, settings, input and limit. No operator makes
the caller give up. -/
structure Plays (s : Scene) (es : List Entry) (t : Task) : Prop where
  ledger : Ledger s.ops s.settings es
  holds : t.model.Holds (table es)
  spec_eq : t.model.spec = s.settings.input
  input_eq : t.input = s.input
  limit_eq : t.maxIterations = s.maxIterations
  calm : s.ops.Calm

/-- A number under which a model has a node, and the ledger the entry of that node. -/
def Stands (es : List Entry) (t : Task) (i : Nat) (m : Entry) : Prop :=
  es[i]? = some m ∧ t.model.node? i = some m.node

/-- A run that keeps the values of terms only: for nodes without free variables those under any labels of variables, for the others
those under the labels in scope. -/
structure Sound (s : Scene) (es : List Entry) (t : Task) (scope : Scope) (r : Run) : Prop where
  live : r.patience = .endless
  closed : ∀ {i v}, r.closed.lookup i = some v → ∃ m, Stands es t i m ∧ ∀ scope', m.term.value s scope' = .ok v
  current : ∀ {i v}, r.current.lookup i = some v → ∃ m, Stands es t i m ∧ m.term.value s scope = .ok v

/-- A run at its start is sound. -/
theorem Sound.start (s : Scene) (es : List Entry) (t : Task) (scope : Scope) : Sound s es t scope {} :=
  ⟨rfl, nofun, nofun⟩

/-- A caller who waits to the end goes on waiting. -/
theorem run_checkLive {r : Run} (h : r.patience = .endless) : checkLive.run r = (.ok (), r) := by
  obtain ⟨closed, current, events, patience⟩ := r
  obtain rfl := h
  rfl

/-- A step that, from a sound run, gives a result up to the words of a failure, and leaves a sound run. -/
def Gives {α : Type} (s : Scene) (es : List Entry) (t : Task) (scope : Scope) (act : Eval α) (x : Except Failure α) : Prop :=
  ∀ r, Sound s es t scope r → outcome (act.run r).1 = outcome x ∧ ∀ a, (act.run r).1 = .ok a → Sound s es t scope (act.run r).2

namespace Gives

variable {s : Scene} {es : List Entry} {t : Task} {scope : Scope} {α β : Type}

theorem pure (a : α) : Gives s es t scope (Pure.pure a) (.ok a) :=
  fun _ hr => ⟨rfl, fun _ _ => hr⟩

/-- A result taken as a step. -/
theorem lift {x y : Except Failure α} (h : outcome x = outcome y) : Gives s es t scope (liftM x) y := by
  intro r hr
  rw [run_lift]
  exact ⟨h, fun _ _ => hr⟩

theorem throw {f g : Failure} (h : f.kind = g.kind) : Gives s es t scope (MonadExcept.throw f : Eval α) (.error g) :=
  fun _ _ => ⟨congrArg Except.error h, fun _ ha => by cases ha⟩

theorem bind {act : Eval α} {f : α → Eval β} {x : Except Failure α} {g : α → Except Failure β} (h : Gives s es t scope act x)
    (hf : ∀ a, x = .ok a → Gives s es t scope (f a) (g a)) : Gives s es t scope (act >>= f) (x >>= g) := by
  intro r hr
  obtain ⟨hout, hsound⟩ := h r hr
  rw [run_bind]
  rcases hrun : act.run r with ⟨y, r'⟩
  rw [hrun] at hout hsound
  cases y with
  | error e =>
    cases x with
    | error e' => exact ⟨congrArg Except.error (Except.error.inj hout), fun _ ha => by cases ha⟩
    | ok b => cases hout
  | ok a =>
    cases x with
    | error e' => cases hout
    | ok b =>
      obtain rfl := Except.ok.inj hout
      exact hf a rfl r' (hsound a rfl)

/-- A step before another one that only changes what soundness does not depend on. -/
theorem after {act : Eval α} {f : α → Eval β} {x : Except Failure β} {a : α} (h : Gives s es t scope act (.ok a))
    (hf : Gives s es t scope (f a) x) : Gives s es t scope (act >>= f) x :=
  h.bind (g := fun _ => x) fun _ hb => Except.ok.inj hb ▸ hf

theorem checkLive : Gives s es t scope checkLive (.ok ()) := by
  intro r hr
  rw [run_checkLive hr.live]
  exact ⟨rfl, fun _ _ => hr⟩

theorem report (e : Run → List Event) : Gives s es t scope (modify fun r => { r with events := e r }) (.ok ⟨⟩) := by
  intro r hr
  rw [run_change]
  exact ⟨rfl, fun _ _ => ⟨hr.live, hr.closed, hr.current⟩⟩

/-- A step in an iteration of its own, under other labels of variables. What it keeps until the end does not depend on these. -/
theorem inIteration {inner : Scope} {act : Eval α} {x : Except Failure α} (h : Gives s es t inner act x) :
    Gives s es t scope (Evaluator.inIteration act) x := by
  intro r hr
  have hfresh : Sound s es t inner { r with current := [] } := ⟨hr.live, hr.closed, fun h => by cases h⟩
  obtain ⟨hout, hsound⟩ := h _ hfresh
  rw [run_inIteration]
  exact ⟨hout, fun a ha => ⟨(hsound a ha).live, (hsound a ha).closed, hr.current⟩⟩

/-- The same step for each of some entries. -/
theorem mapM {f : Nat → Eval Tensor} {ms : List Entry}
    (h : ∀ m ∈ ms, Gives s es t scope (f m.node.id) (m.term.value s scope)) :
    Gives s es t scope ((ms.map Entry.node).map Node.id |>.mapM f) (Term.values s scope (ms.map Entry.term)) := by
  induction ms with
  | nil => exact Gives.pure []
  | cons m ms ih =>
    simp only [List.map_cons, List.mapM_cons, Term.values]
    refine (h m List.mem_cons_self).bind fun x _ => ?_
    refine (ih fun m' hm' => h m' (List.mem_cons_of_mem _ hm')).bind fun xs _ => ?_
    exact Gives.pure _

/-- An iteration gives what a body settles at, if a turn gives what the body gives. -/
theorem iterate {key : Bytes} {limit : Nat} {step : Tensor → Eval Tensor} {body : Tensor → Except Failure Tensor}
    {k : Tensor × Nat → Eval Tensor} (hstep : ∀ x, Gives s es t scope (step x) (body x))
    (hk : ∀ x n, Gives s es t scope (k (x, n)) (.ok x)) (remaining : Nat) (x : Tensor) :
    Gives s es t scope (Evaluator.iterate key limit step remaining x >>= k) (settle limit body remaining x) := by
  induction remaining generalizing x with
  | zero =>
    rw [Evaluator.iterate, settle, bind_assoc]
    refine checkLive.after ?_
    exact fun _ _ => ⟨rfl, fun _ ha => by cases ha⟩
  | succ remaining ih =>
    rw [Evaluator.iterate, settle, bind_assoc]
    refine checkLive.after ?_
    rw [bind_assoc]
    refine (hstep x).bind fun next _ => ?_
    by_cases heq : next.equal x = true
    · rw [if_pos heq, if_pos heq, pure_bind]
      exact hk x _
    · rw [if_neg heq, if_neg heq]
      exact ih next

end Gives

/-! ## One node -/

section

variable {s : Scene} {es : List Entry} {t : Task} {scope : Scope} {eval : Scope → Nat → Eval Tensor} {m : Entry}

theorem checkRows_outcome (h : Plays s es t) (n : Node) (x : Labels) : outcome (checkRows t n x) = outcome (s.rowPerNode x) := by
  cases x with
  | none => rfl
  | some out =>
    rw [checkRows, Scene.rowPerNode, Task.nodes, Scene.nodes, h.input_eq]
    by_cases hrows : out.rows = s.input.nodes
    · rw [if_neg (not_not.mpr hrows), if_pos hrows]
    · rw [if_pos hrows, if_neg hrows]
      rfl

theorem applyPsi_outcome (h : Plays s es t) {n : Node} {name : Bytes} {arg : Argument} {psi : Psi}
    (hpsi : s.ops.psi.get name arg = .ok psi) (x : Tensor) : outcome (applyPsi t n psi x) = outcome (s.atom name arg x) := by
  rw [applyPsi, Scene.atom, hpsi, h.input_eq]
  exact outcome_bind (outcome_inPlace _ _) fun out _ => checkRows_outcome h n out

theorem checkMessages_outcome (n : Node) (edges : Nat) (x : Labels) :
    outcome (checkMessages n edges x) = outcome (Scene.messagePerEdge edges x) := by
  cases x with
  | none => rfl
  | some m =>
    rw [checkMessages, Scene.messagePerEdge]
    by_cases hrows : m.rows = edges
    · rw [if_neg (not_not.mpr hrows), if_pos hrows]
    · rw [if_pos hrows, if_neg hrows]
      rfl

theorem ends_eq (h : Plays s es t) (direction : Direction) : ends t (NodeDirection.ofDirection direction).sense = s.ends direction := by
  cases direction <;> simp only [ends, Scene.ends, NodeDirection.ofDirection, NodeDirection.sense, h.input_eq]

theorem messages_outcome (h : Plays s es t) {n : Node} {direction : Direction} (hdir : n.direction = .ofDirection direction)
    {phiKey : Option Bytes} {phi : Option Phi} (hphi : (fresh s.ops s.settings).phi? phiKey = .ok phi) (x : Tensor) :
    outcome (messages t n phi x) = outcome (s.messages direction phiKey x) := by
  rw [messages, Scene.messages, hdir, ends_eq h]
  refine outcome_bind rfl fun labels _ => ?_
  cases phi?_ok hphi with
  | none => rfl
  | some hp =>
    dsimp only
    rw [show s.ops.phi.resolve _ = .ok _ from hp, Task.edgeLabels, Scene.edgeLabels, h.spec_eq, h.input_eq]
    refine outcome_bind rfl fun targets _ => ?_
    exact outcome_bind (outcome_inPlace _ _) fun out _ => checkMessages_outcome n _ out

theorem applyDiamond_outcome (h : Plays s es t) {n : Node} {direction : Direction} (hdir : n.direction = .ofDirection direction)
    {phiKey : Option Bytes} {phi : Option Phi} (hphi : (fresh s.ops s.settings).phi? phiKey = .ok phi) {sigmaKey : Bytes}
    {sigma : Sigma} (hsigma : s.ops.sigma.resolve sigmaKey = .ok sigma) (x : Tensor) :
    outcome (applyDiamond t n phi sigma x) = outcome (s.diamond direction phiKey sigmaKey x) := by
  rw [applyDiamond, Scene.diamond, hsigma]
  refine outcome_bind (messages_outcome h hdir hphi x) fun msgs _ => ?_
  rw [hdir, ends_eq h, Task.nodes, Scene.nodes, h.input_eq]
  exact outcome_bind (outcome_inPlace _ _) fun out _ => checkRows_outcome h n out

/-- The labels of a turn of a fixpoint, given those of its body. -/
theorem turn_gives (h : Plays s es t) {b : Binder} {body width : Nat} {value : Tensor → Except Failure Tensor} {x : Tensor}
    (hbody : Gives s es t ((b.var, x) :: scope) (eval ((b.var, x) :: scope) body) (value x)) :
    Gives s es t scope (do
      let next ← inIteration (eval ((b.var, x) :: scope) body)
      liftM (checkBody t b width next)
      return next) (s.assigned width value x) := by
  refine (Gives.inIteration hbody).bind fun next _ => ?_
  rw [checkBody, Task.nodes, h.input_eq, show s.input.nodes = s.nodes from rfl]
  by_cases hshape : next.rows = s.nodes ∧ next.cols = width
  · rw [if_pos hshape, if_neg (by rw [not_or, not_not, not_not]; exact hshape)]
    exact (Gives.lift rfl).after (Gives.pure next)
  · rw [if_neg hshape, if_pos (not_and_or.mp hshape)]
    exact fun _ _ => ⟨rfl, fun _ ha => by cases ha⟩

theorem limit_eq (h : Plays s es t) (width : Nat) : t.limit width = s.limit width := by
  rw [Task.limit, Scene.limit, Task.nodes, Scene.nodes, h.input_eq, h.limit_eq]

theorem start_eq (h : Plays s es t) {b : Binder} {base : Base} {row : List Label} (hinit : b.init = some row)
    (hdtype : b.dtype = base.dtype) : t.start b = orAborted (Tensor.full? s.nodes row base.dtype) := by
  rw [Task.start, hinit, hdtype, Task.nodes, h.input_eq]
  rfl

/-- The labels of a fixpoint, given those of its body. -/
theorem fixpoint_gives (h : Plays s es t) {n : Node} {b : Binder} {body : Nat} {base : Base} {row : List Label}
    {value : Tensor → Except Failure Tensor} (hbase : s.settings.base? b.base = some base) (hrow : base.init b.least = .ok row)
    (hinit : b.init = some row) (hdtype : b.dtype = base.dtype)
    (hbody : ∀ x, Gives s es t ((b.var, x) :: scope) (eval ((b.var, x) :: scope) body) (value x)) :
    Gives s es t scope (fixpoint t eval scope n b body) (s.fixpoint b.least b.base value) := by
  rw [fixpoint, Scene.fixpoint_eq hbase hrow, hinit, Option.getD_some, limit_eq h, start_eq h hinit hdtype]
  exact (Gives.lift rfl).bind fun x _ =>
    Gives.iterate (fun x => turn_gives h (hbody x)) (fun x k => (Gives.report _).after (Gives.pure x)) _ x

/-- The labels of a listed node, given those of the nodes that it reads from. -/
theorem compute_gives (h : Plays s es t) (hm : m ∈ es)
    (heval : ∀ m' ∈ es, m'.node.id ∈ m.node.deps → ∀ scope, Gives s es t scope (eval scope m'.node.id) (m'.term.value s scope)) :
    Gives s es t scope (compute t eval scope m.node) (m.term.value s scope) := by
  rcases h.ledger.made (h.ledger.getElem?_id hm) with rfl | ⟨n, hmade, hnode⟩
  · rw [compute, h.input_eq]
    exact Gives.pure _
  have hsub : ∀ {m'}, m' ∈ es.take m.node.id → m' ∈ es := fun hm' => List.mem_of_mem_take hm'
  generalize hid : m.node.id = i at hmade hnode
  rw [hnode]
  rw [hnode] at heval
  generalize m.term = u at hmade heval
  clear hnode
  cases hmade with
  | @psi m' name arg _ hm' hn =>
    obtain ⟨psi, hpsi, hkind, hin, hop, hbody, _⟩ := atomNode_ok hn
    have hx := heval m' (hsub (hid ▸ hm')) (by simp [Node.deps, hin]) scope
    simp only [compute, hkind, hin, hop, Term.value]
    refine hx.bind fun x _ => ?_
    rw [h.calm name arg psi hpsi]
    exact Gives.lift (applyPsi_outcome h hpsi x)
  | @concat ms hms =>
    have hx := Gives.mapM (f := eval scope) fun m' hm' => heval m' (hsub (hid ▸ hms m' hm'))
      (by simpa [Node.deps, concatNode] using ⟨m', hm', rfl⟩) scope
    simp only [compute, concatNode, Term.value]
    exact hx.bind fun parts _ => Gives.lift rfl
  | @diamond m' direction phiKey sigmaKey _ hm' _ hn =>
    obtain ⟨phi, sigma, hsigma, hphi, hkind, hin, hop, hdir, hbody, _⟩ := diamondNode_ok hn
    have hx := heval m' (hsub (hid ▸ hm')) (by simp [Node.deps, hin]) scope
    simp only [compute, hkind, hin, hop, Term.value]
    refine hx.bind fun x _ => ?_
    exact Gives.lift (applyDiamond_outcome h hdir hphi hsigma x)
  | @var b depth name hkey hbase =>
    simp only [compute, variableNode, Term.value, Term.key]
    cases scope.lookup (variableKey depth b.baseName) with
    | none => exact Gives.throw rfl
    | some v => exact Gives.pure v
  | @fix b depth least init operand body hop hbody hkey hbase hwidth =>
    simp only [compute, fixpointNode, Term.value]
    obtain ⟨hsome, hinit⟩ := base?_of_fixpointBase hbase
    refine fixpoint_gives h hsome hinit rfl rfl fun x => ?_
    dsimp only
    rw [← hkey]
    exact heval body (hsub (hid ▸ hbody)) (by simp [Node.deps, fixpointNode]) _

/-- The labels that are kept for a node. -/
theorem Sound.known {r : Run} (hr : Sound s es t scope r) (hm : Stands es t m.node.id m) {v : Tensor}
    (hv : r.known m.node = some v) : m.term.value s scope = .ok v := by
  rw [Run.known] at hv
  split at hv
  · obtain ⟨m', hm', hvalue⟩ := hr.closed hv
    rw [Option.some.inj (hm.1.symm.trans hm'.1)]
    exact hvalue scope
  · obtain ⟨m', hm', hvalue⟩ := hr.current hv
    rw [Option.some.inj (hm.1.symm.trans hm'.1)]
    exact hvalue

/-- The labels of a node kept. A node without free variables has a term that mentions none. -/
theorem Sound.keep (h : Plays s es t) {r : Run} (hr : Sound s es t scope r) (hm : Stands es t m.node.id m) {v : Tensor}
    (hv : m.term.value s scope = .ok v) : Sound s es t scope (r.keep m.node v) := by
  have hlookup : ∀ {memo : Memo} {i : Nat} {v' : Tensor}, List.lookup i ((m.node.id, v) :: memo) = some v' →
      (i = m.node.id ∧ v' = v) ∨ memo.lookup i = some v' := by
    intro memo i v' hlook
    rw [List.lookup_cons] at hlook
    split at hlook
    · rename_i heq
      exact .inl ⟨beq_iff_eq.mp heq, (Option.some.inj hlook).symm⟩
    · exact .inr hlook
  rw [Run.keep]
  split
  · rename_i hclosed
    refine ⟨hr.live, fun hlook => ?_, hr.current⟩
    rcases hlookup hlook with ⟨rfl, rfl⟩ | hlook
    · refine ⟨m, hm, fun scope' => ?_⟩
      rw [← hv]
      refine m.term.value_congr s fun k hk => ?_
      have hfree := h.ledger.free m (List.mem_of_getElem? hm.1) k hk
      rw [List.isEmpty_iff.mp hclosed] at hfree
      cases hfree
    · exact hr.closed hlook
  · refine ⟨hr.live, hr.closed, fun hlook => ?_⟩
    rcases hlookup hlook with ⟨rfl, rfl⟩ | hlook
    · exact ⟨m, hm, hv⟩
    · exact hr.current hlook

end

/-! ## Asking for a node -/

section

variable {t : Task} {fuel : Nat} {scope : Scope} {i : Nat} {n : Node} {r : Run} {v : Tensor}

/-- At the start no labels are known. -/
theorem known_start (n : Node) : Run.known {} n = none := by
  rw [Run.known]
  split <;> rfl

/-- Asking for a node whose labels are known. -/
theorem eval_known (hn : t.model.node? i = some n) (hv : r.known n = some v) : (eval t (fuel + 1) scope i).run r = (.ok v, r) := by
  rw [eval, hn]
  dsimp only
  rw [run_bind_ok (run_state r), hv]
  rfl

/-- Asking for a node whose labels are not known: it is computed, and the labels are kept. -/
theorem eval_unknown (hn : t.model.node? i = some n) (hr : r.known n = none) : (eval t (fuel + 1) scope i).run r =
    match (compute t (eval t fuel) scope n).run r with
      | (.ok v, r') => (.ok v, r'.keep n v)
      | (.error f, r') => (.error f, r') := by
  rw [eval, hn]
  dsimp only
  rw [run_bind_ok (run_state r), hr]
  dsimp only
  rw [run_bind]
  rcases (compute t (eval t fuel) scope n).run r with ⟨f | v, r'⟩ <;> rfl

end

/-- Evaluating a listed node of a model gives the value of its term, whatever labels a sound run has kept. -/
theorem eval_gives {s : Scene} {es : List Entry} {t : Task} (h : Plays s es t) (fuel : Nat) :
    ∀ {m : Entry} (scope : Scope), m ∈ es → (∃ n, t.model.node? m.node.id = some n) → t.model.rank m.node.id < fuel →
      Gives s es t scope (eval t fuel scope m.node.id) (m.term.value s scope) := by
  induction fuel with
  | zero => exact fun _ _ _ hlt => absurd hlt (Nat.not_lt_zero _)
  | succ fuel ih =>
    intro m scope hm ⟨n, hn⟩ hrank
    have hid := h.ledger.getElem?_id hm
    obtain rfl : m.node = n := node_eq_of_holds h.holds hid hn
    have hstands : Stands es t m.node.id m := ⟨hid, hn⟩
    have hcompute : Gives s es t scope (compute t (eval t fuel) scope m.node) (m.term.value s scope) := by
      refine compute_gives h hm fun m' hm' hdep scope' => ?_
      obtain ⟨hn', hlt⟩ := h.holds.deps_rank h.ledger.ordered hn hdep
      exact ih scope' hm' hn' (by omega)
    intro r hr
    cases hknown : r.known m.node with
    | some v =>
      rw [eval_known hn hknown, hr.known hstands hknown]
      exact ⟨rfl, fun _ _ => hr⟩
    | none =>
      obtain ⟨hout, hsound⟩ := hcompute r hr
      rw [eval_unknown hn hknown]
      rcases hrun : (compute t (eval t fuel) scope m.node).run r with ⟨e | v, r'⟩
      · rw [hrun] at hout
        exact ⟨hout, fun _ ha => by cases ha⟩
      · rw [hrun] at hout hsound
        exact ⟨hout, fun _ _ => (hsound v rfl).keep h hstands (outcome_eq_ok.mp hout.symm)⟩

end Evaluator

end ModalGraph
