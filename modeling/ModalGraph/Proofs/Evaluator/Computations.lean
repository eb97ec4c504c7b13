import ModalGraph.Proofs.Evaluator.Course

/-!
# What an evaluation computes

Computing a node may start iterations, and each turn of an iteration is a frame of its own: labels of nodes that depend on variables are
kept for the frame only. `Task.computations` lists every time that an evaluation computes a node, with the frame in which it does; the
list follows the evaluator step by step (`thenLog`), and every call for a node whose labels are not known is in it
(`Comes.mem_computations`).

A step is frugal (`Frugal`) if it computes no node whose labels are known where it starts, and nothing twice. The labels of all that it
has computed are known afterwards, so steps in a row are frugal if each of them is; a node does not ask for itself, since the nodes
that it reads from have a smaller rank. So evaluating a node is frugal (`eval_frugal`).
-/

namespace ModalGraph

namespace Evaluator

/-! ## Computations -/

/-- The turns of fixpoints that are going on, the innermost one first: the number of the fixpoint's node, and how many turns it has
taken before. -/
abbrev Frame := List (Nat × Nat)

/-- A node that is computed in a frame. -/
structure Computation where
  frame : Frame
  node : Nat
deriving DecidableEq, Repr

section

variable {α : Type}

/-- What two steps in a row compute, of which the second one goes on from what the first one gives. -/
def thenLog (act : Eval α) (log : Run → List Computation) (next : α → Run → List Computation) (r : Run) : List Computation :=
  log r ++ match act.run r with
    | (.ok a, r') => next a r'
    | (.error _, _) => []

end

/-- What asking for some nodes computes, one after the other. -/
def mapLog (ask : Nat → Eval Tensor) (log : Nat → Run → List Computation) : List Nat → Run → List Computation
  | [] => fun _ => []
  | i :: ids => thenLog (ask i) (log i) fun _ => mapLog ask log ids

/-- What an iteration computes from turn `k` on. -/
def iterateLog (step : Tensor → Eval Tensor) (log : Nat → Tensor → Run → List Computation) : Nat → Nat → Tensor → Run → List Computation
  | _, 0, _ => fun _ => []
  | k, remaining + 1, x =>
    thenLog checkLive (fun _ => []) fun _ =>
      thenLog (step x) (log k x) fun y => if y.equal x then fun _ => [] else iterateLog step log (k + 1) remaining y

/-- What computing a node in a frame makes other nodes compute. -/
def computeLog (t : Task) (ask : Scope → Nat → Eval Tensor) (log : Frame → Scope → Nat → Run → List Computation) (frame : Frame)
    (scope : Scope) (n : Node) : Run → List Computation :=
  match n.kind with
  | .psi =>
    match n.inputs, n.operators with
    | [i], .psi _ => log frame scope i
    | _, _ => fun _ => []
  | .concat => mapLog (ask scope) (log frame scope) n.inputs
  | .diamond =>
    match n.inputs, n.operators with
    | [i], .diamond _ _ => log frame scope i
    | _, _ => fun _ => []
  | .fixpoint =>
    match n.binder, n.body with
    | some b, some body =>
      thenLog (liftM (t.start b)) (fun _ => [])
        (iterateLog (bodyStep t ask scope b body)
          (fun k x r => log ((n.id, k) :: frame) ((b.var, x) :: scope) body { r with current := [] }) 0
          (t.limit (b.init.getD []).length))
    | _, _ => fun _ => []
  | _ => fun _ => []

/-- What asking for a node in a frame computes: nothing if its labels are known, else the node and what it asks for. -/
def evalLog (t : Task) : Nat → Frame → Scope → Nat → Run → List Computation
  | 0, _, _, _, _ => []
  | fuel + 1, frame, scope, id, r =>
    match t.model.node? id with
    | none => []
    | some n =>
      if (r.known n).isSome then [] else ⟨frame, id⟩ :: computeLog t (eval t fuel) (evalLog t fuel) frame scope n r

/-- Every time that an evaluation computes a node. -/
def Task.computations (t : Task) : List Computation :=
  evalLog t (t.model.nodes.length + 1) [] [] t.model.output {}

/-! ## Labels that are kept -/

/-- Labels are kept for a number. -/
abbrev Memo.Has (m : Memo) (i : Nat) : Prop :=
  (m.lookup i).isSome = true

/-- A run keeps what another one keeps. -/
structure Grows (r r' : Run) : Prop where
  closed : ∀ i, r.closed.Has i → r'.closed.Has i
  current : ∀ i, r.current.Has i → r'.current.Has i

theorem Grows.refl (r : Run) : Grows r r :=
  ⟨fun _ h => h, fun _ h => h⟩

theorem Grows.trans {r r' r'' : Run} (h : Grows r r') (h' : Grows r' r'') : Grows r r'' :=
  ⟨fun i hi => h'.closed i (h.closed i hi), fun i hi => h'.current i (h.current i hi)⟩

/-- A step that leaves a part of the run as it is. -/
def Leaves {α β : Type} (part : Run → β) (act : Eval α) : Prop :=
  ∀ r, part (act.run r).2 = part r

namespace Leaves

variable {α β γ : Type} {part : Run → γ}

theorem pure (a : α) : Leaves part (Pure.pure a) :=
  fun _ => rfl

theorem throw (f : Failure) : Leaves part (MonadExcept.throw f : Eval α) :=
  fun _ => rfl

theorem lift (x : Except Failure α) : Leaves part (liftM x) := by
  intro r
  rw [run_lift]

theorem change {f : Run → Run} (h : ∀ r, part (f r) = part r) : Leaves part (modify f) :=
  h

theorem bind {act : Eval α} {f : α → Eval β} (h : Leaves part act) (hf : ∀ a, Leaves part (f a)) : Leaves part (act >>= f) := by
  intro r
  have hact := h r
  rw [run_bind]
  rcases hrun : act.run r with ⟨a | a, r'⟩
  · rw [hrun] at hact
    exact hact
  · rw [hrun] at hact
    exact (hf a r').trans hact

theorem checkLive (h : ∀ r : Run, part { r with patience := r.patience.spent } = part r) : Leaves part checkLive := by
  refine bind (fun _ => rfl) fun r => ?_
  split
  · exact throw .canceled
  · exact change h

end Leaves

/-- The labels that a run keeps. -/
def Run.memos (r : Run) : Memo × Memo :=
  (r.closed, r.current)

/-- A step that keeps no labels and drops none. -/
abbrev Quiet {α : Type} (act : Eval α) : Prop :=
  Leaves Run.memos act

theorem Quiet.grows {α : Type} {act : Eval α} (h : Quiet act) (r : Run) : Grows r (act.run r).2 := by
  obtain ⟨hclosed, hcurrent⟩ := Prod.mk.inj (h r)
  exact ⟨fun i hi => hclosed ▸ hi, fun i hi => hcurrent ▸ hi⟩

/-! ## Where labels are kept -/

/-- Whether the node of a number depends on no variable, so that its labels are kept until the end. -/
def Task.isClosed (t : Task) (i : Nat) : Bool :=
  (t.model.node? i).any Node.isClosed

/-- Where the labels of a computation are kept: those of a node that depends on no variable for the whole evaluation, the others for
the frame. -/
def Task.place (t : Task) (e : Computation) : Computation :=
  if t.isClosed e.node then ⟨[], e.node⟩ else e

/-- In a frame, a run knows the labels of a computation. -/
def Task.Knows (t : Task) (frame : Frame) (r : Run) (e : Computation) : Prop :=
  if t.isClosed e.node then r.closed.Has e.node else e.frame = frame ∧ r.current.Has e.node

section

variable {t : Task} {frame : Frame} {r r' : Run} {e e' : Computation}

theorem place_node (t : Task) (e : Computation) : (t.place e).node = e.node := by
  unfold Task.place
  split <;> rfl

theorem place_of_closed (h : t.isClosed e.node = true) : t.place e = ⟨[], e.node⟩ :=
  if_pos h

theorem place_of_open (h : t.isClosed e.node = false) : t.place e = e :=
  if_neg (by rw [h]; exact Bool.false_ne_true)

theorem knows_of_closed (h : t.isClosed e.node = true) : t.Knows frame r e ↔ r.closed.Has e.node := by
  rw [Task.Knows, if_pos h]

theorem knows_of_open (h : t.isClosed e.node = false) : t.Knows frame r e ↔ e.frame = frame ∧ r.current.Has e.node := by
  rw [Task.Knows, if_neg (by rw [h]; exact Bool.false_ne_true)]

theorem Task.Knows.mono (h : t.Knows frame r e) (hgrows : Grows r r') : t.Knows frame r' e := by
  cases hclosed : t.isClosed e.node with
  | true =>
    rw [knows_of_closed hclosed] at h ⊢
    exact hgrows.closed _ h
  | false =>
    rw [knows_of_open hclosed] at h ⊢
    exact ⟨h.1, hgrows.current _ h.2⟩

/-- Computations with labels in one place are of one node, and in one frame if the node depends on a variable. -/
theorem place_eq (h : t.place e = t.place e') : e'.node = e.node ∧ (t.isClosed e.node = false → e' = e) := by
  have hnode : e.node = e'.node := by rw [← place_node t e, h, place_node]
  refine ⟨hnode.symm, fun hopen => ?_⟩
  rw [place_of_open hopen, place_of_open (hnode ▸ hopen)] at h
  exact h.symm

theorem Task.Knows.congr (h : t.Knows frame r e) (hplace : t.place e = t.place e') : t.Knows frame r e' := by
  obtain ⟨hnode, hframe⟩ := place_eq hplace
  cases hclosed : t.isClosed e.node with
  | true =>
    rw [knows_of_closed hclosed] at h
    rw [knows_of_closed (hnode ▸ hclosed), hnode]
    exact h
  | false => exact hframe hclosed ▸ h

/-- The labels of a node are known exactly if those of computing it are. -/
theorem known_iff_knows {id : Nat} {n : Node} (hn : t.model.node? id = some n) (frame : Frame) (r : Run) :
    (r.known n).isSome = true ↔ t.Knows frame r ⟨frame, id⟩ := by
  obtain rfl := (Model.mem_of_node? hn).2
  have hclosed : t.isClosed n.id = n.isClosed := by rw [Task.isClosed, hn, Option.any_some]
  unfold Run.known Task.Knows
  rw [hclosed]
  split
  · exact Iff.rfl
  · exact ⟨fun h => ⟨rfl, h⟩, fun h => h.2⟩

/-- Labels that are kept for a node. -/
theorem has_cons {memo : Memo} {i j : Nat} {v : Tensor} : Memo.Has ((j, v) :: memo) i ↔ i = j ∨ memo.Has i := by
  unfold Memo.Has
  rw [List.lookup_cons]
  by_cases h : i = j
  · rw [beq_iff_eq.mpr h]
    exact ⟨fun _ => .inl h, fun _ => rfl⟩
  · rw [beq_false_of_ne h]
    exact ⟨.inr, fun hi => hi.resolve_left h⟩

theorem grows_keep (r : Run) (n : Node) (v : Tensor) : Grows r (r.keep n v) := by
  unfold Run.keep
  split
  · exact ⟨fun i hi => has_cons.mpr (.inr hi), fun i hi => hi⟩
  · exact ⟨fun i hi => hi, fun i hi => has_cons.mpr (.inr hi)⟩

theorem known_keep (r : Run) (n : Node) (v : Tensor) : ((r.keep n v).known n).isSome = true := by
  unfold Run.keep Run.known
  split <;> exact has_cons.mpr (.inl rfl)

theorem closed_keep {n : Node} {v : Tensor} {i : Nat} (h : (r.keep n v).closed.Has i) : i = n.id ∨ r.closed.Has i := by
  unfold Run.keep at h
  split at h
  · exact has_cons.mp h
  · exact .inr h

end

/-! ## Frugal steps -/

/-- Computations in a frame, from a run, that are of nodes of a rank below a bound, of which the run knows no labels, and none twice. A
frame inside is a turn of a fixpoint that is one of the computations, or one of the turns given. -/
structure Spends (t : Task) (rank : Nat → Nat) (frame : Frame) (bound : Nat) (turns : Nat × Nat → Prop) (r : Run)
    (log : List Computation) : Prop where
  nodup : (log.map t.place).Nodup
  fresh : ∀ e ∈ log, ¬ t.Knows frame r e
  owned : ∀ e ∈ log, e.frame = frame ∨ ∃ p, p :: frame <:+ e.frame ∧ (turns p ∨ ⟨frame, p.1⟩ ∈ log)
  below : ∀ e ∈ log, rank e.node < bound

/-- The labels of computations are known, as far as they are kept for longer than a frame inside. -/
def Task.Keeps (t : Task) (frame : Frame) (r : Run) (log : List Computation) : Prop :=
  ∀ e ∈ log, t.isClosed e.node = true ∨ e.frame = frame → t.Knows frame r e

/-- A step and what it computes: nothing that is known or computed before, and all that it has computed is known when it succeeds. -/
structure Frugal (t : Task) (rank : Nat → Nat) (frame : Frame) (bound : Nat) (turns : Nat × Nat → Prop) {α : Type} (act : Eval α)
    (log : Run → List Computation) : Prop where
  spends : ∀ r, Spends t rank frame bound turns r (log r)
  grows : ∀ r, Grows r (act.run r).2
  keeps : ∀ {r a r'}, act.run r = (.ok a, r') → t.Keeps frame r' (log r)
  traced : ∀ r i, (act.run r).2.closed.Has i → r.closed.Has i ∨ ∃ e ∈ log r, e.node = i

section

variable {t : Task} {rank : Nat → Nat} {frame : Frame} {bound : Nat} {turns turns' : Nat × Nat → Prop} {r r' : Run}
  {log log' : List Computation}

theorem Spends.nil : Spends t rank frame bound turns r [] :=
  ⟨List.nodup_nil, nofun, nofun, nofun⟩

theorem Spends.imp (h : Spends t rank frame bound turns r log) (himp : ∀ p, turns p → turns' p) :
    Spends t rank frame bound turns' r log := by
  refine ⟨h.nodup, h.fresh, fun e he => (h.owned e he).imp_right ?_, h.below⟩
  rintro ⟨p, hp, howner⟩
  exact ⟨p, hp, howner.imp_left (himp p)⟩

/-- A computation with labels in the place of an earlier one is of a node whose labels are known, or both are in the same frame inside,
so computing the fixpoint of that frame would be done twice itself. -/
theorem Spends.disjoint (h : Spends t rank frame bound turns r log) (hkeeps : t.Keeps frame r' log)
    (h' : Spends t rank frame bound turns' r' log') (hturns : ∀ p, turns p → ¬ turns' p)
    (hbound : ∀ p, turns p ∨ turns' p → bound ≤ rank p.1) :
    (log.map t.place).Disjoint (log'.map t.place) := by
  have hhere : ∀ e ∈ log, ∀ e' ∈ log', t.place e = t.place e' → t.isClosed e.node = true ∨ e.frame = frame → False :=
    fun e he e' he' hplace hkept => h'.fresh e' he' ((hkeeps e he hkept).congr hplace)
  intro s hs hs'
  obtain ⟨e, he, rfl⟩ := List.mem_map.mp hs
  obtain ⟨e', he', hplace⟩ := List.mem_map.mp hs'
  cases hclosed : t.isClosed e.node with
  | true => exact hhere e he e' he' hplace.symm (.inl hclosed)
  | false =>
    obtain rfl : e' = e := (place_eq hplace.symm).2 hclosed
    rcases h.owned e' he with hframe | ⟨p, hp, howner⟩
    · exact hhere e' he e' he' rfl (.inr hframe)
    · rcases h'.owned e' he' with hframe | ⟨p', hp', howner'⟩
      · exact hhere e' he e' he' rfl (.inr hframe)
      · -- Both frames inside are the same turn of the same fixpoint.
        obtain ⟨rfl, -⟩ := List.cons.inj ((List.suffix_of_suffix_length_le hp hp' (Nat.le_refl _)).eq_of_length rfl)
        rcases howner with howner | howner
        · rcases howner' with howner' | howner'
          · exact hturns p howner howner'
          · exact absurd (h'.below _ howner') (Nat.not_lt_of_le (hbound p (.inl howner)))
        · rcases howner' with howner' | howner'
          · exact absurd (h.below _ howner) (Nat.not_lt_of_le (hbound p (.inr howner')))
          · exact hhere _ howner _ howner' rfl (.inr rfl)

theorem Spends.append (h : Spends t rank frame bound turns r log) (hgrows : Grows r r') (hkeeps : t.Keeps frame r' log)
    (h' : Spends t rank frame bound turns' r' log') (hturns : ∀ p, turns p → ¬ turns' p)
    (hbound : ∀ p, turns p ∨ turns' p → bound ≤ rank p.1) :
    Spends t rank frame bound (fun p => turns p ∨ turns' p) r (log ++ log') := by
  refine ⟨?_, fun e he => ?_, fun e he => ?_, fun e he => ?_⟩
  · rw [List.map_append]
    exact h.nodup.append h'.nodup (h.disjoint hkeeps h' hturns hbound)
  · rcases List.mem_append.mp he with he | he
    · exact h.fresh e he
    · exact fun hknows => h'.fresh e he (hknows.mono hgrows)
  · rcases List.mem_append.mp he with he | he
    · refine (h.owned e he).imp_right ?_
      rintro ⟨p, hp, howner⟩
      exact ⟨p, hp, howner.imp .inl (List.mem_append_left _)⟩
    · refine (h'.owned e he).imp_right ?_
      rintro ⟨p, hp, howner⟩
      exact ⟨p, hp, howner.imp .inr (List.mem_append_right _)⟩
  · rcases List.mem_append.mp he with he | he
    · exact h.below e he
    · exact h'.below e he

theorem Task.Keeps.append (hkeeps : t.Keeps frame r log) (hgrows : Grows r r') (hkeeps' : t.Keeps frame r' log') :
    t.Keeps frame r' (log ++ log') := by
  intro e he hkept
  rcases List.mem_append.mp he with he | he
  · exact (hkeeps e he hkept).mono hgrows
  · exact hkeeps' e he hkept

/-- Computing a node, and what it computes besides. -/
theorem Spends.cons {id : Nat} (h : Spends t rank frame (rank id) (fun p => p.1 = id) r log) (hfresh : ¬ t.Knows frame r ⟨frame, id⟩)
    (hlt : rank id < bound) : Spends t rank frame bound (fun _ => False) r (⟨frame, id⟩ :: log) := by
  refine ⟨?_, List.forall_mem_cons.mpr ⟨hfresh, h.fresh⟩, List.forall_mem_cons.mpr ⟨.inl rfl, fun e he => ?_⟩,
    List.forall_mem_cons.mpr ⟨hlt, fun e he => (h.below e he).trans hlt⟩⟩
  · refine List.nodup_cons.mpr ⟨fun hmem => ?_, h.nodup⟩
    obtain ⟨e, he, hplace⟩ := List.mem_map.mp hmem
    have hnode : e.node = id := (place_eq hplace.symm).1
    exact absurd (h.below e he) (hnode ▸ Nat.lt_irrefl _)
  · refine (h.owned e he).imp_right ?_
    rintro ⟨p, hp, howner⟩
    refine ⟨p, hp, .inr ?_⟩
    rcases howner with rfl | howner
    · exact List.mem_cons_self
    · exact List.mem_cons_of_mem _ howner

/-- What is computed in a frame of its own, seen from the frame around. -/
theorem Spends.outside {p : Nat × Nat} (h : Spends t rank (p :: frame) bound (fun _ => False) { r with current := [] } log) :
    Spends t rank frame bound (· = p) r log ∧ ∀ e ∈ log, e.frame ≠ frame := by
  have hinside : ∀ e ∈ log, p :: frame <:+ e.frame := by
    intro e he
    rcases h.owned e he with hframe | ⟨p', hp', -⟩
    · rw [hframe]
    · exact (List.suffix_cons p' _).trans hp'
  have hne : ∀ e ∈ log, e.frame ≠ frame := by
    intro e he heq
    have hlen := (hinside e he).length_le
    rw [heq, List.length_cons] at hlen
    omega
  refine ⟨⟨h.nodup, fun e he hknows => ?_, fun e he => .inr ⟨p, hinside e he, .inl rfl⟩, h.below⟩, hne⟩
  cases hclosed : t.isClosed e.node with
  | true =>
    refine h.fresh e he ?_
    rw [knows_of_closed hclosed] at hknows ⊢
    exact hknows
  | false =>
    rw [knows_of_open hclosed] at hknows
    exact hne e he hknows.1

end

section

variable {α β : Type} {act : Eval α} {f : α → Eval β}

theorem thenLog_nil (act : Eval α) (log : Run → List Computation) : thenLog act log (fun _ _ => []) = log := by
  funext r
  unfold thenLog
  split
  · exact List.append_nil _
  · exact List.append_nil _

theorem nil_thenLog {act : Eval α} {next : α → Run → List Computation} {r r' : Run} {a : α} (h : act.run r = (.ok a, r')) :
    thenLog act (fun _ => []) next r = next a r' := by
  rw [thenLog, h, List.nil_append]

end

namespace Frugal

variable {t : Task} {rank : Nat → Nat} {frame : Frame} {bound : Nat} {turns turns' : Nat × Nat → Prop} {α β : Type} {act : Eval α}
  {log : Run → List Computation}

theorem imp (h : Frugal t rank frame bound turns act log) (himp : ∀ p, turns p → turns' p) :
    Frugal t rank frame bound turns' act log :=
  ⟨fun r => (h.spends r).imp himp, h.grows, h.keeps, h.traced⟩

/-- A step that computes nothing. -/
theorem quiet (h : Quiet act) : Frugal t rank frame bound turns act fun _ => [] :=
  ⟨fun _ => .nil, h.grows, fun _ => nofun, fun r _ hi => .inl ((Prod.mk.inj (h r)).1 ▸ hi)⟩

theorem bind {f : α → Eval β} {next : α → Run → List Computation} (h : Frugal t rank frame bound turns act log)
    (hf : ∀ a, Frugal t rank frame bound turns' (f a) (next a)) (hturns : ∀ p, turns p → ¬ turns' p)
    (hbound : ∀ p, turns p ∨ turns' p → bound ≤ rank p.1) :
    Frugal t rank frame bound (fun p => turns p ∨ turns' p) (act >>= f) (thenLog act log next) := by
  refine ⟨fun r => ?_, fun r => ?_, fun {r b r'} hrun => ?_, fun r i hi => ?_⟩
  · have hgrows := h.grows r
    unfold thenLog
    rcases hrun : act.run r with ⟨e | a, r'⟩
    · rw [List.append_nil]
      exact (h.spends r).imp fun p => .inl
    · rw [hrun] at hgrows
      exact (h.spends r).append hgrows (h.keeps hrun) ((hf a).spends r') hturns hbound
  · have hgrows := h.grows r
    rw [run_bind]
    rcases hrun : act.run r with ⟨e | a, r'⟩
    · rw [hrun] at hgrows
      exact hgrows
    · rw [hrun] at hgrows
      exact hgrows.trans ((hf a).grows r')
  · obtain ⟨a, r₁, hact, hnext⟩ := run_bind_inv hrun
    have hgrows := (hf a).grows r₁
    rw [hnext] at hgrows
    rw [thenLog, hact]
    exact (h.keeps hact).append hgrows ((hf a).keeps hnext)
  · have htraced := h.traced r i
    rw [run_bind] at hi
    unfold thenLog
    rcases hrun : act.run r with ⟨e | a, r'⟩
    · rw [hrun] at hi htraced
      rw [List.append_nil]
      exact htraced hi
    · rw [hrun] at hi htraced
      rcases (hf a).traced r' i hi with hi | ⟨e, he, rfl⟩
      · refine (htraced hi).imp_right ?_
        rintro ⟨e, he, rfl⟩
        exact ⟨e, List.mem_append_left _ he, rfl⟩
      · exact .inr ⟨e, List.mem_append_right _ he, rfl⟩

/-- A step before one that computes nothing. -/
theorem followed {f : α → Eval β} (h : Frugal t rank frame bound turns act log) (hf : ∀ a, Quiet (f a))
    (hbound : ∀ p, turns p → bound ≤ rank p.1) : Frugal t rank frame bound turns (act >>= f) log := by
  have hnone : ∀ a, Frugal t rank frame bound (fun _ => False) (f a) fun _ => [] := fun a => quiet (hf a)
  have hboth := h.bind hnone (fun _ _ => id) fun p hp => hbound p (hp.resolve_right id)
  rw [thenLog_nil] at hboth
  exact hboth.imp fun p hp => hp.resolve_right id

/-- Asking for some nodes, one after the other. -/
theorem mapM {f : Nat → Eval Tensor} {log : Nat → Run → List Computation} {ids : List Nat}
    (h : ∀ i ∈ ids, Frugal t rank frame bound (fun _ => False) (f i) (log i)) :
    Frugal t rank frame bound (fun _ => False) (ids.mapM f) (mapLog f log ids) := by
  induction ids with
  | nil => exact quiet (Leaves.pure [])
  | cons i ids ih =>
    rw [List.mapM_cons]
    have htail : ∀ x : Tensor, Frugal t rank frame bound (fun _ => False) (ids.mapM f >>= fun xs => Pure.pure (x :: xs))
        (mapLog f log ids) := fun x =>
      (ih fun j hj => h j (List.mem_cons_of_mem i hj)).followed (fun xs => Leaves.pure (x :: xs)) fun _ hp => hp.elim
    exact ((h i List.mem_cons_self).bind htail (fun _ hp => hp.elim) fun _ hp => (hp.elim id id).elim).imp fun _ hp => hp.elim id id

/-- A step in a frame of its own. -/
theorem inIteration {p : Nat × Nat} (h : Frugal t rank (p :: frame) bound (fun _ => False) act log) :
    Frugal t rank frame bound (· = p) (Evaluator.inIteration act) fun r => log { r with current := [] } := by
  refine ⟨fun r => (h.spends { r with current := [] }).outside.1, fun r => ?_, fun {r a r'} hrun e he hkept => ?_, fun r i hi => ?_⟩
  · rw [run_inIteration]
    exact ⟨(h.grows { r with current := [] }).closed, fun i hi => hi⟩
  · rw [run_inIteration] at hrun
    obtain ⟨hres, rfl⟩ := Prod.mk.inj hrun
    have hclosed : t.isClosed e.node = true := hkept.resolve_right ((h.spends { r with current := [] }).outside.2 e he)
    have hknows := h.keeps (Prod.ext hres rfl) e he (.inl hclosed)
    rw [knows_of_closed hclosed] at hknows ⊢
    exact hknows
  · rw [run_inIteration] at hi
    exact h.traced { r with current := [] } i hi

/-- An iteration of a fixpoint, each turn of which is a frame of its own. -/
theorem iterate {key : Bytes} {limit m : Nat} {step : Tensor → Eval Tensor} {log : Nat → Tensor → Run → List Computation}
    (h : ∀ k x, Frugal t rank frame bound (· = (m, k)) (step x) (log k x)) (hbound : bound ≤ rank m) (remaining : Nat) :
    ∀ (k : Nat) (x : Tensor), Frugal t rank frame bound (fun p => p.1 = m ∧ k ≤ p.2)
      (Evaluator.iterate key limit step remaining x) (iterateLog step log k remaining x) := by
  have hlive : Frugal t rank frame bound (fun _ => False) checkLive fun _ => [] := quiet (Leaves.checkLive fun _ => rfl)
  induction remaining with
  | zero => exact fun k x => quiet ((Leaves.checkLive fun _ => rfl).bind fun _ => Leaves.throw _)
  | succ remaining ih =>
    intro k x
    rw [Evaluator.iterate, iterateLog]
    have hnext : ∀ y : Tensor, Frugal t rank frame bound (fun p => p.1 = m ∧ k + 1 ≤ p.2)
        (if y.equal x then Pure.pure (x, limit - remaining) else Evaluator.iterate key limit step remaining y)
        (if y.equal x then fun _ => [] else iterateLog step log (k + 1) remaining y) := by
      intro y
      split
      · exact quiet (Leaves.pure _)
      · exact ih (k + 1) y
    have hturn := (h k x).bind hnext (by rintro p rfl ⟨-, hle⟩; exact Nat.not_succ_le_self k hle)
      (by rintro p (rfl | ⟨rfl, -⟩) <;> exact hbound)
    refine (hlive.bind (fun _ => hturn) (fun _ hp => hp.elim) ?_).imp ?_
    · rintro p (hp | rfl | ⟨rfl, -⟩)
      · exact hp.elim
      · exact hbound
      · exact hbound
    · rintro p (hp | rfl | ⟨hp, hle⟩)
      · exact hp.elim
      · exact ⟨rfl, Nat.le_refl k⟩
      · exact ⟨hp, Nat.le_of_succ_le hle⟩

end Frugal

section

variable {t : Task} {rank : Nat → Nat}

/-- A turn of a fixpoint is frugal, if asking for the nodes that the fixpoint reads from is. -/
theorem bodyStep_frugal {ask : Scope → Nat → Eval Tensor} {log : Frame → Scope → Nat → Run → List Computation} {n : Node}
    (hask : ∀ i ∈ n.deps, ∀ frame scope, Frugal t rank frame (rank n.id) (fun _ => False) (ask scope i) (log frame scope i))
    {body : Nat} (hbody : n.body = some body) (frame : Frame) (scope : Scope) (b : Binder) (k : Nat) (x : Tensor) :
    Frugal t rank frame (rank n.id) (· = (n.id, k)) (bodyStep t ask scope b body x)
      fun r => log ((n.id, k) :: frame) ((b.var, x) :: scope) body { r with current := [] } := by
  refine (hask body (by simp [Node.deps, hbody]) ((n.id, k) :: frame) ((b.var, x) :: scope)).inIteration.followed
    (fun y => (Leaves.lift _).bind fun _ => Leaves.pure y) ?_
  rintro p rfl
  exact Nat.le_refl _

/-- Computing a node is frugal, if asking for the nodes that it reads from is. -/
theorem compute_frugal {ask : Scope → Nat → Eval Tensor} {log : Frame → Scope → Nat → Run → List Computation} {n : Node}
    (hask : ∀ i ∈ n.deps, ∀ frame scope, Frugal t rank frame (rank n.id) (fun _ => False) (ask scope i) (log frame scope i))
    (frame : Frame) (scope : Scope) :
    Frugal t rank frame (rank n.id) (fun p => p.1 = n.id) (compute t ask scope n) (computeLog t ask log frame scope n) := by
  have hinputs : ∀ i ∈ n.inputs, Frugal t rank frame (rank n.id) (fun _ => False) (ask scope i) (log frame scope i) :=
    fun i hi => hask i (List.mem_append_left _ hi) frame scope
  unfold compute
  cases hkind : n.kind with
  | input =>
    rw [computeLog, hkind]
    exact Frugal.quiet (Leaves.pure _)
  | psi =>
    dsimp only
    split
    · rename_i i psi hin hop
      rw [computeLog, hkind, hin, hop]
      refine ((hinputs i (by rw [hin]; exact List.mem_singleton_self i)).followed (fun x => ?_) fun _ hp => hp.elim).imp
        fun _ hp => hp.elim
      split
      · exact Leaves.bind (Leaves.change (f := fun r => { r with patience := .times 0 }) fun r => rfl) fun _ => Leaves.lift _
      · exact Leaves.lift _
    · rename_i hno
      rw [computeLog, hkind]
      dsimp only
      split
      · exact (hno _ _ ‹_› ‹_›).elim
      · exact Frugal.quiet (Leaves.throw _)
  | concat =>
    rw [computeLog, hkind]
    exact ((Frugal.mapM hinputs).followed (fun _ => Leaves.lift _) fun _ hp => hp.elim).imp fun _ hp => hp.elim
  | diamond =>
    dsimp only
    split
    · rename_i i phi sigma hin hop
      rw [computeLog, hkind, hin, hop]
      exact ((hinputs i (by rw [hin]; exact List.mem_singleton_self i)).followed (fun x => Leaves.lift _) fun _ hp => hp.elim).imp
        fun _ hp => hp.elim
    · rename_i hno
      rw [computeLog, hkind]
      dsimp only
      split
      · exact (hno _ _ _ ‹_› ‹_›).elim
      · exact Frugal.quiet (Leaves.throw _)
  | «variable» =>
    rw [computeLog, hkind]
    dsimp only
    split
    · exact Frugal.quiet (Leaves.pure _)
    · exact Frugal.quiet (Leaves.throw _)
  | fixpoint =>
    dsimp only
    split
    · rename_i b body hb hbody
      rw [computeLog, hkind, hb, hbody]
      have hturn := bodyStep_frugal hask hbody frame scope b
      have hstart : Frugal t rank frame (rank n.id) (fun _ => False) (liftM (t.start b)) fun _ => [] := Frugal.quiet (Leaves.lift _)
      refine (hstart.bind (fun x => (Frugal.iterate hturn (Nat.le_refl _) _ 0 x).followed (fun p => ?_) ?_) ?_ ?_).imp ?_
      · exact Leaves.bind (Leaves.change (f := fun r => { r with events := .fixpointConverged n.key b.least p.2 :: r.events })
          fun r => rfl) fun _ => Leaves.pure p.1
      · rintro p ⟨hp, -⟩
        rw [hp]
      · exact fun _ hp => hp.elim
      · rintro p (hp | ⟨hp, -⟩)
        · exact hp.elim
        · rw [hp]
      · exact fun p hp => (hp.resolve_left id).1
    · rename_i hno
      rw [computeLog, hkind]
      dsimp only
      split
      · exact (hno _ _ ‹_› ‹_›).elim
      · exact Frugal.quiet (Leaves.throw _)
  | other code =>
    rw [computeLog, hkind]
    exact Frugal.quiet (Leaves.throw _)

section

variable {fuel : Nat} {scope : Scope} {i : Nat} {n : Node} {r : Run} {v : Tensor}

theorem evalLog_known {frame : Frame} (hn : t.model.node? i = some n) (hv : r.known n = some v) :
    evalLog t (fuel + 1) frame scope i r = [] := by
  rw [evalLog, hn]
  dsimp only
  rw [hv, if_pos Option.isSome_some]

theorem evalLog_unknown {frame : Frame} (hn : t.model.node? i = some n) (hr : r.known n = none) :
    evalLog t (fuel + 1) frame scope i r =
      ⟨frame, i⟩ :: computeLog t (eval t fuel) (evalLog t fuel) frame scope n r := by
  rw [evalLog, hn]
  dsimp only
  rw [hr, if_neg (by simp)]

end

/-- Asking for a node is frugal, by induction on the fuel. -/
theorem eval_frugal (hrank : ∀ {i n}, t.model.node? i = some n → ∀ d ∈ n.deps, rank d < rank i) (fuel : Nat) :
    ∀ {frame : Frame} {scope : Scope} {id bound : Nat}, rank id < bound →
      Frugal t rank frame bound (fun _ => False) (eval t fuel scope id) (evalLog t fuel frame scope id) := by
  induction fuel with
  | zero => exact fun _ => Frugal.quiet (Leaves.throw _)
  | succ fuel ih =>
    intro frame scope id bound hlt
    cases hn : t.model.node? id with
    | none =>
      have hlog : evalLog t (fuel + 1) frame scope id = fun _ => [] := funext fun r => by rw [evalLog, hn]
      rw [hlog, eval, hn]
      exact Frugal.quiet (Leaves.throw _)
    | some n =>
      obtain rfl := (Model.mem_of_node? hn).2
      have hcompute : Frugal t rank frame (rank n.id) (fun p => p.1 = n.id) (compute t (eval t fuel) scope n)
          (computeLog t (eval t fuel) (evalLog t fuel) frame scope n) :=
        compute_frugal (fun i hi frame scope => ih (hrank hn i hi)) frame scope
      refine ⟨fun r => ?_, fun r => ?_, fun {r v r'} hrun => ?_, fun r i hi => ?_⟩
      · cases hr : r.known n with
        | some v =>
          rw [evalLog_known hn hr]
          exact .nil
        | none =>
          rw [evalLog_unknown hn hr]
          refine (hcompute.spends r).cons (fun hknows => ?_) hlt
          rw [← known_iff_knows hn, hr] at hknows
          cases hknows
      · cases hr : r.known n with
        | some v =>
          rw [eval_known hn hr]
          exact Grows.refl r
        | none =>
          have hgrows := hcompute.grows r
          rw [eval_unknown hn hr]
          rcases hrun : (compute t (eval t fuel) scope n).run r with ⟨e | v, r'⟩
          · rw [hrun] at hgrows
            exact hgrows
          · rw [hrun] at hgrows
            exact hgrows.trans (grows_keep r' n v)
      · cases hr : r.known n with
        | some v =>
          rw [evalLog_known hn hr]
          exact List.forall_mem_nil _
        | none =>
          rw [eval_unknown hn hr] at hrun
          rw [evalLog_unknown hn hr]
          rcases hrun₁ : (compute t (eval t fuel) scope n).run r with ⟨e | w, r₁⟩
          · rw [hrun₁] at hrun
            cases hrun
          · rw [hrun₁] at hrun
            obtain ⟨-, rfl⟩ := Prod.mk.inj hrun
            refine List.forall_mem_cons.mpr ⟨fun _ => (known_iff_knows hn frame _).mp (known_keep r₁ n w), fun e he hkept => ?_⟩
            exact (hcompute.keeps hrun₁ e he hkept).mono (grows_keep r₁ n w)
      · cases hr : r.known n with
        | some v =>
          rw [eval_known hn hr] at hi
          exact .inl hi
        | none =>
          have htraced := hcompute.traced r i
          rw [eval_unknown hn hr] at hi
          rw [evalLog_unknown hn hr]
          rcases hrun : (compute t (eval t fuel) scope n).run r with ⟨e | v, r'⟩
          · rw [hrun] at hi htraced
            exact (htraced hi).imp_right List.exists_mem_cons_of_exists
          · rw [hrun] at hi htraced
            rcases closed_keep hi with rfl | hi
            · exact .inr ⟨⟨frame, n.id⟩, List.mem_cons_self, rfl⟩
            · exact (htraced hi).imp_right List.exists_mem_cons_of_exists

end

end Evaluator

end ModalGraph
