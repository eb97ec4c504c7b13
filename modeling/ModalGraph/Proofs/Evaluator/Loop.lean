import ModalGraph.Proofs.Evaluator.Alone

/-!
# The loop of a fixpoint

A fixpoint starts from a row at every node, if there is room for it (`Task.HasRoom`), and takes turns, each of which evaluates the body
under the labels that the turn before gave. As long as turns give labels of the shape that the base declares, and other ones than those
they were given, the iteration stays unsettled (`Unsettled`). How it ends depends on the body alone, which may be any function of the
labels of its variable: at the first labels that a turn gives back, with a failure if a turn fails or gives labels of another shape, or
when the limit is reached (`fixpoint_exact`). However it ends, nothing is left of its turns but what depends on no variable (`Restored`).

In the middle of an evaluation the body is evaluated with labels that have been kept before. That this makes no difference is shown in
`ModalGraph.Proofs.Evaluator.Alone`; here every turn gives what the body gives on its own.
-/

namespace ModalGraph

open Formula

namespace Evaluator

/-! ## Turns -/

/-- How many turns a fixpoint may take. -/
def Task.turnLimit (t : Task) (b : Binder) : Nat :=
  t.limit (b.init.getD []).length

theorem Task.turnLimit_pos (t : Task) (b : Binder) : 0 < t.turnLimit b := by
  unfold Task.turnLimit Task.limit
  split
  · omega
  · exact Nat.lt_of_lt_of_le (by decide) (Nat.le_max_left _ _)

/-- There is room for the row of a base at every node. -/
def Task.HasRoom (t : Task) (b : Binder) : Prop :=
  Tensor.hasRoom t.nodes (b.init.getD []).length = true

/-- The row of a base at every node. -/
def Task.broadcast (t : Task) (b : Binder) : Tensor :=
  Tensor.full t.nodes (b.init.getD []) b.dtype

/-- A fixpoint starts from the row of its base at every node, if there is room for it, and else from nothing. -/
theorem Task.start_eq (t : Task) (b : Binder) :
    (t.HasRoom b → t.start b = .ok (t.broadcast b)) ∧ (¬ t.HasRoom b → t.start b = .error .aborted) :=
  ⟨fun hroom => congrArg orAborted (if_pos hroom), fun hroom => congrArg orAborted (if_neg hroom)⟩

/-- What the body of a fixpoint gives under some labels of its variable, evaluated on its own. -/
def bodyAlone (t : Task) (scope : Scope) (b : Binder) (body : Nat) (x : Tensor) : Except Failure Tensor :=
  alone t ((b.var, x) :: scope) body

/-- The body of a fixpoint evaluated in a turn: under some labels of its variable, in an iteration of its own. -/
def inTurn (t : Task) (fuel : Nat) (scope : Scope) (b : Binder) (body : Nat) (x : Tensor) : Eval Tensor :=
  inIteration (eval t fuel ((b.var, x) :: scope) body)

/-- Labels have the shape that the base of a fixpoint declares. -/
def FitsBase (t : Task) (b : Binder) (y : Tensor) : Prop :=
  y.rows = t.nodes ∧ y.cols = (b.init.getD []).length

/-- The failure of a fixpoint whose body gives labels of another shape. -/
def misfit (t : Task) (b : Binder) (y : Tensor) : Failure :=
  .shape ⟨Bytes.ofString "fixpoint " ++ b.name, .bodyShape y.rows y.cols b.base t.nodes (b.init.getD []).length⟩

/-- After `k` turns the iteration of a fixpoint stands at some labels and has not settled: it has started from a row at every node, and
all turns gave labels of the right shape that are not equal to those they were given. -/
inductive Unsettled (t : Task) (scope : Scope) (b : Binder) (body : Nat) : Nat → Tensor → Prop where
  | start : Unsettled t scope b body 0 (t.broadcast b)
  | turn {k : Nat} {x y : Tensor} :
      Unsettled t scope b body k x → bodyAlone t scope b body x = .ok y → FitsBase t b y → y.equal x = false →
        Unsettled t scope b body (k + 1) y

/-- A run in which nothing is left of a fixpoint: the labels kept in the iteration around it are those from before, and all labels kept
are what their nodes give, until the end only those that depend on no variable. -/
structure Restored (t : Task) (scope : Scope) (r r' : Run) : Prop where
  current_eq : r'.current = r.current
  faithful : Faithful t scope r'

section

variable {t : Task} {b : Binder} {y : Tensor}

theorem checkBody_fits (h : FitsBase t b y) : checkBody t b (b.init.getD []).length y = .ok () := by
  rw [checkBody, if_neg]
  rw [not_or, not_not, not_not]
  exact h

theorem checkBody_misfit (h : ¬ FitsBase t b y) : checkBody t b (b.init.getD []).length y = .error (misfit t b y) := by
  rw [checkBody, if_pos]
  · rfl
  · exact not_and_or.mp h

/-- One more turn at the end of some turns. -/
theorem Turns.last {turn : Tensor → Eval Tensor} {k : Nat} {x y z : Tensor} {r r' r'' : Run} (h : Turns turn k x r y r')
    (hz : (turn y).run r' = (.ok z, r'')) : Turns turn (k + 1) x r z r'' := by
  induction h with
  | none => exact .next hz (.none _ _)
  | next hrun _ ih => exact .next hrun (ih hz)

end

/-! ## The loop -/

section

variable {key : Bytes} {limit : Nat} {step : Tensor → Eval Tensor} {x y : Tensor} {r r' : Run} {f : Failure}

/-- No turn is left. -/
theorem iterate_spent (hlive : r.patience = .endless) : (iterate key limit step 0 x).run r = (.error (.nonTermination key limit), r) := by
  rw [iterate, run_bind_ok (run_checkLive hlive), run_fail]

/-- A turn is taken, and the iteration ends or goes on with what it gives. -/
theorem iterate_turn (hlive : r.patience = .endless) (remaining : Nat) : (iterate key limit step (remaining + 1) x).run r =
    (step x >>= fun y => if y.equal x then return (x, limit - remaining) else iterate key limit step remaining y).run r := by
  rw [iterate, run_bind_ok (run_checkLive hlive)]

theorem iterate_settled (hlive : r.patience = .endless) (hrun : (step x).run r = (.ok y, r')) (heq : y.equal x = true) (remaining : Nat) :
    (iterate key limit step (remaining + 1) x).run r = (.ok (x, limit - remaining), r') := by
  rw [iterate_turn hlive, run_bind_ok hrun, if_pos heq, run_return]

theorem iterate_goes_on (hlive : r.patience = .endless) (hrun : (step x).run r = (.ok y, r')) (heq : y.equal x = false) (remaining : Nat) :
    (iterate key limit step (remaining + 1) x).run r = (iterate key limit step remaining y).run r' := by
  rw [iterate_turn hlive, run_bind_ok hrun, if_neg (by rw [heq]; exact Bool.false_ne_true)]

theorem iterate_failed (hlive : r.patience = .endless) (hrun : (step x).run r = (.error f, r')) (remaining : Nat) :
    (iterate key limit step (remaining + 1) x).run r = (.error f, r') := by
  rw [iterate_turn hlive, run_bind, hrun]

end

section

variable {s : Scene} {es : List Compiler.Entry} {t : Task} {fuel : Nat} {scope : Scope} {b : Binder} {body : Nat}

/-- In a turn the body gives what it gives on its own, and nothing is left of it. -/
theorem inTurn_run (h : Plays s es t) {n : Node} (hn : t.model.node? body = some n) (hfuel : t.model.rank body < fuel) {r₀ r : Run}
    (hr : Restored t scope r₀ r) (x : Tensor) :
    ∃ r', (inTurn t fuel scope b body x).run r = (bodyAlone t scope b body x, r') ∧ Restored t scope r₀ r' := by
  obtain ⟨heq, hfaithful⟩ := eval_eq_alone h _ hn rfl hfuel (hr.faithful.inner ((b.var, x) :: scope))
  exact ⟨((inTurn t fuel scope b body x).run r).2, Prod.ext heq rfl, hr.current_eq, hr.faithful.outer hfaithful⟩

variable {r r' : Run} {x y : Tensor} {f : Failure}

/-- A turn whose body gives labels of the right shape. -/
theorem bodyStep_fits (hrun : (inTurn t fuel scope b body x).run r = (.ok y, r')) (hfits : FitsBase t b y) :
    (bodyStep t (eval t fuel) scope b body x).run r = (.ok y, r') := by
  show (inTurn t fuel scope b body x >>= _).run r = _
  rw [run_bind_ok hrun, checkBody_fits hfits]
  rfl

theorem bodyStep_misfit (hrun : (inTurn t fuel scope b body x).run r = (.ok y, r')) (hfits : ¬ FitsBase t b y) :
    (bodyStep t (eval t fuel) scope b body x).run r = (.error (misfit t b y), r') := by
  show (inTurn t fuel scope b body x >>= _).run r = _
  rw [run_bind_ok hrun, checkBody_misfit hfits]
  rfl

theorem bodyStep_failed (hrun : (inTurn t fuel scope b body x).run r = (.error f, r')) :
    (bodyStep t (eval t fuel) scope b body x).run r = (.error f, r') := by
  show (inTurn t fuel scope b body x >>= _).run r = _
  rw [run_bind, hrun]

/-- An iteration that is unsettled after some turns has taken them, and goes on from where it stands. -/
theorem Unsettled.run (h : Plays s es t) {n : Node} (hn : t.model.node? body = some n) (hfuel : t.model.rank body < fuel)
    (hr : Faithful t scope r) {k : Nat} (hx : Unsettled t scope b body k x) (key : Bytes) (limit : Nat) :
    ∃ r', Turns (inTurn t fuel scope b body) k (t.broadcast b) r x r' ∧ Restored t scope r r' ∧
      ∀ remaining, (iterate key limit (bodyStep t (eval t fuel) scope b body) (remaining + k) (t.broadcast b)).run r =
        (iterate key limit (bodyStep t (eval t fuel) scope b body) remaining x).run r' := by
  induction hx with
  | start => exact ⟨r, .none _ _, ⟨rfl, hr⟩, fun _ => rfl⟩
  | @turn k x y _ hy hfits hne ih =>
    obtain ⟨r₁, hturns, hr₁, hgoes⟩ := ih
    obtain ⟨r₂, hrun, hr₂⟩ := inTurn_run h hn hfuel hr₁ x
    rw [hy] at hrun
    refine ⟨r₂, hturns.last hrun, hr₂, fun remaining => ?_⟩
    rw [show remaining + (k + 1) = remaining + 1 + k by omega, hgoes]
    exact iterate_goes_on hr₁.faithful.live (bodyStep_fits hrun hfits) hne remaining

/-- Below the limit an iteration that is unsettled takes another turn, in which the body gives what it gives on its own. -/
theorem Unsettled.next (h : Plays s es t) {n : Node} (hn : t.model.node? body = some n) (hfuel : t.model.rank body < fuel)
    (hr : Faithful t scope r) {k : Nat} (hx : Unsettled t scope b body k x) {limit : Nat} (hk : k < limit) (key : Bytes) :
    ∃ remaining r₁ r₂, limit - remaining = k + 1 ∧ Turns (inTurn t fuel scope b body) k (t.broadcast b) r x r₁ ∧ r₁.patience = .endless ∧
      (inTurn t fuel scope b body x).run r₁ = (bodyAlone t scope b body x, r₂) ∧ Restored t scope r r₂ ∧
      (iterate key limit (bodyStep t (eval t fuel) scope b body) limit (t.broadcast b)).run r =
        (iterate key limit (bodyStep t (eval t fuel) scope b body) (remaining + 1) x).run r₁ := by
  obtain ⟨r₁, hturns, hr₁, hgoes⟩ := hx.run h hn hfuel hr key limit
  obtain ⟨r₂, hrun, hr₂⟩ := inTurn_run h hn hfuel hr₁ x
  obtain ⟨remaining, hlimit⟩ : ∃ remaining, limit = remaining + 1 + k := ⟨limit - k - 1, by omega⟩
  have hiter := hgoes (remaining + 1)
  rw [← hlimit] at hiter
  exact ⟨remaining, r₁, r₂, by omega, hturns, hr₁.faithful.live, hrun, hr₂, hiter⟩

/-- An iteration stays unsettled until the limit, or a turn fails, gives labels of another shape, or gives back what it was given. -/
theorem Unsettled.exists_end (limit : Nat) : ∃ k ≤ limit, ∃ x, Unsettled t scope b body k x ∧ (k = limit ∨
    (∃ f, bodyAlone t scope b body x = .error f) ∨
      ∃ y, bodyAlone t scope b body x = .ok y ∧ (¬ FitsBase t b y ∨ y.equal x = true)) := by
  induction limit with
  | zero => exact ⟨0, Nat.le_refl 0, t.broadcast b, .start, .inl rfl⟩
  | succ limit ih =>
    obtain ⟨k, hk, x, hx, rfl | hend⟩ := ih
    · -- The limit is not reached yet: one more turn.
      cases hy : bodyAlone t scope b body x with
      | error f => exact ⟨k, Nat.le_succ k, x, hx, .inr (.inl ⟨f, hy⟩)⟩
      | ok y =>
        by_cases hfits : FitsBase t b y
        · cases heq : y.equal x with
          | true => exact ⟨k, Nat.le_succ k, x, hx, .inr (.inr ⟨y, hy, .inr heq⟩)⟩
          | false => exact ⟨k + 1, Nat.le_refl _, y, hx.turn hy hfits heq, .inl rfl⟩
        · exact ⟨k, Nat.le_succ k, x, hx, .inr (.inr ⟨y, hy, .inl hfits⟩)⟩
    · exact ⟨k, Nat.le_succ_of_le hk, x, hx, .inr hend⟩

end

/-- With room for what it starts from a fixpoint goes on to its iteration. -/
theorem fixpoint_run {t : Task} {b : Binder} (hroom : t.HasRoom b) (fuel : Nat) (scope : Scope) (node : Node) (body : Nat) (r : Run) :
    (fixpoint t (eval t fuel) scope node b body).run r =
      (iterate node.key (t.turnLimit b) (bodyStep t (eval t fuel) scope b body) (t.turnLimit b) (t.broadcast b) >>= fun p => do
        modify fun r => { r with events := .fixpointConverged node.key b.least p.2 :: r.events }
        return p.1).run r := by
  have hstart : (liftM (t.start b) : Eval Tensor).run r = (.ok (t.broadcast b), r) := by
    rw [run_lift, (t.start_eq b).1 hroom]
  exact run_bind_ok hstart

/-- The failure of its iteration is that of a fixpoint. -/
theorem fixpoint_run_error {t : Task} {fuel : Nat} {scope : Scope} {node : Node} {b : Binder} {body : Nat} {r r' : Run} {f : Failure}
    (hroom : t.HasRoom b)
    (h : (iterate node.key (t.turnLimit b) (bodyStep t (eval t fuel) scope b body) (t.turnLimit b) (t.broadcast b)).run r =
      (.error f, r')) :
    (fixpoint t (eval t fuel) scope node b body).run r = (.error f, r') := by
  rw [fixpoint_run hroom, run_bind, h]

/-- A fixpoint gives the labels that its iteration settles at, and reports the number of turns. -/
theorem fixpoint_run_ok {t : Task} {fuel : Nat} {scope : Scope} {node : Node} {b : Binder} {body : Nat} {r r' : Run} {x : Tensor} {k : Nat}
    (hroom : t.HasRoom b)
    (h : (iterate node.key (t.turnLimit b) (bodyStep t (eval t fuel) scope b body) (t.turnLimit b) (t.broadcast b)).run r =
      (.ok (x, k), r')) :
    (fixpoint t (eval t fuel) scope node b body).run r =
      (.ok x, { r' with events := .fixpointConverged node.key b.least k :: r'.events }) := by
  rw [fixpoint_run hroom, run_bind_ok h, run_bind_ok (run_change _ r'), run_return]

end Evaluator

open Evaluator

/-- How computing a fixpoint ends in any evaluation, whatever its body is. Without room for the labels that it starts from it breaks off
before its body is evaluated, and leaves the run as it is. With that room: if, after `k` turns that have not settled it, with `k` below
the limit, a turn gives back the labels `x` that it was given, then these are the labels of the fixpoint, and `k + 1` turns are
reported. If it has not settled when the limit is reached, then it fails for that, after as many turns as the limit says. If a turn
before that fails or gives labels of another shape, this is the failure. One of these is the case, and in each nothing is left of the
turns. -/
theorem fixpoint_exact {ops : Registries} {settings : Settings} {c : Compiler} (hc : Compiler.Reachable ops settings c)
    (hcalm : ops.Calm) {e : Expr} {t : Task} (hm : c.Returns e t.model) {fuel : Nat} {scope : Scope} {r : Run} {node : Node}
    (hcomes : Comes t ⟨fuel + 1, scope, node.id, r⟩) (hnode : t.model.node? node.id = some node) (hkind : node.kind = .fixpoint)
    {b : Binder} (hb : node.binder = some b) {body : Nat} (hbody : node.body = some body) :
    (¬ t.HasRoom b → (compute t (eval t fuel) scope node).run r = (.error .aborted, r)) ∧
    (t.HasRoom b →
      (∀ k x y, k < t.turnLimit b → Unsettled t scope b body k x → bodyAlone t scope b body x = .ok y → FitsBase t b y →
        y.equal x = true → ∃ r', (compute t (eval t fuel) scope node).run r =
            (.ok x, { r' with events := .fixpointConverged node.key b.least (k + 1) :: r'.events }) ∧
          Turns (inTurn t fuel scope b body) (k + 1) (t.broadcast b) r y r' ∧ Restored t scope r r') ∧
      (∀ x, Unsettled t scope b body (t.turnLimit b) x → ∃ r',
        (compute t (eval t fuel) scope node).run r = (.error (.nonTermination node.key (t.turnLimit b)), r') ∧
          Turns (inTurn t fuel scope b body) (t.turnLimit b) (t.broadcast b) r x r' ∧ Restored t scope r r') ∧
      (∀ k x f, k < t.turnLimit b → Unsettled t scope b body k x → bodyAlone t scope b body x = .error f → ∃ r₁ r',
        (compute t (eval t fuel) scope node).run r = (.error f, r') ∧
          Turns (inTurn t fuel scope b body) k (t.broadcast b) r x r₁ ∧ (inTurn t fuel scope b body x).run r₁ = (.error f, r') ∧
            Restored t scope r r') ∧
      (∀ k x y, k < t.turnLimit b → Unsettled t scope b body k x → bodyAlone t scope b body x = .ok y → ¬ FitsBase t b y → ∃ r',
        (compute t (eval t fuel) scope node).run r = (.error (misfit t b y), r') ∧
          Turns (inTurn t fuel scope b body) (k + 1) (t.broadcast b) r y r' ∧ Restored t scope r r') ∧
      0 < t.turnLimit b ∧ ∃ k ≤ t.turnLimit b, ∃ x, Unsettled t scope b body k x ∧ (k = t.turnLimit b ∨
        (∃ f, bodyAlone t scope b body x = .error f) ∨
          ∃ y, bodyAlone t scope b body x = .ok y ∧ (¬ FitsBase t b y ∨ y.equal x = true))) := by
  obtain ⟨es, hplays, -⟩ := RefinementAux.returns_plays hc hcalm hm t.input t.maxIterations
  obtain ⟨-, hfuel, hr⟩ := hcomes.faithful hplays
  obtain ⟨-, -, -, -, -, -, ⟨n, hn⟩, hrank⟩ := fixpoint_node hplays hnode hkind hb hbody
  have hbodyFuel : t.model.rank body < fuel := Nat.lt_of_lt_of_le hrank (Nat.le_of_lt_succ hfuel)
  have hcompute : compute t (eval t fuel) scope node = fixpoint t (eval t fuel) scope node b body := by
    simp only [compute, hkind, hb, hbody]
  rw [hcompute]
  refine ⟨fun hroom => fixpoint_breaksOff ((t.start_eq b).2 hroom) _ _ _ _ _, fun hroom => ⟨fun k x y hk hx hy hfits heq => ?_,
    fun x hx => ?_, fun k x f hk hx hf => ?_, fun k x y hk hx hy hfits => ?_, t.turnLimit_pos b, Unsettled.exists_end _⟩⟩
  · obtain ⟨remaining, r₁, r', hcount, hturns, hlive, hrun, hr', hiter⟩ := hx.next hplays hn hbodyFuel hr hk node.key
    rw [hy] at hrun
    refine ⟨r', fixpoint_run_ok hroom ?_, hturns.last hrun, hr'⟩
    rw [hiter, iterate_settled hlive (bodyStep_fits hrun hfits) heq, hcount]
  · obtain ⟨r', hturns, hr', hgoes⟩ := hx.run hplays hn hbodyFuel hr node.key (t.turnLimit b)
    have hiter := hgoes 0
    rw [Nat.zero_add] at hiter
    exact ⟨r', fixpoint_run_error hroom (hiter.trans (iterate_spent hr'.faithful.live)), hturns, hr'⟩
  · obtain ⟨remaining, r₁, r', -, hturns, hlive, hrun, hr', hiter⟩ := hx.next hplays hn hbodyFuel hr hk node.key
    rw [hf] at hrun
    exact ⟨r₁, r', fixpoint_run_error hroom (hiter.trans (iterate_failed hlive (bodyStep_failed hrun) remaining)), hturns, hrun, hr'⟩
  · obtain ⟨remaining, r₁, r', -, hturns, hlive, hrun, hr', hiter⟩ := hx.next hplays hn hbodyFuel hr hk node.key
    rw [hy] at hrun
    exact ⟨r', fixpoint_run_error hroom (hiter.trans (iterate_failed hlive (bodyStep_misfit hrun hfits) remaining)),
      hturns.last hrun, hr'⟩

namespace Sample

/-- A fixpoint whose body turns truth values round. -/
def flip : Bytes :=
  Bytes.ofString "mu X,r.(X;not)"

/-- The fixpoint, parsed. -/
def flipExpr : Expr :=
  .fix ⟨0, 1, 1⟩ true (Bytes.ofString "X") (Bytes.ofString "r")
    (.seq ⟨8, 1, 9⟩ (.var ⟨8, 1, 9⟩ (Bytes.ofString "X")) (.atom ⟨10, 1, 11⟩ (Bytes.ofString "not") none))

theorem flip_parsed : parse flip = .ok flipExpr := parse_of_same (by decide +kernel)

/-- The model of the fixpoint. -/
def flipModel : Model :=
  (compiler.compile false flip).result.toOption.get (by decide +kernel)

theorem flip_returns : compiler.Returns flipExpr flipModel :=
  .text flip_parsed (ok_of_toOption (Option.some_get _).symm)

/-- The fixpoint on two nodes, with two turns allowed. -/
def flipTask : Task :=
  ⟨flipModel, input, 2⟩

/-- The node of the fixpoint. -/
def flipNode : Node :=
  (flipModel.node? flipModel.output).get (by decide +kernel)

/-- What the fixpoint binds. -/
def flipBinder : Binder :=
  flipNode.binder.get (by decide +kernel)

/-- The node of its body. -/
def flipBody : Nat :=
  flipNode.body.get (by decide +kernel)

theorem flip_binder : flipNode.binder = some flipBinder :=
  (Option.some_get _).symm

theorem flip_body : flipNode.body = some flipBody :=
  (Option.some_get _).symm

/-- The same truth value on both nodes. -/
def both (v : Label) : Tensor :=
  Tensor.column .bool [v, v]

/-- The fixpoint is the output, and starts from 0 everywhere. -/
theorem flip_node : flipNode.id = flipModel.output ∧ flipNode.kind = .fixpoint ∧ (flipBinder.init.getD []).length = 1 ∧
    flipTask.broadcast flipBinder = both Label.zero := by
  decide +kernel

/-- There is room for what it starts from. -/
theorem flip_room : flipTask.HasRoom flipBinder := by
  rw [Task.HasRoom, flip_node.2.2.1]
  exact Tensor.hasRoom_natCast.mpr (by decide)

/-- The body leads from 0 everywhere to 1 everywhere, and back. -/
theorem flip_turns : (bodyAlone flipTask [] flipBinder flipBody (both Label.zero)).toOption = some (both Label.one) ∧
    (bodyAlone flipTask [] flipBinder flipBody (both Label.one)).toOption = some (both Label.zero) := by
  decide +kernel

theorem both_fits (v : Label) : FitsBase flipTask flipBinder (both v) :=
  ⟨rfl, flip_node.2.2.1 ▸ rfl⟩

/-- After two turns the iteration is where it started, and has not settled. -/
theorem flip_unsettled : Unsettled flipTask [] flipBinder flipBody 2 (both Label.zero) := by
  have hstart : Unsettled flipTask [] flipBinder flipBody 0 (both Label.zero) := by
    rw [← flip_node.2.2.2]
    exact .start
  have hone := hstart.turn (ok_of_toOption flip_turns.1) (both_fits Label.one) (by decide)
  exact hone.turn (ok_of_toOption flip_turns.2) (both_fits Label.zero) (by decide)

end Sample

/-- The sample fixpoint never settles: it fails after the two turns that are allowed. -/
theorem fixpoint_exact_sample : ∃ r',
    (compute Sample.flipTask (eval Sample.flipTask Sample.flipModel.nodes.length) [] Sample.flipNode).run {} =
      (.error (.nonTermination Sample.flipNode.key 2), r') ∧
    Turns (inTurn Sample.flipTask Sample.flipModel.nodes.length [] Sample.flipBinder Sample.flipBody) 2
      (Sample.flipTask.broadcast Sample.flipBinder) {} (Sample.both Label.zero) r' ∧ Restored Sample.flipTask [] {} r' := by
  obtain ⟨hid, hkind, -, -⟩ := Sample.flip_node
  have hcomes : Comes Sample.flipTask ⟨Sample.flipModel.nodes.length + 1, [], Sample.flipNode.id, {}⟩ := by
    rw [hid]
    exact .start
  have hnode : Sample.flipModel.node? Sample.flipNode.id = some Sample.flipNode := by
    rw [hid]
    exact (Option.some_get _).symm
  obtain ⟨-, hspent, -⟩ := (fixpoint_exact Sample.reachable Builtin.registries_calm (t := Sample.flipTask) Sample.flip_returns hcomes
    hnode hkind Sample.flip_binder Sample.flip_body).2 Sample.flip_room
  exact hspent _ Sample.flip_unsettled

namespace Sample

/-- The evaluation of the sample fixpoint on more nodes than there is room for. -/
def wideTask : Task :=
  ⟨wideModel, manyNodes, 0⟩

end Sample

/-- Where there is no room for what it starts from, a fixpoint breaks off also if its body would give these labels back in the first
turn, within the limit and in the right shape. -/
theorem fixpoint_exact_no_room : ∃ node b body x, Sample.wideModel.node? node.id = some node ∧ node.kind = .fixpoint ∧
    node.binder = some b ∧ node.body = some body ∧
    Comes Sample.wideTask ⟨Sample.wideModel.nodes.length + 1, [], node.id, {}⟩ ∧
    Sample.wideModel.spec.check (some Sample.manyNodes) = .ok Sample.manyNodes ∧ 0 < Sample.wideTask.turnLimit b ∧
    Unsettled Sample.wideTask [] b body 0 x ∧ bodyAlone Sample.wideTask [] b body x = .ok x ∧ FitsBase Sample.wideTask b x ∧
    x.equal x = true ∧
    (compute Sample.wideTask (eval Sample.wideTask Sample.wideModel.nodes.length) [] node).run {} = (.error .aborted, {}) := by
  obtain ⟨node, b, body, hout, hnode, hkind, hb, hbody, hbase, hf⟩ :=
    Sample.loop_node Sample.wide_reachable Sample.wide_compiled Sample.manyNodes
  have hreturns : Sample.wideCompiler.Returns Sample.loopExpr Sample.wideTask.model := .text Sample.loop_parsed Sample.wide_compiled
  have hcomes : Comes Sample.wideTask ⟨Sample.wideModel.nodes.length + 1, [], node.id, {}⟩ := by
    rw [← hout]
    exact .start
  obtain ⟨es, hplays, -⟩ := RefinementAux.returns_plays Sample.wide_reachable Builtin.registries_calm hreturns Sample.manyNodes 0
  obtain ⟨hrow, hdtype⟩ := Sample.wide_row hplays hnode hkind hb hbody hbase
  have hroom : ¬ Sample.wideTask.HasRoom b := by
    rw [Task.HasRoom, hrow, Option.getD_some, List.length_replicate]
    exact fun h => absurd (Tensor.hasRoom_natCast.mp h) (by decide)
  have hbroadcast : Sample.wideTask.broadcast b = truthStart 351844 100000000 b.least := by
    rw [Task.broadcast, hrow, hdtype]
    rfl
  have htruth : (Sample.wideTask.broadcast b).IsTruth 351844 100000000 := hbroadcast ▸ truthStart_isTruth
  have hcompute : compute Sample.wideTask (eval Sample.wideTask Sample.wideModel.nodes.length) [] node =
      fixpoint Sample.wideTask (eval Sample.wideTask Sample.wideModel.nodes.length) [] node b body := by
    simp only [compute, hkind, hb, hbody]
  refine ⟨node, b, body, _, hnode, hkind, hb, hbody, hcomes, check_of_isOk (by decide +kernel), Task.turnLimit_pos _ _, .start, hf _,
    ⟨Tensor.full_rows _ _ _, Tensor.full_cols _ _ _⟩, (htruth.equal_iff htruth).mpr fun _ _ => rfl, ?_⟩
  rw [hcompute]
  exact fixpoint_breaksOff ((Task.start_eq _ b).2 hroom) _ _ _ _ _

end ModalGraph
