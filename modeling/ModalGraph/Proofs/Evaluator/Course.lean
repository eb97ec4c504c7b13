import ModalGraph.Proofs.Evaluator.Fixpoint

/-!
# The course of an evaluation

An evaluation is a tree of calls: a node is asked for, in a scope and from a run, and computing it asks for other nodes
(`Asks`): the operand of an operator, the parts of a concatenation one after the other, the body of a fixpoint once in every turn
of its iteration. `Comes` are the calls that an evaluation makes altogether, in any frame and any turn of any fixpoint around. That
none is missing is `compute_congr`: what computing a node gives depends on the calls it asks for and on nothing else.
-/

namespace ModalGraph

namespace Evaluator

/-- A call of the evaluator: which node is asked for, with what fuel, in which scope, and from which run. -/
structure Call where
  fuel : Nat
  scope : Scope
  id : Nat
  run : Run

/-- What a call gives: labels or a failure, and the run after it. -/
def Call.result (t : Task) (c : Call) : Except Failure Tensor × Run :=
  (eval t c.fuel c.scope c.id).run c.run

/-- The call that an evaluation is. -/
def Task.call (t : Task) : Call :=
  ⟨t.model.nodes.length + 1, [], t.model.output, {}⟩

theorem run_eq_result (t : Task) : run t = t.call.result t := rfl

/-- An iteration with some turns left comes from some labels and a run to a turn on some labels and a run: the caller still waits when
they are asked before the turn. -/
inductive ComesToTurn (step : Tensor → Eval Tensor) : Nat → Tensor → Run → Tensor → Run → Prop where
  | here {remaining : Nat} {x : Tensor} {r r' : Run} : checkLive.run r = (.ok (), r') → ComesToTurn step (remaining + 1) x r x r'
  | later {remaining : Nat} {x y z : Tensor} {r r₁ r₂ r₃ : Run} :
      checkLive.run r = (.ok (), r₁) → (step x).run r₁ = (.ok y, r₂) → y.equal x = false → ComesToTurn step remaining y r₂ z r₃ →
        ComesToTurn step (remaining + 1) x r z r₃

/-- The turns of a fixpoint in some scope: a turn asks for the body, in an iteration of its own, and checks its shape. -/
def bodyStep (t : Task) (ask : Scope → Nat → Eval Tensor) (scope : Scope) (b : Binder) (body : Nat) : Tensor → Eval Tensor :=
  turnStep t b (b.init.getD []).length fun x => inIteration (ask ((b.var, x) :: scope) body)

/-- The calls that computing a node asks for, each in a scope and from a run. -/
inductive Asks (t : Task) (ask : Scope → Nat → Eval Tensor) (scope : Scope) (n : Node) (r : Run) : Scope → Nat → Run → Prop where
  | psi {i : Nat} {psi : Psi} :
      n.kind = .psi → n.inputs = [i] → n.operators = .psi psi → Asks t ask scope n r scope i r
  | diamond {i : Nat} {phi : Option Phi} {sigma : Sigma} :
      n.kind = .diamond → n.inputs = [i] → n.operators = .diamond phi sigma → Asks t ask scope n r scope i r
  | part {before after : List Nat} {i : Nat} {xs : List Tensor} {r' : Run} :
      n.kind = .concat → n.inputs = before ++ i :: after → (before.mapM (ask scope)).run r = (.ok xs, r') →
        Asks t ask scope n r scope i r'
  | body {b : Binder} {body : Nat} {x₀ x : Tensor} {r' : Run} :
      n.kind = .fixpoint → n.binder = some b → n.body = some body → t.start b = .ok x₀ →
        ComesToTurn (bodyStep t ask scope b body) (t.limit (b.init.getD []).length) x₀ r x r' →
        Asks t ask scope n r ((b.var, x) :: scope) body { r' with current := [] }

/-- The calls that an evaluation makes: the one that it is, and those that computing a node asks for whose labels are not known. -/
inductive Comes (t : Task) : Call → Prop where
  | start : Comes t t.call
  | asked {fuel id i : Nat} {scope inner : Scope} {r r' : Run} {n : Node} :
      Comes t ⟨fuel + 1, scope, id, r⟩ → t.model.node? id = some n → r.known n = none →
        Asks t (eval t fuel) scope n r inner i r' → Comes t ⟨fuel, inner, i, r'⟩

/-! ## Nothing else is asked for -/

section

variable {t : Task} {ask ask' : Scope → Nat → Eval Tensor} {scope : Scope} {n : Node} {r : Run}

theorem run_bind_congr {α β : Type} {x y : Eval α} {f g : α → Eval β} (h : x.run r = y.run r)
    (hf : ∀ a r', x.run r = (.ok a, r') → (f a).run r' = (g a).run r') : (x >>= f).run r = (y >>= g).run r := by
  rw [run_bind, run_bind, ← h]
  rcases hx : x.run r with ⟨a | a, r'⟩
  · rfl
  · exact hf a r' hx

/-- A list of calls gives what other calls give that agree at every place that is come to. -/
theorem mapM_congr {f g : Nat → Eval Tensor} : ∀ {ids : List Nat} {r : Run},
    (∀ before i after xs r', ids = before ++ i :: after → (before.mapM f).run r = (.ok xs, r') → (f i).run r' = (g i).run r') →
      (ids.mapM f).run r = (ids.mapM g).run r
  | [], _, _ => rfl
  | i :: ids, r, h => by
    rw [List.mapM_cons, List.mapM_cons]
    refine run_bind_congr (h [] i ids [] r rfl rfl) fun x r' hx => ?_
    refine run_bind_congr (mapM_congr fun before j after xs r'' hids hrun => ?_) fun xs r'' _ => rfl
    refine h (i :: before) j after (x :: xs) r'' (by rw [hids]; rfl) ?_
    rw [List.mapM_cons, run_bind_ok hx, run_bind_ok hrun]
    rfl

/-- An iteration gives what other turns give that agree at every turn that is come to. -/
theorem iterate_congr {key : Bytes} {limit : Nat} {step step' : Tensor → Eval Tensor} (remaining : Nat) :
    ∀ {x : Tensor} {r : Run}, (∀ y r', ComesToTurn step remaining x r y r' → (step y).run r' = (step' y).run r') →
      (iterate key limit step remaining x).run r = (iterate key limit step' remaining x).run r := by
  induction remaining with
  | zero => exact fun _ => rfl
  | succ remaining ih =>
    intro x r h
    rw [iterate, iterate]
    refine run_bind_congr rfl fun _ r₁ hlive => ?_
    refine run_bind_congr (h x r₁ (.here hlive)) fun y r₂ hy => ?_
    cases heq : y.equal x with
    | true => rfl
    | false => exact ih fun z r₃ hz => h z r₃ (.later hlive hy heq hz)

theorem inIteration_congr {α : Type} {act act' : Eval α} (h : act.run { r with current := [] } = act'.run { r with current := [] }) :
    (inIteration act).run r = (inIteration act').run r := by
  rw [run_inIteration, run_inIteration, h]

/-- What computing a node gives depends on the calls that it asks for only. -/
theorem compute_congr (h : ∀ inner i r', Asks t ask scope n r inner i r' → (ask inner i).run r' = (ask' inner i).run r') :
    (compute t ask scope n).run r = (compute t ask' scope n).run r := by
  unfold compute
  split
  · rfl
  · rename_i hkind
    split
    · rename_i i psi hin hop
      exact run_bind_congr (h scope i r (.psi hkind hin hop)) fun _ _ _ => rfl
    · rfl
  · rename_i hkind
    refine run_bind_congr (mapM_congr fun before i after xs r' hin hrun => ?_) fun _ _ _ => rfl
    exact h scope i r' (.part hkind hin hrun)
  · rename_i hkind
    split
    · rename_i i phi sigma hin hop
      exact run_bind_congr (h scope i r (.diamond hkind hin hop)) fun _ _ _ => rfl
    · rfl
  · rfl
  · rename_i hkind
    split
    · rename_i b body hb hbody
      refine run_bind_congr rfl fun x₀ r₀ hfirst => ?_
      obtain ⟨hstart, rfl⟩ := Prod.mk.inj ((run_lift _ r).symm.trans hfirst)
      refine run_bind_congr (iterate_congr _ fun x r' hx => ?_) fun _ _ _ => rfl
      refine run_bind_congr (inIteration_congr ?_) fun _ _ _ => rfl
      exact h _ body _ (.body hkind hb hbody hstart hx)
    · rfl
  · rfl

end

end Evaluator

end ModalGraph
