import ModalGraph.Proofs.Compiler.Ledger

/-!
# What compiling a formula does, whatever the store

The plan of a formula says without any store what a compiler does with it (`Expr.plan`): the terms whose nodes it comes to, each with
the operand that the formula stands on there, and the term of its own node or the failure. The term is the one that the formula
stands for (`plan_ok`).
-/

namespace ModalGraph

open Formula

namespace Compiler

/-! ## Plans -/

/-- A node that a compilation comes to: its term, the operand that the formula stands on there, and the variables in scope with their
bases, the innermost one first. -/
structure Visit where
  term : Term
  operand : Term
  scope : List (Bytes × Bytes)

/-- A visit before which its term is not visited. -/
def IsFirst : List Visit → Visit → Prop
  | [], _ => False
  | u :: us, v => u = v ∨ u.term ≠ v.term ∧ IsFirst us v

section

variable {us vs : List Visit} {v v' : Visit}

theorem IsFirst.mem (h : IsFirst vs v) : v ∈ vs := by
  induction vs with
  | nil => exact h.elim
  | cons u us ih =>
    rcases h with rfl | ⟨_, h⟩
    · exact List.mem_cons_self
    · exact List.mem_cons_of_mem _ (ih h)

theorem IsFirst.unique (h : IsFirst vs v) (h' : IsFirst vs v') (hterm : v.term = v'.term) : v = v' := by
  induction vs with
  | nil => exact h.elim
  | cons u us ih =>
    rcases h with rfl | ⟨hne, h⟩ <;> rcases h' with rfl | ⟨hne', h'⟩
    · rfl
    · exact absurd hterm hne'
    · exact absurd hterm.symm hne
    · exact ih h h'

/-- The first visit of a term is in the first part of a run, or the term is not visited there and it is in the second part. -/
theorem isFirst_append : IsFirst (us ++ vs) v ↔ IsFirst us v ∨ (∀ u ∈ us, u.term ≠ v.term) ∧ IsFirst vs v := by
  induction us with
  | nil => simp [IsFirst]
  | cons u us ih =>
    rw [List.cons_append, IsFirst, IsFirst, ih, List.forall_mem_cons]
    tauto

end

/-- What a compilation does: the nodes it comes to, in order, and its result. -/
structure Plan (α : Type) where
  visits : List Visit
  result : Except Failure α

namespace Plan

/-- Nothing is done but to fail. -/
def fail {α : Type} (f : Failure) : Plan α :=
  ⟨[], .error f⟩

/-- A result without any node. -/
def ofResult {α : Type} (r : Except Failure α) : Plan α :=
  ⟨[], r⟩

/-- The node of a term, which can be made as far as a check succeeds. -/
def visit {α : Type} (check : Except Failure α) (v : Visit) : Plan Term :=
  match check with
  | .error f => fail f
  | .ok _ => ⟨[v], .ok v.term⟩

/-- One plan after another, which goes on from the result of the first. -/
def andThen {α β : Type} (x : Plan α) (f : α → Plan β) : Plan β :=
  match x.result with
  | .error e => ⟨x.visits, .error e⟩
  | .ok a => ⟨x.visits ++ (f a).visits, (f a).result⟩

instance : Monad Plan where
  pure a := ⟨[], .ok a⟩
  bind := andThen

section

variable {α β : Type}

theorem bind_of_error {x : Plan α} {e : Failure} (f : α → Plan β) (h : x.result = .error e) :
    x >>= f = ⟨x.visits, .error e⟩ := by
  show x.andThen f = _
  rw [andThen, h]

theorem bind_of_ok {x : Plan α} {a : α} (f : α → Plan β) (h : x.result = .ok a) :
    x >>= f = ⟨x.visits ++ (f a).visits, (f a).result⟩ := by
  show x.andThen f = _
  rw [andThen, h]

/-- The parts of two plans in a row that succeed. -/
theorem result_bind {x : Plan α} {f : α → Plan β} {b : β} (h : (x >>= f).result = .ok b) :
    ∃ a, x.result = .ok a ∧ (f a).result = .ok b := by
  cases hx : x.result with
  | error e =>
    rw [bind_of_error f hx] at h
    cases h
  | ok a =>
    rw [bind_of_ok f hx] at h
    exact ⟨a, rfl, h⟩

/-- A visit that succeeds passes its check and gives the term. -/
theorem result_visit {check : Except Failure α} {v : Visit} {t : Term} (h : (visit check v).result = .ok t) :
    (∃ a, check = .ok a) ∧ t = v.term := by
  cases check with
  | error f => cases h
  | ok a => exact ⟨⟨a, rfl⟩, (Except.ok.inj h).symm⟩

end

end Plan

/-- A body as wide as its base says, as far as its width is known. -/
def fitsBase (b : Binding) (width : Int) : Except Failure Unit :=
  if width ≠ unknownWidth ∧ width ≠ b.base.width then
    .error (.shape ⟨Bytes.ofString "fixpoint " ++ b.name, .bodyWidth width b.baseName b.base.width⟩)
  else .ok ()

end Compiler

namespace Formula.Expr

open Compiler

mutual

/-- What compiling a formula on an operand does, below binders of variables over bases, the innermost one first. -/
def plan (ops : Registries) (settings : Settings) (scope : List (Bytes × Bytes)) (operand : Term) : Expr → Plan Term
  | .atom _ name arg => .visit (ops.psi.get name arg) ⟨.psi name arg operand, operand, scope⟩
  | .seq _ left right => do
    let l ← left.plan ops settings scope operand
    right.plan ops settings scope l
  | .par p children =>
    if children.isEmpty then .fail (.malformed ⟨p, [], .emptyParallel⟩)
    else do
      let ts ← plans ops settings scope operand children
      .visit (.ok ()) ⟨.concat ts, operand, scope⟩
  | .diamond _ direction phi sigma =>
    if !settings.input.adjacency then .fail ((fresh ops settings).noAdjacency (diamondKey direction phi sigma))
    else
      .visit (ops.sigma.resolve sigma >>= fun _ => (fresh ops settings).phi? phi) ⟨.diamond direction phi sigma operand, operand, scope⟩
  | .var p name =>
    match boundTerm scope name with
    | none => .fail (.unboundVariable name p)
    | some t => .visit (.ok ()) ⟨t, operand, scope⟩
  | .fix _ least v base body => do
    let (b, _) ← Plan.ofResult ((fresh ops settings).fixpointBase least base)
    let t ← body.plan ops settings ((v, base) :: scope) operand
    Plan.ofResult (fitsBase ⟨v, base, variableKey scope.length base, b⟩ (t.width ops settings))
    .visit (.ok ()) ⟨.fix least scope.length base t, operand, scope⟩
  | .hole => .fail .missingExpression

/-- What compiling several formulas on one operand does. -/
def plans (ops : Registries) (settings : Settings) (scope : List (Bytes × Bytes)) (operand : Term) : List Expr → Plan (List Term)
  | [] => pure []
  | e :: es => do
    let t ← e.plan ops settings scope operand
    let ts ← plans ops settings scope operand es
    return t :: ts

end

/-- What a call with a formula does: nothing for a caller who has given up. -/
def callPlan (ops : Registries) (settings : Settings) (canceled : Bool) (e : Expr) : Plan Term :=
  if canceled then .fail .canceled else e.plan ops settings [] .input

end Formula.Expr

open Compiler

mutual

/-- A plan that succeeds gives the term that the formula stands for, and everything in the formula can be resolved. -/
theorem plan_ok {ops : Registries} {settings : Settings} : ∀ (e : Expr) {scope : List (Bytes × Bytes)} {operand t : Term},
    (e.plan ops settings scope operand).result = .ok t → e.term scope operand = some t ∧ e.Accepted ops settings
  | .atom _ name arg, scope, operand, t, h => by
    rw [Expr.plan] at h
    obtain ⟨hget, rfl⟩ := Plan.result_visit h
    exact ⟨rfl, hget⟩
  | .seq _ left right, scope, operand, t, h => by
    rw [Expr.plan] at h
    obtain ⟨l, hl, hr⟩ := Plan.result_bind h
    obtain ⟨htl, hal⟩ := plan_ok left hl
    obtain ⟨htr, har⟩ := plan_ok right hr
    exact ⟨by rw [Expr.term, htl]; exact htr, hal, har⟩
  | .par _ children, scope, operand, t, h => by
    rw [Expr.plan] at h
    split at h
    · cases h
    · obtain ⟨ts, hts, h⟩ := Plan.result_bind h
      obtain ⟨-, rfl⟩ := Plan.result_visit h
      obtain ⟨hterms, hacc⟩ := plans_ok children hts
      exact ⟨by rw [Expr.term, hterms]; rfl, hacc⟩
  | .diamond _ direction phi sigma, scope, operand, t, h => by
    rw [Expr.plan] at h
    split at h
    · cases h
    · rename_i hadj
      obtain ⟨⟨a, ha⟩, rfl⟩ := Plan.result_visit h
      obtain ⟨op, hop, hphi⟩ := ModalGraph.bind_ok ha
      refine ⟨rfl, by simpa using hadj, ⟨op, hop⟩, ?_⟩
      rintro key rfl
      obtain ⟨op', hop', -⟩ := map_ok (hphi : some <$> ops.phi.resolve key = .ok a)
      exact ⟨op', hop'⟩
  | .var _ name, scope, operand, t, h => by
    rw [Expr.plan] at h
    split at h
    · cases h
    · rename_i u hu
      obtain ⟨-, rfl⟩ := Plan.result_visit h
      exact ⟨hu, trivial⟩
  | .fix _ least v base body, scope, operand, t, h => by
    rw [Expr.plan] at h
    obtain ⟨⟨b, row⟩, hbase, h⟩ := Plan.result_bind h
    obtain ⟨u, hu, h⟩ := Plan.result_bind h
    obtain ⟨-, -, h⟩ := Plan.result_bind h
    obtain ⟨-, rfl⟩ := Plan.result_visit h
    obtain ⟨hterm, hacc⟩ := plan_ok body hu
    exact ⟨by rw [Expr.term, hterm]; rfl, ⟨b, row, base?_of_fixpointBase hbase⟩, hacc⟩
  | .hole, _, _, _, h => by cases h

/-- Plans of several formulas that succeed give the terms that the formulas stand for. -/
theorem plans_ok {ops : Registries} {settings : Settings} : ∀ (es : List Expr) {scope : List (Bytes × Bytes)} {operand : Term}
    {ts : List Term}, (Expr.plans ops settings scope operand es).result = .ok ts →
      Expr.terms scope operand es = some ts ∧ Expr.AllAccepted ops settings es
  | [], scope, operand, ts, h => by
    obtain rfl := Except.ok.inj h
    exact ⟨rfl, trivial⟩
  | e :: es, scope, operand, ts, h => by
    rw [Expr.plans] at h
    obtain ⟨t, ht, h⟩ := Plan.result_bind h
    obtain ⟨us, hus, h⟩ := Plan.result_bind h
    obtain rfl := Except.ok.inj h
    obtain ⟨hterm, hacc⟩ := plan_ok e ht
    obtain ⟨hterms, haccs⟩ := plans_ok es hus
    exact ⟨by rw [Expr.terms, hterm, hterms]; rfl, hacc, haccs⟩

end

/-- A call that succeeds comes to the term that its formula stands for. -/
theorem callPlan_ok {ops : Registries} {settings : Settings} {canceled : Bool} {e : Expr} {t : Term}
    (h : (e.callPlan ops settings canceled).result = .ok t) : e.term [] .input = some t ∧ e.Accepted ops settings := by
  cases canceled with
  | true => cases h
  | false => exact plan_ok e h

end ModalGraph
