import ModalGraph.Proofs.Compiler.History

/-!
# The variables that a node depends on

A node keeps the list of the variables that it depends on. It is made when the node is made, so that a fixpoint, whose key does not
say which operand it stands on, has the variables of the operand that it was first visited on (`Recorded.mem_free`). Such a fixpoint
may come up again below other binders, and the output of a complete formula then depends on a variable that is not bound
(`output_open_after_other_bases`). As long as a fixpoint that comes up again stands on the operand that it was first visited on, or
below binders over the bases from there, the output of every formula is closed (`output_closed`).
-/

namespace ModalGraph

open Formula

namespace Compiler

/-- The variables that the node of a term depends on after some visits: those that the term has outside their binders, and those of
the operands that its fixpoints were first visited on. -/
inductive Reads (vs : List Visit) : Term → Bytes → Prop where
  | var (depth : Nat) (base : Bytes) : Reads vs (.var depth base) (variableKey depth base)
  | psi {name : Bytes} {arg : Argument} {t : Term} {k : Bytes} : Reads vs t k → Reads vs (.psi name arg t) k
  | concat {ts : List Term} {t : Term} {k : Bytes} : t ∈ ts → Reads vs t k → Reads vs (.concat ts) k
  | diamond {direction : Direction} {phi : Option Bytes} {sigma : Bytes} {t : Term} {k : Bytes} :
      Reads vs t k → Reads vs (.diamond direction phi sigma t) k
  | body {least : Bool} {depth : Nat} {base : Bytes} {t : Term} {k : Bytes} :
      Reads vs t k → k ≠ variableKey depth base → Reads vs (.fix least depth base t) k
  | operand {least : Bool} {depth : Nat} {base : Bytes} {t : Term} {k : Bytes} {v : Visit} :
      IsFirst vs v → v.term = .fix least depth base t → Reads vs v.operand k → k ≠ variableKey depth base →
        Reads vs (.fix least depth base t) k

section

variable {ops : Registries} {settings : Settings} {es : List Entry} {vs : List Visit}

/-- A node that is made depends on the variables that its term reads, if the nodes it is made of do and a fixpoint is made on the
operand of its first visit. -/
theorem Made.mem_free {t : Term} {n : Node} (hmade : Made ops settings es t n)
    (hes : ∀ e ∈ es, ∀ k, k ∈ e.node.free ↔ Reads vs e.term k)
    (hfirst : t.isFix = true → ∀ o ∈ es, n.inputs = [o.node.id] → ∃ v, IsFirst vs v ∧ v.term = t ∧ v.operand = o.term) (k : Bytes) :
    k ∈ n.free ↔ Reads vs t k := by
  cases hmade with
  | psi hm hn =>
    obtain ⟨_, _, _, _, _, _, hfree⟩ := atomNode_ok hn
    rw [hfree, hes _ hm]
    exact ⟨.psi, fun h => by cases h; assumption⟩
  | @concat ms hms =>
    show k ∈ freeUnion (ms.map Entry.node) ↔ _
    rw [NodesAux.mem_freeUnion]
    constructor
    · rintro ⟨_, hn, hk⟩
      obtain ⟨m, hm, rfl⟩ := List.mem_map.mp hn
      exact .concat (List.mem_map_of_mem hm) ((hes m (hms m hm) k).mp hk)
    · intro h
      cases h with
      | concat ht hk =>
        obtain ⟨m, hm, rfl⟩ := List.mem_map.mp ht
        exact ⟨m.node, List.mem_map_of_mem hm, (hes m (hms m hm) k).mpr hk⟩
  | diamond hm _ hn =>
    obtain ⟨_, _, _, _, _, _, _, _, _, hfree⟩ := diamondNode_ok hn
    rw [hfree, hes _ hm]
    exact ⟨.diamond, fun h => by cases h; assumption⟩
  | @var b depth name hkey _ =>
    show k ∈ [b.key] ↔ _
    rw [List.mem_singleton, hkey]
    exact ⟨fun h => h ▸ .var .., fun h => by cases h; rfl⟩
  | @fix b depth least init operand body hop hbody hkey _ _ =>
    obtain ⟨v, hv, hterm, hoperand⟩ := hfirst rfl operand hop rfl
    show k ∈ (freeUnion [operand.node, body.node]).filter (fun v => v != b.key) ↔ _
    rw [List.mem_filter, NodesAux.mem_freeUnion, bne_iff_ne, hkey]
    constructor
    · rintro ⟨⟨_, hn, hk⟩, hne⟩
      rcases List.mem_cons.mp hn with rfl | hn
      · exact .operand hv hterm (hoperand ▸ (hes _ hop k).mp hk) hne
      · obtain rfl := List.mem_singleton.mp hn
        exact .body ((hes _ hbody k).mp hk) hne
    · intro h
      cases h with
      | body hk hne => exact ⟨⟨body.node, by simp, (hes _ hbody k).mpr hk⟩, hne⟩
      | operand hu huterm hk hne =>
        obtain rfl := hu.unique hv (huterm.trans hterm.symm)
        exact ⟨⟨operand.node, by simp, (hes _ hop k).mpr (hoperand ▸ hk)⟩, hne⟩

/-- After a run from the start, a node depends on the variables that its term reads. -/
theorem Recorded.mem_free (h : Recorded ops settings [⟨Store.inputNode settings.input, .input⟩] vs es) {i : Nat} {m : Entry}
    (hi : es[i]? = some m) (k : Bytes) : k ∈ m.node.free ↔ Reads vs m.term k := by
  induction i using Nat.strong_induction_on generalizing m k with
  | _ i ih =>
    rcases h.ledger.made hi with rfl | ⟨n, hmade, hnode⟩
    · exact ⟨nofun, nofun⟩
    rw [hnode]
    refine hmade.mem_free (fun e he k => ?_) (fun hfix o ho hin => ?_) k
    · obtain ⟨j, hj⟩ := List.getElem?_of_mem he
      have hlt := (List.getElem?_eq_some_iff.mp hj).1
      rw [List.length_take] at hlt
      rw [List.getElem?_take_of_lt (by omega)] at hj
      exact ih j (by omega) hj k
    · rcases h.added m (List.mem_of_getElem? hi) with hm | ⟨v, hv, hterm, hstands⟩
      · rw [List.mem_singleton.mp hm] at hfix
        cases hfix
      · obtain ⟨o', ho', hoterm, hin'⟩ := hstands hfix
        have hin'' : m.node.inputs = [o.node.id] := by rw [hnode]; exact hin
        have hid : o.node.id = o'.node.id := List.singleton_inj.mp (hin''.symm.trans hin')
        obtain rfl : o = o' := h.ledger.eq_of_id (List.mem_of_mem_take ho) ho' hid
        exact ⟨v, hv, hterm, hoterm.symm⟩

end

/-! ## Bound variables -/

/-- The keys of the variables of binders over some bases, the innermost one first. -/
def variableKeys : List Bytes → List Bytes
  | [] => []
  | base :: bases => variableKey bases.length base :: variableKeys bases

/-- The bases of the binders that a visit is below. -/
def Visit.bases (v : Visit) : List Bytes :=
  v.scope.map Prod.snd

/-- The node of a term depends on variables of binders over some bases only. -/
def Within (vs : List Visit) (t : Term) (bases : List Bytes) : Prop :=
  ∀ k, Reads vs t k → k ∈ variableKeys bases

/-- A run in which a fixpoint stands on the operand that it was first visited on, or below binders over the bases from there. -/
def Steady (vs : List Visit) : Prop :=
  ∀ u v, IsFirst vs u → v ∈ vs → u.term = v.term → v.term.isFix = true → u.operand = v.operand ∨ u.bases = v.bases

/-- What follows some visits in a run comes to nodes that depend on variables in scope only, and has a result with a property, if the
nodes visited before depend on variables in scope only. -/
def Plan.Bound {α : Type} (vs before : List Visit) (p : Plan α) (R : α → Prop) : Prop :=
  before ++ p.visits <+: vs → (∀ v ∈ before, Within vs v.term v.bases) →
    (∀ v ∈ p.visits, Within vs v.term v.bases) ∧ ∀ a, p.result = .ok a → R a

section

variable {vs before : List Visit} {α β : Type}

theorem Plan.Bound.ofResult (r : Except Failure α) : (Plan.ofResult r).Bound vs before fun _ => True :=
  fun _ _ => ⟨nofun, fun _ _ => trivial⟩

theorem Plan.Bound.pure {R : α → Prop} {a : α} (ha : R a) : (Pure.pure a : Plan α).Bound vs before R :=
  fun _ _ => ⟨nofun, fun _ h => Except.ok.inj h ▸ ha⟩

theorem Plan.Bound.fail {R : α → Prop} (f : Failure) : (Plan.fail f : Plan α).Bound vs before R :=
  fun _ _ => ⟨nofun, nofun⟩

theorem Plan.Bound.bind {p : Plan α} {f : α → Plan β} {Q : α → Prop} {R : β → Prop} (h : p.Bound vs before Q)
    (hf : ∀ a, Q a → (f a).Bound vs (before ++ p.visits) R) : (p >>= f).Bound vs before R := by
  intro hpre hbefore
  cases hp : p.result with
  | error e =>
    rw [Plan.bind_of_error f hp] at hpre ⊢
    exact ⟨(h hpre hbefore).1, nofun⟩
  | ok a =>
    rw [Plan.bind_of_ok f hp] at hpre ⊢
    rw [← List.append_assoc] at hpre
    obtain ⟨hvisits, hresult⟩ := h ((List.prefix_append _ _).trans hpre) hbefore
    obtain ⟨hvisits', hresult'⟩ := hf a (hresult a hp) hpre fun v hv => (List.mem_append.mp hv).elim (hbefore v) (hvisits v)
    exact ⟨fun v hv => (List.mem_append.mp hv).elim (hvisits v) (hvisits' v), hresult'⟩

/-- A visit is bound if its term is, given what was visited before. -/
theorem Plan.Bound.visit (check : Except Failure α) {v : Visit}
    (hv : before ++ [v] <+: vs → (∀ u ∈ before, Within vs u.term u.bases) → Within vs v.term v.bases) :
    (Plan.visit check v).Bound vs before fun t => Within vs t v.bases := by
  cases check with
  | error f => exact .fail f
  | ok a =>
    intro hpre hbefore
    exact ⟨fun u hu => List.mem_singleton.mp hu ▸ hv hpre hbefore, fun t ht => Except.ok.inj ht ▸ hv hpre hbefore⟩

/-- A fixpoint on an operand and of a body that are bound is bound: where it was first visited on another operand, that was below
binders over the same bases. -/
theorem Within.fix (hsteady : Steady vs) {v : Visit} {least : Bool} {base : Bytes} {t : Term}
    (hv : v.term = .fix least v.bases.length base t) (hpre : before ++ [v] <+: vs)
    (hbefore : ∀ u ∈ before, Within vs u.term u.bases) (hop : Within vs v.operand v.bases) (hbody : Within vs t (base :: v.bases)) :
    Within vs v.term v.bases := by
  intro k hk
  have hkey := hv ▸ hk
  cases hkey with
  | body hk hne => exact (List.mem_cons.mp (hbody k hk)).resolve_left hne
  | @operand _ _ _ _ _ u hu huterm hk' hne =>
    have hterm : u.term = v.term := huterm.trans hv.symm
    obtain ⟨rest, rfl⟩ := hpre
    have hmem : v ∈ before ++ [v] := List.mem_append_right _ (List.mem_singleton_self v)
    rcases hsteady u v hu (List.mem_append_left rest hmem) hterm (hv ▸ rfl) with hoperand | hbases
    · exact hop k (hoperand ▸ hk')
    · -- The first visit is this one or one before it.
      rcases isFirst_append.mp hu with hu | ⟨hnot, -⟩
      · rcases List.mem_append.mp hu.mem with hu | hu
        · exact hbases ▸ hbefore u hu k (hterm ▸ hk)
        · obtain rfl := List.mem_singleton.mp hu
          exact hop k hk'
      · exact absurd hterm.symm (hnot v hmem)

/-- A name in scope stands for the variable of a binder in scope. -/
theorem boundTerm_var {scope : List (Bytes × Bytes)} {name : Bytes} {t : Term} (h : Expr.boundTerm scope name = some t) :
    ∃ depth base, t = .var depth base ∧ variableKey depth base ∈ variableKeys (scope.map Prod.snd) := by
  induction scope with
  | nil => cases h
  | cons p scope ih =>
    obtain ⟨v, base⟩ := p
    rw [Expr.boundTerm] at h
    split at h
    · refine ⟨scope.length, base, (Option.some.inj h).symm, ?_⟩
      rw [List.map_cons, variableKeys, List.length_map]
      exact List.mem_cons_self
    · obtain ⟨depth, b, rfl, hmem⟩ := ih h
      exact ⟨depth, b, rfl, List.mem_cons_of_mem _ hmem⟩

end

mutual

/-- Compiling a formula on an operand that is bound comes to nodes that are bound. -/
theorem plan_bound {ops : Registries} {settings : Settings} {vs : List Visit} (hsteady : Steady vs) : ∀ (e : Expr)
    {scope : List (Bytes × Bytes)} {operand : Term} {before : List Visit}, Within vs operand (scope.map Prod.snd) →
      (e.plan ops settings scope operand).Bound vs before fun t => Within vs t (scope.map Prod.snd)
  | .atom _ name arg, scope, operand, before, hop => by
    rw [Expr.plan]
    refine Plan.Bound.visit _ fun _ _ k hk => ?_
    cases hk with
    | psi hk => exact hop k hk
  | .seq _ left right, scope, operand, before, hop => by
    rw [Expr.plan]
    exact (plan_bound hsteady left hop).bind fun l hl => plan_bound hsteady right hl
  | .par _ children, scope, operand, before, hop => by
    rw [Expr.plan]
    split
    · exact .fail _
    · refine (plans_bound hsteady children hop).bind fun ts hts => Plan.Bound.visit _ fun _ _ k hk => ?_
      cases hk with
      | concat ht hk => exact hts _ ht k hk
  | .diamond _ direction phi sigma, scope, operand, before, hop => by
    rw [Expr.plan]
    split
    · exact .fail _
    · refine Plan.Bound.visit _ fun _ _ k hk => ?_
      cases hk with
      | diamond hk => exact hop k hk
  | .var _ name, scope, operand, before, hop => by
    rw [Expr.plan]
    split
    · exact .fail _
    · rename_i ht
      obtain ⟨depth, base, rfl, hmem⟩ := boundTerm_var ht
      refine Plan.Bound.visit _ fun _ _ k hk => ?_
      cases hk
      exact hmem
  | .fix _ least v base body, scope, operand, before, hop => by
    rw [Expr.plan]
    refine (Plan.Bound.ofResult _).bind fun _ _ => ?_
    have hop' : Within vs operand (((v, base) :: scope).map Prod.snd) := fun k hk => List.mem_cons_of_mem _ (hop k hk)
    refine (plan_bound hsteady body hop').bind fun t ht => ?_
    refine (Plan.Bound.ofResult _).bind fun _ _ => Plan.Bound.visit _ fun hpre hbefore => ?_
    exact Within.fix hsteady (by rw [Visit.bases, List.length_map]) hpre hbefore hop ht
  | .hole, _, _, _, _ => .fail _

/-- Compiling several formulas on one operand that is bound comes to nodes that are bound. -/
theorem plans_bound {ops : Registries} {settings : Settings} {vs : List Visit} (hsteady : Steady vs) : ∀ (es : List Expr)
    {scope : List (Bytes × Bytes)} {operand : Term} {before : List Visit}, Within vs operand (scope.map Prod.snd) →
      (Expr.plans ops settings scope operand es).Bound vs before fun ts => ∀ t ∈ ts, Within vs t (scope.map Prod.snd)
  | [], scope, operand, before, _ => by
    rw [Expr.plans]
    exact .pure nofun
  | e :: es, scope, operand, before, hop => by
    rw [Expr.plans]
    refine (plan_bound hsteady e hop).bind fun t ht => (plans_bound hsteady es hop).bind fun ts hts => .pure ?_
    exact List.forall_mem_cons.mpr ⟨ht, hts⟩

end

section

variable {ops : Registries} {settings : Settings} {vs before : List Visit}

/-- The term of a complete formula reads no variable. -/
theorem Compilation.plan_bound (hsteady : Steady vs) (call : Compilation) :
    (call.plan ops settings).Bound vs before fun t => Within vs t [] := by
  rw [Compilation.plan]
  split
  · exact .fail _
  · rw [Expr.callPlan]
    split
    · exact .fail _
    · exact Compiler.plan_bound hsteady _ fun k hk => by cases hk

theorem visits_bound (hsteady : Steady vs) (calls : List Compilation) (hpre : before ++ visits ops settings calls <+: vs)
    (hbefore : ∀ v ∈ before, Within vs v.term v.bases) : ∀ v ∈ before ++ visits ops settings calls, Within vs v.term v.bases := by
  induction calls generalizing before with
  | nil => simpa [visits] using hbefore
  | cons call calls ih =>
    rw [visits, List.flatMap_cons, ← List.append_assoc] at hpre ⊢
    have hcall := (call.plan_bound hsteady ((List.prefix_append _ _).trans hpre) hbefore).1
    exact ih hpre fun v hv => (List.mem_append.mp hv).elim (hbefore v) (hcall v)

end

/-! ## One base -/

/-- A visit below binders over one base, of a fixpoint at its depth. -/
def Visit.Over (base : Bytes) (v : Visit) : Prop :=
  (∀ b ∈ v.bases, b = base) ∧ ∀ least depth b t, v.term = .fix least depth b t → depth = v.bases.length

theorem Visit.Over.visit {base : Bytes} {α : Type} (check : Except Failure α) {v : Visit} (h : v.Over base) :
    ∀ u ∈ (Plan.visit check v).visits, u.Over base := by
  cases check with
  | error f => nofun
  | ok a => exact fun u hu => List.mem_singleton.mp hu ▸ h

theorem Visit.Over.bind {base : Bytes} {α β : Type} {p : Plan α} {f : α → Plan β} (h : ∀ v ∈ p.visits, v.Over base)
    (hf : ∀ a, p.result = .ok a → ∀ v ∈ (f a).visits, v.Over base) : ∀ v ∈ (p >>= f).visits, v.Over base := by
  cases hp : p.result with
  | error e =>
    rw [Plan.bind_of_error f hp]
    exact h
  | ok a =>
    rw [Plan.bind_of_ok f hp]
    exact fun v hv => (List.mem_append.mp hv).elim (h v) (hf a hp v)

mutual

/-- Where the settings have one base, all visits are below binders over it. -/
theorem plan_over {ops : Registries} {settings : Settings} {base : Bytes} (hone : ∀ p ∈ settings.bases, p.1 = base) : ∀ (e : Expr)
    {scope : List (Bytes × Bytes)} {operand : Term}, (∀ b ∈ scope.map Prod.snd, b = base) →
      ∀ v ∈ (e.plan ops settings scope operand).visits, v.Over base
  | .atom .., scope, operand, hscope => by
    rw [Expr.plan]
    exact Visit.Over.visit _ ⟨hscope, nofun⟩
  | .seq _ left right, scope, operand, hscope => by
    rw [Expr.plan]
    exact Visit.Over.bind (plan_over hone left hscope) fun _ _ => plan_over hone right hscope
  | .par _ children, scope, operand, hscope => by
    rw [Expr.plan]
    split
    · nofun
    · exact Visit.Over.bind (plans_over hone children hscope) fun _ _ => Visit.Over.visit _ ⟨hscope, nofun⟩
  | .diamond .., scope, operand, hscope => by
    rw [Expr.plan]
    split
    · nofun
    · exact Visit.Over.visit _ ⟨hscope, nofun⟩
  | .var _ name, scope, operand, hscope => by
    rw [Expr.plan]
    split
    · nofun
    · rename_i ht
      obtain ⟨depth, b, rfl, -⟩ := boundTerm_var ht
      exact Visit.Over.visit _ ⟨hscope, nofun⟩
  | .fix _ least v b body, scope, operand, hscope => by
    rw [Expr.plan]
    refine Visit.Over.bind nofun fun ⟨a, row⟩ hbase => ?_
    obtain ⟨hlookup, -⟩ := base?_of_fixpointBase hbase
    obtain ⟨before, after, hbases, -⟩ := List.lookup_eq_some_iff.mp (show settings.bases.lookup b = some a from hlookup)
    have hb : b = base := hone (b, a) (hbases ▸ List.mem_append_right _ List.mem_cons_self)
    have hscope' : ∀ x ∈ ((v, b) :: scope).map Prod.snd, x = base := List.forall_mem_cons.mpr ⟨hb, hscope⟩
    refine Visit.Over.bind (plan_over hone body hscope') fun t ht => ?_
    refine Visit.Over.bind nofun fun _ _ => Visit.Over.visit _ ⟨hscope, fun least' depth b' t' heq => ?_⟩
    cases heq
    exact (List.length_map ..).symm
  | .hole, _, _, _ => nofun

theorem plans_over {ops : Registries} {settings : Settings} {base : Bytes} (hone : ∀ p ∈ settings.bases, p.1 = base) :
    ∀ (es : List Expr) {scope : List (Bytes × Bytes)} {operand : Term}, (∀ b ∈ scope.map Prod.snd, b = base) →
      ∀ v ∈ (Expr.plans ops settings scope operand es).visits, v.Over base
  | [], _, _, _ => nofun
  | e :: es, scope, operand, hscope => by
    rw [Expr.plans]
    exact Visit.Over.bind (plan_over hone e hscope) fun _ _ => Visit.Over.bind (plans_over hone es hscope) fun _ _ _ hv => by cases hv

end

/-- Where the settings have one base, every run is steady. -/
theorem steady_of_one_base {ops : Registries} {settings : Settings} {base : Bytes} (hone : ∀ p ∈ settings.bases, p.1 = base)
    (calls : List Compilation) : Steady (visits ops settings calls) := by
  have hover : ∀ v ∈ visits ops settings calls, v.Over base := by
    intro v hv
    obtain ⟨call, -, hv⟩ := List.mem_flatMap.mp hv
    rw [Compilation.plan] at hv
    split at hv
    · cases hv
    · rw [Expr.callPlan] at hv
      split at hv
      · cases hv
      · exact plan_over hone _ (by simp) v hv
  intro u v hu hv hterm hfix
  refine .inr ?_
  obtain ⟨hbu, hdu⟩ := hover u hu.mem
  obtain ⟨hbv, hdv⟩ := hover v hv
  cases ht : v.term with
  | fix least depth b t =>
    have hlen : u.bases.length = v.bases.length := (hdu _ _ _ _ (hterm.trans ht)).symm.trans (hdv _ _ _ _ ht)
    exact (List.eq_replicate_iff.mpr ⟨hlen, hbu⟩).trans (List.eq_replicate_iff.mpr ⟨rfl, hbv⟩).symm
  | _ =>
    rw [ht] at hfix
    cases hfix

end Compiler

open Compiler

/-- In a run in which a fixpoint that comes up again stands on the operand that it was first visited on, or below binders over the bases
from there, the output of every formula that is accepted depends on no variable. -/
theorem output_closed {ops : Registries} {settings : Settings} {c₀ : Compiler} (h₀ : Compiler.new ops settings = .ok c₀)
    (earlier : List Compilation) (call : Compilation) (hsteady : Steady (visits ops settings (earlier ++ [call]))) {m : Model}
    (hm : (call.on (c₀.after earlier)).result = .ok m) : ∃ n, m.node? m.output = some n ∧ n.free = [] := by
  have hvisits : visits ops settings (earlier ++ [call]) = visits ops settings earlier ++ (call.plan ops settings).visits := by
    simp [visits]
  obtain ⟨es, hlist, hrec⟩ := (listed_new h₀).after earlier
  obtain ⟨es', formula, hlist', hrec', hmatch⟩ := hlist.call call
  rw [hm] at hmatch
  obtain ⟨t, ht, hmodel⟩ := hmatch.of_ok
  obtain ⟨out, hout, rfl, hnode⟩ := hmodel.output hlist'.ledger
  refine ⟨out.node, hnode, List.eq_nil_iff_forall_not_mem.mpr fun k hk => ?_⟩
  rw [hvisits] at hsteady
  rw [(hrec.trans hrec').mem_free (hlist'.ledger.getElem?_id hout)] at hk
  have hearlier := visits_bound hsteady earlier (show [] ++ visits ops settings earlier <+: _ from List.prefix_append _ _)
    fun v hv => absurd hv List.not_mem_nil
  exact absurd ((call.plan_bound hsteady (List.prefix_refl _) hearlier).2 _ ht k hk) List.not_mem_nil

namespace Sample

/-- One number per node, edges, and one base of truth values. -/
def oneBase : Settings :=
  { twoBases with bases := [(Bytes.ofString "b", Base.bool 1)] }

theorem oneBase_new : Compiler.new Builtin.registries oneBase = .ok (fresh Builtin.registries oneBase) :=
  new_of_faultless (by decide +kernel)

theorem oneBase_steady (calls : List Compilation) : Steady (visits Builtin.registries oneBase calls) :=
  steady_of_one_base (fun p hp => by rw [List.mem_singleton.mp hp]) calls

end Sample

/-- With one base, the fixpoint `mu Y,b.(Y)` comes up again on another operand, and the output of `nu X,b.(mu Y,b.(Y))` is closed. -/
theorem output_closed_sample :
    Steady (visits Builtin.registries Sample.oneBase [Sample.call "nu X,b.(X;mu Y,b.(Y))", Sample.call "nu X,b.(mu Y,b.(Y))"]) ∧
      ∃ m n, ((Sample.call "nu X,b.(mu Y,b.(Y))").on
        ((fresh Builtin.registries Sample.oneBase).after [Sample.call "nu X,b.(X;mu Y,b.(Y))"])).result = .ok m ∧
        m.node? m.output = some n ∧ n.free = [] := by
  obtain ⟨m, hm⟩ : ∃ m, ((Sample.call "nu X,b.(mu Y,b.(Y))").on
      ((fresh Builtin.registries Sample.oneBase).after [Sample.call "nu X,b.(X;mu Y,b.(Y))"])).result = .ok m :=
    exists_of_isOk (by decide +kernel)
  have hsteady := Sample.oneBase_steady [Sample.call "nu X,b.(X;mu Y,b.(Y))", Sample.call "nu X,b.(mu Y,b.(Y))"]
  obtain ⟨n, hn, hfree⟩ := output_closed Sample.oneBase_new [Sample.call "nu X,b.(X;mu Y,b.(Y))"]
    (Sample.call "nu X,b.(mu Y,b.(Y))") hsteady hm
  exact ⟨hsteady, m, n, hm, hn, hfree⟩

/-- After `nu X,b.(X;mu Y,b.(Y))` the output of `nu X,r.(mu Y,b.(Y))` depends on the variable `X` of that formula, which is over another
base. -/
theorem output_open_after_other_bases : ∃ m n,
    ((Sample.call "nu X,r.(mu Y,b.(Y))").on (Sample.newCompiler.after [Sample.call "nu X,b.(X;mu Y,b.(Y))"])).result = .ok m ∧
      m.node? m.output = some n ∧ n.free = [variableKey 0 (Bytes.ofString "b")] := by
  have hrun : (match ((Sample.call "nu X,r.(mu Y,b.(Y))").on
        (Sample.newCompiler.after [Sample.call "nu X,b.(X;mu Y,b.(Y))"])).result with
      | .ok m => (m.node? m.output).map Node.free == some [variableKey 0 (Bytes.ofString "b")]
      | .error _ => false) = true := by decide +kernel
  cases hm : ((Sample.call "nu X,r.(mu Y,b.(Y))").on (Sample.newCompiler.after [Sample.call "nu X,b.(X;mu Y,b.(Y))"])).result with
  | error f =>
    rw [hm] at hrun
    cases hrun
  | ok m =>
    rw [hm] at hrun
    obtain ⟨n, hn, hfree⟩ := Option.map_eq_some_iff.mp (beq_iff_eq.mp hrun)
    exact ⟨m, n, rfl, hn, hfree⟩

end ModalGraph
