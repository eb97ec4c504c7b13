import ModalGraph.Proofs.Compiler.Nodes
import ModalGraph.Proofs.Compiler.Plan

/-!
# Compiling performs the plan

Compiling a formula from a listed store performs its plan (`expr_performs`): it fails as planned or returns the node of the planned
term, it leaves a ledger with all terms of the plan, and a node that it adds is made where the plan says (`Recorded`). A node that is
there already was made once, so everything that is checked when a node is made would pass again. That holds for every formula that a
compiler is given, after any sequence of compilations (`Reachable.listed`).
-/

namespace ModalGraph

open Formula

namespace Compiler

/-! ## Performing a plan -/

/-- The same failure, or results that are related. -/
def Matched {α β : Type} (R : α → β → Prop) : Except Failure α → Except Failure β → Prop
  | .ok a, .ok b => R a b
  | .error f, .error g => f = g
  | _, _ => False

section

variable {α β : Type} {R S : α → β → Prop} {x : Except Failure α} {y : Except Failure β}

theorem Matched.imp (h : Matched R x y) (hRS : ∀ a b, R a b → S a b) : Matched S x y := by
  cases x with
  | error f =>
    cases y with
    | error g => exact h
    | ok b => exact h.elim
  | ok a =>
    cases y with
    | error g => exact h.elim
    | ok b => exact hRS a b h

theorem Matched.of_error {f : Failure} (h : Matched R (.error f) y) : y = .error f := by
  cases y with
  | error g => exact congrArg Except.error (Eq.symm h)
  | ok b => exact h.elim

theorem Matched.of_ok {a : α} (h : Matched R (.ok a) y) : ∃ b, y = .ok b ∧ R a b := by
  cases y with
  | error g => exact h.elim
  | ok b => exact ⟨b, rfl, h⟩

theorem Matched.symm (h : Matched R x y) : Matched (fun b a => R a b) y x := by
  cases x with
  | error f =>
    obtain rfl := h.of_error
    exact rfl
  | ok a =>
    obtain ⟨b, rfl, hab⟩ := h.of_ok
    exact hab

theorem Matched.trans {γ : Type} {z : Except Failure γ} {S : β → γ → Prop} (h : Matched R x y) (h' : Matched S y z) :
    Matched (fun a c => ∃ b, R a b ∧ S b c) x z := by
  cases x with
  | error f =>
    obtain rfl := h.of_error
    obtain rfl := h'.of_error
    exact rfl
  | ok a =>
    obtain ⟨b, rfl, hab⟩ := h.of_ok
    obtain ⟨c, rfl, hbc⟩ := h'.of_ok
    exact ⟨b, hab, hbc⟩

end

/-- An entry of a fixpoint names an entry of the operand that it was made on. -/
def Entry.StandsOn (m : Entry) (es : List Entry) (operand : Term) : Prop :=
  m.term.isFix = true → ∃ o ∈ es, o.term = operand ∧ m.node.inputs = [o.node.id]

theorem Entry.StandsOn.mono {m : Entry} {es es' : List Entry} {operand : Term} (h : m.StandsOn es operand) (hsub : es ⊆ es') :
    m.StandsOn es' operand := by
  intro hfix
  obtain ⟨o, ho, hterm, hin⟩ := h hfix
  exact ⟨o, hsub ho, hterm, hin⟩

/-- A ledger after some visits: it goes on from the ledger before, lists every term that was visited, and has no other new entries;
an entry that is new stands on the operand of the first visit. -/
structure Recorded (ops : Registries) (settings : Settings) (es : List Entry) (vs : List Visit) (es' : List Entry) : Prop where
  ledger : Ledger ops settings es'
  extended : es <+: es'
  listed : ∀ v ∈ vs, ∃ m ∈ es', m.term = v.term
  added : ∀ m ∈ es', m ∈ es ∨ ∃ v, IsFirst vs v ∧ v.term = m.term ∧ m.StandsOn es' v.operand

section

variable {ops : Registries} {settings : Settings} {es es' es'' : List Entry} {vs ws : List Visit}

theorem Recorded.refl (h : Ledger ops settings es) : Recorded ops settings es [] es :=
  ⟨h, List.prefix_refl es, by simp, fun _ hm => .inl hm⟩

/-- An entry of a term that was visited before is an entry from before. -/
theorem Recorded.mem_of_visited (h : Recorded ops settings es vs es') (h' : Ledger ops settings es'') (hsub : es' ⊆ es'') {m : Entry}
    (hm : m ∈ es'') {v : Visit} (hv : v ∈ vs) (hterm : v.term = m.term) : m ∈ es' := by
  obtain ⟨m', hm', hterm'⟩ := h.listed v hv
  have hkey : m'.node.key = m.node.key := by
    rw [(h'.key m' (hsub hm')).1, (h'.key m hm).1, hterm', hterm]
  exact h'.unique (hsub hm') hm hkey ▸ hm'

theorem Recorded.trans (h : Recorded ops settings es vs es') (h' : Recorded ops settings es' ws es'') :
    Recorded ops settings es (vs ++ ws) es'' := by
  refine ⟨h'.ledger, h.extended.trans h'.extended, fun v hv => ?_, fun m hm => ?_⟩
  · rcases List.mem_append.mp hv with hv | hv
    · obtain ⟨m, hm, hterm⟩ := h.listed v hv
      exact ⟨m, h'.extended.subset hm, hterm⟩
    · exact h'.listed v hv
  · by_cases hm' : m ∈ es'
    · rcases h.added m hm' with hm' | ⟨v, hfirst, hterm, hstands⟩
      · exact .inl hm'
      · exact .inr ⟨v, isFirst_append.mpr (.inl hfirst), hterm, hstands.mono h'.extended.subset⟩
    · obtain ⟨v, hfirst, hterm, hstands⟩ := (h'.added m hm).resolve_left hm'
      have hnot : ∀ u ∈ vs, u.term ≠ v.term := fun u hu heq =>
        hm' (h.mem_of_visited h'.ledger h'.extended.subset hm hu (heq.trans hterm))
      exact .inr ⟨v, isFirst_append.mpr (.inr ⟨hnot, hfirst⟩), hterm, hstands⟩

end

/-- A step of a walk from a store listed by `es` does what is planned: it leaves a store whose ledger records the visits, and gives
what the plan gives, up to `R`. -/
def Performs {α β : Type} (ops : Registries) (settings : Settings) (es : List Entry) (act : Build α) (plan : Plan β)
    (R : List Entry → α → β → Prop) : Prop :=
  ∀ p : Progress, p.store.nodes.toList = es.map Entry.node →
    ∃ es', Recorded ops settings es plan.visits es' ∧ (act.run p).2.store.nodes.toList = es'.map Entry.node ∧
      Matched (R es') (act.run p).1 plan.result

section

variable {ops : Registries} {settings : Settings} {es : List Entry} {α β γ δ : Type}

theorem Performs.pure (h : Ledger ops settings es) {R : List Entry → α → β → Prop} {a : α} {b : β} (hab : R es a b) :
    Performs ops settings es (Pure.pure a) (Pure.pure b) R :=
  fun _ hp => ⟨es, .refl h, hp, hab⟩

theorem Performs.fail (h : Ledger ops settings es) {R : List Entry → α → β → Prop} (f : Failure) :
    Performs ops settings es (throw f : Build α) (.fail f) R :=
  fun _ hp => ⟨es, .refl h, hp, rfl⟩

theorem Performs.bind {act : Build α} {f : α → Build γ} {plan : Plan β} {g : β → Plan δ} {Q : List Entry → α → β → Prop}
    {R : List Entry → γ → δ → Prop} (h : Performs ops settings es act plan Q)
    (hf : ∀ es' a b, es <+: es' → Ledger ops settings es' → Q es' a b → Performs ops settings es' (f a) (g b) R) :
    Performs ops settings es (act >>= f) (plan >>= g) R := by
  intro p hp
  obtain ⟨es', hrec, hstore, hmatch⟩ := h p hp
  rw [run_bind]
  rcases hrun : act.run p with ⟨r, p'⟩
  rw [hrun] at hstore hmatch
  cases r with
  | error e =>
    rw [Plan.bind_of_error g hmatch.of_error]
    exact ⟨es', hrec, hstore, rfl⟩
  | ok a =>
    obtain ⟨b, hb, hQ⟩ := hmatch.of_ok
    obtain ⟨es'', hrec', hstore', hmatch'⟩ := hf es' a b hrec.extended hrec.ledger hQ p' hstore
    rw [Plan.bind_of_ok g hb]
    exact ⟨es'', hrec.trans hrec', hstore', hmatch'⟩

/-- A result taken as a step changes nothing. -/
theorem Performs.lift (h : Ledger ops settings es) (x : Except Failure α) :
    Performs ops settings es (liftM x) (.ofResult x) fun _ a b => a = b ∧ x = .ok a := by
  intro p hp
  rw [run_lift]
  refine ⟨es, .refl h, hp, ?_⟩
  cases x with
  | error f => rfl
  | ok a => exact ⟨rfl, rfl⟩

/-- A key that is there gives the node that is there. -/
theorem intern_found {key : Bytes} {make : Except Failure Node} {p : Progress} {n : Node} (h : p.store.find? key = some n) :
    (intern key make).run p = (.ok n, { p with reused := p.reused + 1 }) := by
  unfold intern
  rw [run_bind_ok (run_state p), h]
  rfl

/-- A new key whose node cannot be made changes nothing. -/
theorem intern_failed {key : Bytes} {f : Failure} {p : Progress} (h : p.store.find? key = none) :
    (intern key (.error f)).run p = (.error f, p) := by
  unfold intern
  rw [run_bind_ok (run_state p), h]
  rfl

/-- A new key gets the next number. -/
theorem intern_made {key : Bytes} {n : Node} {p : Progress} (h : p.store.find? key = none) :
    (intern key (.ok n)).run p = (.ok { n with id := p.store.size, key := key },
      { p with store := ⟨p.store.nodes.push { n with id := p.store.size, key := key }⟩, created := p.created + 1 }) := by
  unfold intern
  rw [run_bind_ok (run_state p), h]
  rfl

/-- The node that is found under the key of a term is the node of that term, and making it would have succeeded; otherwise it is
made. -/
theorem intern_performs (h : Ledger ops settings es) {t : Term} (ht : t.Clean) (make : Except Failure Node)
    (check : Except Failure α) (hcheck : Matched (fun _ _ => True) make check)
    (hfound : ∀ m ∈ es, m.term = t → ∃ a, check = .ok a) (operand : Term) (scope : List (Bytes × Bytes))
    (hmake : ∀ n, make = .ok n → Made ops settings es t n ∧
      (t.isFix = true → ∃ o ∈ es, o.term = operand ∧ n.inputs = [o.node.id])) :
    Performs ops settings es (intern t.key make) (.visit check ⟨t, operand, scope⟩) fun es' n u =>
      ∃ m ∈ es', m.node = n ∧ m.term = u := by
  intro p hp
  have hfind : p.store.find? t.key = (es.map Entry.node).find? fun n => n.key == t.key := by
    rw [Store.find?, ← hp, Array.find?_toList]
  cases hf : p.store.find? t.key with
  | some n =>
    rw [intern_found hf]
    rw [hfind] at hf
    obtain ⟨m, hm, rfl⟩ := List.mem_map.mp (List.mem_of_find?_eq_some hf)
    have hkey : m.node.key = t.key := by simpa using List.find?_some hf
    obtain ⟨hmk, hmc⟩ := h.key m hm
    have hterm : m.term = t := Term.key_injective hmc ht (hmk.symm.trans hkey)
    obtain ⟨a, rfl⟩ := hfound m hm hterm
    refine ⟨es, ⟨h, List.prefix_refl es, fun v hv => ?_, fun _ hm' => .inl hm'⟩, hp, m, hm, rfl, hterm⟩
    obtain rfl := List.mem_singleton.mp hv
    exact ⟨m, hm, hterm⟩
  | none =>
    cases make with
    | error f =>
      obtain rfl := hcheck.of_error
      rw [intern_failed hf]
      exact ⟨es, .refl h, hp, rfl⟩
    | ok n =>
      obtain ⟨a, rfl, -⟩ := hcheck.of_ok
      obtain ⟨hmade, hstands⟩ := hmake n rfl
      have hsize : p.store.size = es.length := by
        rw [Store.size, ← Array.length_toList, hp, List.length_map]
      rw [intern_made hf, hsize]
      have hnew : ∀ m ∈ es, m.node.key ≠ t.key := by
        rw [hfind] at hf
        intro m hm
        simpa using List.find?_eq_none.mp hf m.node (List.mem_map_of_mem hm)
      have hmem : (⟨{ n with id := es.length, key := t.key }, t⟩ : Entry) ∈ es ++ [⟨{ n with id := es.length, key := t.key }, t⟩] :=
        List.mem_append_right _ (List.mem_singleton_self _)
      refine ⟨_, ⟨h.push hmade ht hnew, List.prefix_append _ _, fun v hv => ?_, fun m hm => ?_⟩, ?_, _, hmem, rfl, rfl⟩
      · obtain rfl := List.mem_singleton.mp hv
        exact ⟨_, hmem, rfl⟩
      · rcases List.mem_append.mp hm with hm | hm
        · exact .inl hm
        · obtain rfl := List.mem_singleton.mp hm
          refine .inr ⟨_, .inl rfl, rfl, fun hfix => ?_⟩
          obtain ⟨o, ho, hoterm, hin⟩ := hstands hfix
          exact ⟨o, List.mem_append_left _ ho, hoterm, hin⟩
      · show (p.store.nodes.push _).toList = _
        rw [Array.toList_push, hp, List.map_append]
        rfl

end

/-! ## Scopes -/

/-- The binders in scope: each is keyed by its depth and its base, which the settings know. -/
def Grounded (settings : Settings) : List Binding → Prop
  | [] => True
  | b :: scope =>
    b.key = variableKey scope.length b.baseName ∧ settings.base? b.baseName = some b.base ∧ IsName b.baseName ∧
      Grounded settings scope

/-- The variables in scope with their bases. -/
def declared (scope : List Binding) : List (Bytes × Bytes) :=
  scope.map fun b => (b.name, b.baseName)

/-- A binder that is found is the one that the variable of its term belongs to. -/
theorem lookup_grounded {settings : Settings} {scope : List Binding} (h : Grounded settings scope) {name : Bytes} {b : Binding}
    (hb : lookup scope name = some b) : ∃ depth, b.key = variableKey depth b.baseName ∧ settings.base? b.baseName = some b.base ∧
      IsName b.baseName ∧ Expr.boundTerm (declared scope) name = some (.var depth b.baseName) := by
  induction scope with
  | nil => cases hb
  | cons a scope ih =>
    obtain ⟨hkey, hbase, hname, hrest⟩ := h
    rw [lookup, List.find?_cons] at hb
    rw [declared, List.map_cons, Expr.boundTerm]
    cases ha : a.name == name with
    | true =>
      rw [ha] at hb
      obtain rfl := Option.some.inj hb
      exact ⟨scope.length, hkey, hbase, hname, by simp⟩
    | false =>
      rw [ha] at hb
      obtain ⟨depth, h1, h2, h3, h4⟩ := ih hrest hb
      exact ⟨depth, h1, h2, h3, by rw [if_neg (by simp)]; exact h4⟩

/-- A name without a binder has no variable. -/
theorem boundTerm_of_lookup_none {scope : List Binding} {name : Bytes} (h : lookup scope name = none) :
    Expr.boundTerm (declared scope) name = none := by
  induction scope with
  | nil => rfl
  | cons a scope ih =>
    rw [lookup, List.find?_cons] at h
    rw [declared, List.map_cons, Expr.boundTerm]
    cases ha : a.name == name with
    | true =>
      rw [ha] at h
      cases h
    | false =>
      rw [ha] at h
      exact ih h

/-! ## Formulas -/

namespace PerformsAux

/-- What goes on without failing fails as the first step does. -/
theorem matched_bind {α β : Type} {x : Except Failure α} {f : α → Except Failure β} (hf : ∀ a, ∃ b, f a = .ok b) :
    Matched (fun _ _ => True) (x >>= f) x := by
  cases x with
  | error e => exact rfl
  | ok a =>
    obtain ⟨b, hb⟩ := hf a
    show Matched _ (f a) _
    rw [hb]
    exact trivial

/-- Making a diamond fails where one of its operators cannot be resolved. -/
theorem diamondNode_matched (c : Compiler) (direction : Direction) (phi : Option Bytes) (sigma : Bytes) (input : Node) :
    Matched (fun _ _ => True) (c.diamondNode direction phi sigma input) (c.ops.sigma.resolve sigma >>= fun _ => c.phi? phi) := by
  unfold diamondNode
  cases c.ops.sigma.resolve sigma with
  | error f => exact rfl
  | ok op => exact matched_bind fun _ => ⟨_, rfl⟩

/-- Both operators of a diamond can be resolved, if each can. -/
theorem resolved_ok {c : Compiler} {phi : Option Bytes} {sigma : Bytes} (hsigma : ∃ op, c.ops.sigma.resolve sigma = .ok op)
    (hphi : ∀ key ∈ phi, ∃ op, c.ops.phi.resolve key = .ok op) :
    ∃ a, (c.ops.sigma.resolve sigma >>= fun _ => c.phi? phi) = .ok a := by
  obtain ⟨op, hop⟩ := hsigma
  rw [hop]
  cases phi with
  | none => exact ⟨none, rfl⟩
  | some key =>
    obtain ⟨op', hop'⟩ := hphi key rfl
    refine ⟨some op', ?_⟩
    show some <$> c.ops.phi.resolve key = _
    rw [hop']
    rfl

end PerformsAux

open PerformsAux

/-- A formula with which a compiler does what is planned, on the labels of any listed node. -/
def Planned (c : Compiler) (e : Expr) : Prop :=
  ∀ ⦃scope : List Binding⦄ ⦃es : List Entry⦄ ⦃m : Entry⦄, Ledger c.ops c.settings es → Grounded c.settings scope →
    e.Named → m ∈ es →
      Performs c.ops c.settings es (c.expr scope e m.node) (e.plan c.ops c.settings (declared scope) m.term) fun es' n t =>
        ∃ m' ∈ es', m'.node = n ∧ m'.term = t

/-- Several formulas with which a compiler does what is planned, on the labels of any listed node. -/
def AllPlanned (c : Compiler) (cs : List Expr) : Prop :=
  ∀ ⦃scope : List Binding⦄ ⦃es : List Entry⦄ ⦃m : Entry⦄, Ledger c.ops c.settings es → Grounded c.settings scope →
    Expr.AllNamed cs → m ∈ es →
      Performs c.ops c.settings es (c.exprs scope cs m.node) (Expr.plans c.ops c.settings (declared scope) m.term cs) fun es' ns ts =>
        ∃ ms : List Entry, (∀ m' ∈ ms, m' ∈ es') ∧ ms.length = cs.length ∧ ms.map Entry.node = ns ∧ ms.map Entry.term = ts

section

variable {c : Compiler}

theorem atom_planned (pos : Position) (name : Bytes) (arg : Argument) : c.Planned (.atom pos name arg) := by
  intro scope es m h _ hwf hm
  obtain ⟨hkey, hclean⟩ := h.key m hm
  have hb := intern_performs h (t := .psi name arg m.term) ⟨hwf, hclean⟩ (c.atomNode name arg m.node) (c.ops.psi.get name arg)
    (matched_bind fun _ => ⟨_, rfl⟩) (fun _ hm' hterm => h.psi hm' hterm) m.term (declared scope) fun n hn => ⟨Made.psi hm hn, nofun⟩
  rw [Term.key, ← hkey] at hb
  exact hb

theorem seq_planned (pos : Position) {left right : Expr} (hl : c.Planned left) (hr : c.Planned right) :
    c.Planned (.seq pos left right) := by
  intro scope es m h hs hwf hm
  refine (hl h hs hwf.1 hm).bind ?_
  rintro es' n t hpre hled ⟨m', hm', rfl, rfl⟩
  exact hr hled hs hwf.2 hm'

theorem par_planned (pos : Position) {children : List Expr} (hc : c.AllPlanned children) : c.Planned (.par pos children) := by
  intro scope es m h hs hwf hm
  have hne : ¬children.isEmpty := by
    intro he
    rw [List.isEmpty_iff.mp he] at hwf
    exact absurd hwf.1 (by simp)
  rw [Compiler.expr, if_neg hne, Expr.plan, if_neg hne]
  refine (hc h hs hwf.2 hm).bind ?_
  rintro es' ns ts hpre hled ⟨ms, hms, hlen, rfl, rfl⟩
  have hb := intern_performs hled (t := .concat (ms.map Entry.term))
    ⟨by rw [List.length_map, hlen]; exact hwf.1, hled.allClean hms⟩ (.ok (concatNode (ms.map Entry.node))) (.ok ()) trivial
    (fun _ _ _ => ⟨(), rfl⟩) m.term (declared scope) fun n hn => ⟨Except.ok.inj hn ▸ Made.concat hms, nofun⟩
  rw [← hled.concatKey_eq hms] at hb
  exact hb

theorem diamond_planned (pos : Position) (direction : Direction) (phi : Option Bytes) (sigma : Bytes) :
    c.Planned (.diamond pos direction phi sigma) := by
  intro scope es m h _ hwf hm
  rw [Compiler.expr, Expr.plan]
  by_cases hadj : c.settings.input.adjacency = true
  · obtain ⟨hkey, hclean⟩ := h.key m hm
    have hb := intern_performs h (t := .diamond direction phi sigma m.term) ⟨hwf.1, hwf.2, hclean⟩ _ _
      (diamondNode_matched c direction phi sigma m.node)
      (fun _ hm' hterm => resolved_ok (h.diamond hm' hterm).2.1 (h.diamond hm' hterm).2.2) m.term (declared scope)
      fun n hn => ⟨Made.diamond hm hadj hn, nofun⟩
    rw [Term.key, ← hkey] at hb
    simp only [hadj, Bool.not_true, Bool.false_eq_true, if_false]
    exact hb
  · simp only [hadj, Bool.not_false, if_true]
    exact Performs.fail h _

theorem var_planned (pos : Position) (name : Bytes) : c.Planned (.var pos name) := by
  intro scope es m h hs _ _
  rw [Compiler.expr, Expr.plan]
  cases hl : lookup scope name with
  | none =>
    rw [boundTerm_of_lookup_none hl]
    exact Performs.fail h _
  | some b =>
    obtain ⟨depth, hkey, hbase, hname, hbound⟩ := lookup_grounded hs hl
    have hb := intern_performs h (t := .var depth b.baseName) hname (.ok (variableNode b name)) (.ok ()) trivial
      (fun _ _ _ => ⟨(), rfl⟩) m.term (declared scope) fun n hn => ⟨Except.ok.inj hn ▸ Made.var name hkey hbase, nofun⟩
    rw [Term.key, ← hkey] at hb
    rw [hbound]
    exact hb

theorem fix_planned (pos : Position) (least : Bool) (v base : Bytes) {body : Expr} (hb : c.Planned body) :
    c.Planned (.fix pos least v base body) := by
  intro scope es m h hs hwf hm
  obtain ⟨_, hname, hbody⟩ := hwf
  refine (Performs.lift h (c.fixpointBase least base)).bind ?_
  rintro es₁ ⟨b, init⟩ _ hpre₁ hled₁ ⟨rfl, hbase⟩
  have hground : Grounded c.settings (⟨v, base, variableKey scope.length base, b⟩ :: scope) :=
    ⟨rfl, (base?_of_fixpointBase hbase).1, hname, hs⟩
  refine (hb hled₁ hground hbody (hpre₁.subset hm)).bind ?_
  rintro es₂ n t hpre₂ hled₂ ⟨mb, hmb, rfl, rfl⟩
  have hlen : (declared scope).length = scope.length := List.length_map ..
  rw [hlen, ← hled₂.width mb hmb]
  refine (Performs.lift hled₂ (checkBodyWidth ⟨v, base, variableKey scope.length base, b⟩ mb.node)).bind ?_
  rintro es₃ ⟨⟩ _ hpre₃ hled₃ ⟨-, hwidth⟩
  obtain ⟨hkey, hclean⟩ := hled₃.key mb (hpre₃.subset hmb)
  have hm₃ : m ∈ es₃ := (hpre₁.trans (hpre₂.trans hpre₃)).subset hm
  have hmade : Made c.ops c.settings es₃ (.fix least scope.length base mb.term) _ :=
    Made.fix (b := ⟨v, base, variableKey scope.length base, b⟩) hm₃ (hpre₃.subset hmb) rfl hbase hwidth
  have hi := intern_performs hled₃ (t := .fix least scope.length base mb.term) ⟨hname, hclean⟩
    (.ok (fixpointNode ⟨v, base, variableKey scope.length base, b⟩ least init m.node mb.node)) (.ok ()) trivial
    (fun _ _ _ => ⟨(), rfl⟩) m.term (declared scope) fun n hn => Except.ok.inj hn ▸ ⟨hmade, fun _ => ⟨m, hm₃, rfl, rfl⟩⟩
  rw [Term.key, ← hkey] at hi
  exact hi

theorem nil_planned : c.AllPlanned [] := by
  intro scope es m h _ _ _
  exact Performs.pure h ⟨[], by simp, rfl, rfl, rfl⟩

theorem cons_planned {e : Expr} {cs : List Expr} (he : c.Planned e) (hcs : c.AllPlanned cs) : c.AllPlanned (e :: cs) := by
  intro scope es m h hs hwf hm
  refine (he h hs hwf.1 hm).bind ?_
  rintro es₁ n t hpre₁ hled₁ ⟨m₁, hm₁, rfl, rfl⟩
  refine (hcs hled₁ hs hwf.2 (hpre₁.subset hm)).bind ?_
  rintro es₂ ns ts hpre₂ hled₂ ⟨ms, hms, hlen, rfl, rfl⟩
  refine Performs.pure hled₂ ⟨m₁ :: ms, ?_, by simp [hlen], rfl, rfl⟩
  intro x hx
  rcases List.mem_cons.mp hx with rfl | hx
  · exact hpre₂.subset hm₁
  · exact hms x hx

end

mutual

/-- Compiling a formula on the labels of a listed node does what is planned. -/
theorem expr_performs (c : Compiler) : ∀ e : Expr, c.Planned e
  | .atom pos name arg => atom_planned pos name arg
  | .seq pos left right => seq_planned pos (expr_performs c left) (expr_performs c right)
  | .par pos children => par_planned pos (exprs_perform c children)
  | .diamond pos direction phi sigma => diamond_planned pos direction phi sigma
  | .var pos name => var_planned pos name
  | .fix pos least v base body => fix_planned pos least v base (expr_performs c body)
  | .hole => fun _ _ _ _ _ hwf _ => hwf.elim

/-- Compiling several formulas on the labels of one listed node does what is planned. -/
theorem exprs_perform (c : Compiler) : ∀ cs : List Expr, c.AllPlanned cs
  | [] => nil_planned
  | e :: cs => cons_planned (expr_performs c e) (exprs_perform c cs)

end

/-! ## Sequences of compilations -/

/-- The compilers that a new one becomes by compiling formulas, in any order, whether that succeeds or not. -/
inductive Reachable (ops : Registries) (settings : Settings) : Compiler → Prop where
  | new {c : Compiler} : Compiler.new ops settings = .ok c → Reachable ops settings c
  | compile {c : Compiler} (canceled : Bool) (text : Bytes) :
      Reachable ops settings c → Reachable ops settings (c.compile canceled text).compiler
  | compileExpr {c : Compiler} (canceled : Bool) {text : Bytes} {e : Expr} :
      Reachable ops settings c → parse text = .ok e → Reachable ops settings (c.compileExpr canceled e).compiler

/-- A compiler with fixed registries and settings whose store is listed by a ledger. -/
structure Listed (ops : Registries) (settings : Settings) (es : List Entry) (c : Compiler) : Prop where
  ops_eq : c.ops = ops
  settings_eq : c.settings = settings
  ledger : Ledger ops settings es
  store_eq : c.store.nodes.toList = es.map Entry.node

section

variable {ops : Registries} {settings : Settings}

/-- The first entry of a ledger is the input. -/
theorem Ledger.head {es : List Entry} (h : Ledger ops settings es) : es[0]? = some ⟨Store.inputNode settings.input, .input⟩ := by
  induction h with
  | start => rfl
  | @push es t n hled _ _ _ ih =>
    rw [List.getElem?_append_left, ih]
    exact (List.getElem?_eq_some_iff.mp ih).1

/-- The input of a listed compiler is the input node. -/
theorem Listed.input_eq {c : Compiler} {es : List Entry} (h : Listed ops settings es c) :
    c.input = Store.inputNode settings.input := by
  have h0 : c.store.nodes[0]? = some (Store.inputNode settings.input) := by
    rw [← Array.getElem?_toList, h.store_eq, List.getElem?_map, h.ledger.head]
    rfl
  rw [Compiler.input, Store.node?, h0]
  rfl

/-- A model of the node of a term, among the nodes of a ledger. -/
def IsModel (settings : Settings) (formula : Bytes) (es : List Entry) (m : Model) (t : Term) : Prop :=
  ∃ out ∈ es, out.term = t ∧ m = Model.ofTable formula settings.input (table es) es.length out.node.id

theorem IsModel.spec_eq {formula : Bytes} {es : List Entry} {m : Model} {t : Term} (hm : IsModel settings formula es m t) :
    m.spec = settings.input := by
  obtain ⟨_, _, _, rfl⟩ := hm
  rfl

theorem IsModel.nodes_eq {formula : Bytes} {es : List Entry} {m : Model} {t : Term} (hm : IsModel settings formula es m t) :
    m.nodes = reached (table es) Node.deps es.length m.output := by
  obtain ⟨_, _, _, rfl⟩ := hm
  rfl

/-- A model of a term holds nodes of the ledger, all that the node of the term needs. -/
theorem IsModel.holds {formula : Bytes} {es : List Entry} {m : Model} {t : Term} (hm : IsModel settings formula es m t)
    (h : Ledger ops settings es) : m.Holds (table es) ∧ ∃ out, es[m.output]? = some out ∧ out.term = t := by
  obtain ⟨out, hout, hterm, rfl⟩ := hm
  have hid := h.getElem?_id hout
  exact ⟨Model.ofTable_holds h.ordered formula settings.input (List.getElem?_eq_some_iff.mp hid).1.le
    ⟨out.node, by rw [table, hid]; rfl⟩, out, hid, hterm⟩

/-- A compilation that succeeds returns the model of the node that the walk returns. -/
theorem compileAs_ok {c : Compiler} {e : Expr} {m : Model} {canceled : Bool} {formula : Bytes}
    (hm : (c.compileAs canceled formula e).result = .ok m) :
    ∃ out p, (c.expr [] e c.input).run { store := c.store } = (.ok out, p) ∧
      (c.compileAs canceled formula e).compiler = { c with store := p.store } ∧
      m = Model.ofTable formula c.settings.input p.store.node? p.store.size out.id := by
  rw [compileAs] at hm ⊢
  cases canceled with
  | true => cases hm
  | false =>
    rw [if_neg (by simp)] at hm ⊢
    rcases hrun : (c.expr [] e c.input).run { store := c.store } with ⟨x, p⟩
    rw [hrun] at hm
    cases x with
    | error f => cases hm
    | ok out =>
      cases hm
      exact ⟨out, p, rfl, rfl, rfl⟩

/-- A compilation that fails does so in the walk, unless the caller has given up. -/
theorem compileAs_error {c : Compiler} {e : Expr} {f : Failure} {canceled : Bool} {formula : Bytes}
    (hf : (c.compileAs canceled formula e).result = .error f) :
    f = .canceled ∨ ∃ p, (c.expr [] e c.input).run { store := c.store } = (.error f, p) := by
  rw [compileAs] at hf
  cases canceled with
  | true => exact .inl (Except.error.inj hf).symm
  | false =>
    rw [if_neg (by simp)] at hf
    rcases hrun : (c.expr [] e c.input).run { store := c.store } with ⟨x, p⟩
    rw [hrun] at hf
    cases x with
    | error g =>
      cases hf
      exact .inr ⟨p, rfl⟩
    | ok out => cases hf

/-- Compiling a formula whose names text can spell leaves a listed compiler that records the visits of its plan, and fails as planned or
returns the model of the node of the planned term. -/
theorem Listed.compileAs {c : Compiler} {es : List Entry} (h : Listed ops settings es c) {e : Expr} (he : e.Named)
    (canceled : Bool) (formula : Bytes) :
    ∃ es', Listed ops settings es' (c.compileAs canceled formula e).compiler ∧
      Recorded ops settings es (e.callPlan ops settings canceled).visits es' ∧
      Matched (IsModel settings formula es') (c.compileAs canceled formula e).result (e.callPlan ops settings canceled).result := by
  have hin := h.input_eq
  obtain ⟨rfl, rfl, hled, hstore⟩ := h
  have hm : ⟨Store.inputNode c.settings.input, .input⟩ ∈ es := List.mem_of_getElem? hled.head
  unfold Compiler.compileAs Expr.callPlan
  cases canceled with
  | true => exact ⟨es, ⟨rfl, rfl, hled, hstore⟩, .refl hled, rfl⟩
  | false =>
    obtain ⟨es', hrec, hstore', hmatch⟩ :=
      expr_performs c e hled (show Grounded c.settings [] from trivial) he hm ⟨c.store, 0, 0⟩ hstore
    simp only [Bool.false_eq_true, if_false, hin]
    rcases hrun : (c.expr [] e (Store.inputNode c.settings.input)).run ⟨c.store, 0, 0⟩ with ⟨r, p⟩
    rw [hrun] at hstore' hmatch
    have hlist : Listed c.ops c.settings es' { c with store := p.store } := ⟨rfl, rfl, hrec.ledger, hstore'⟩
    cases r with
    | error f => exact ⟨es', hlist, hrec, hmatch.of_error.symm ▸ rfl⟩
    | ok n =>
      obtain ⟨t, ht, out, hout, rfl, hterm⟩ := hmatch.of_ok
      have htable : p.store.node? = table es' := by
        funext i
        rw [Store.node?, ← Array.getElem?_toList, hstore', List.getElem?_map, table]
      have hsize : p.store.size = es'.length := by
        rw [Store.size, ← Array.length_toList, hstore', List.length_map]
      refine ⟨es', hlist, hrec, ?_⟩
      show Matched _ _ (e.plan c.ops c.settings (declared []) .input).result
      rw [ht]
      exact ⟨out, hout, hterm, by rw [htable, hsize]⟩

/-- A new compiler has the input alone. -/
theorem listed_new {c : Compiler} (h : Compiler.new ops settings = .ok c) :
    Listed ops settings [⟨Store.inputNode settings.input, .input⟩] c := by
  obtain ⟨_, _, h⟩ := bind_ok h
  cases h
  exact ⟨rfl, rfl, .start, rfl⟩

/-- A compiler that has compiled any formulas is listed by a ledger. -/
theorem Reachable.listed {c : Compiler} (h : Reachable ops settings c) : ∃ es, Listed ops settings es c := by
  induction h with
  | new h => exact ⟨_, listed_new h⟩
  | @compile c canceled text _ ih =>
    obtain ⟨es, ih⟩ := ih
    unfold Compiler.compile
    cases hparse : parse text with
    | error f => exact ⟨es, ih⟩
    | ok e =>
      obtain ⟨es', h, _⟩ := ih.compileAs (parse_wellFormed hparse).named canceled text
      exact ⟨es', h⟩
  | @compileExpr c canceled text e _ hparse ih =>
    obtain ⟨es, ih⟩ := ih
    unfold Compiler.compileExpr
    split
    · exact ⟨es, ih⟩
    · obtain ⟨es', h, _⟩ := ih.compileAs (parse_wellFormed hparse).named canceled e.key
      exact ⟨es', h⟩

end

end Compiler

end ModalGraph
