import ModalGraph.Proofs.Compiler.Built
import ModalGraph.Proofs.Evaluator.Course

/-!
# What holds throughout an evaluation

A regime says what the labels of a term are like, and those of a variable by its key, and which failures may end an evaluation; it may
speak of some terms only, if these have their parts among them. A regime is upheld (`Regime.Upheld`) if one step keeps to it: each
operator on labels that keep to it, the row that a fixpoint starts from, and the check of a body. Then an evaluation keeps to it
as a whole: every call that it makes, in any frame and any turn of any fixpoint around, gives labels of its term or an allowed failure
(`Comes.result`). What carries the induction is that the labels that a run has kept, and those in scope, keep to it as well
(`Regime.Kept`, `Placed`).
-/

namespace ModalGraph

open Formula Compiler

namespace Evaluator

/-- What holds throughout an evaluation: the terms it is said of, what their labels are like, what the labels of a variable are like,
and which failures may come up. -/
structure Regime where
  Relevant : Term → Prop
  Labels : Term → Tensor → Prop
  Assigned : Bytes → Tensor → Prop
  Fails : Failure → Prop

/-- One step of an evaluation keeps to a regime. -/
structure Regime.Upheld (g : Regime) (ops : Registries) (settings : Settings) (t : Task) : Prop where
  parts : ∀ {u}, g.Relevant u → ∀ p ∈ u.parts, g.Relevant p
  input : g.Labels .input t.input.x
  psi : ∀ {name arg op u n x}, g.Relevant (.psi name arg u) → ops.psi.get name arg = .ok op → n.opName = bracketed name arg →
    g.Labels u x → EndsIn (g.Labels (.psi name arg u)) g.Fails (applyPsi t n op x)
  interrupts : ∀ {name arg op}, ops.psi.get name arg = .ok op → op.interrupts = true → g.Fails .canceled
  concat : ∀ {us xs}, g.Relevant (.concat us) → List.Forall₂ g.Labels us xs →
    EndsIn (g.Labels (.concat us)) g.Fails (Tensor.concat xs)
  diamond : ∀ {direction phiKey sigmaKey phi sigma u n x}, g.Relevant (.diamond direction phiKey sigmaKey u) →
    settings.input.adjacency = true → ops.sigma.resolve sigmaKey = .ok sigma → (fresh ops settings).phi? phiKey = .ok phi →
    n.direction = .ofDirection direction → n.opName = sigmaKey → n.phiName = phiKey.getD [] → g.Labels u x →
      EndsIn (g.Labels (.diamond direction phiKey sigmaKey u)) g.Fails (applyDiamond t n phi sigma x)
  var : ∀ {depth name base x}, settings.base? name = some base → g.Assigned (variableKey depth name) x →
    g.Labels (.var depth name) x
  start : ∀ {least depth name u base row}, g.Relevant (.fix least depth name u) → settings.base? name = some base →
    base.init least = .ok row → EndsIn (g.Assigned (variableKey depth name)) g.Fails (orAborted (Tensor.full? t.nodes row base.dtype))
  turn : ∀ {least depth name u base row b x}, g.Relevant (.fix least depth name u) → settings.base? name = some base →
    base.init least = .ok row → b.base = name → g.Labels u x →
      EndsIn (fun _ => g.Assigned (variableKey depth name) x) g.Fails (checkBody t b row.length x)
  fix : ∀ {least depth name u base row x}, settings.base? name = some base → base.init least = .ok row →
    g.Assigned (variableKey depth name) x → g.Labels (.fix least depth name u) x
  unsettled : ∀ key limit, g.Fails (.nonTermination key limit)

/-- A run that keeps labels of terms. -/
structure Regime.Kept (g : Regime) (es : List Entry) (r : Run) : Prop where
  closed : ∀ {i x}, r.closed.lookup i = some x → ∃ m, es[i]? = some m ∧ g.Labels m.term x
  current : ∀ {i x}, r.current.lookup i = some x → ∃ m, es[i]? = some m ∧ g.Labels m.term x
  live : r.patience = .endless ∨ g.Fails .canceled

/-- A step that, from a run that keeps to a regime, gives a value with a property or an allowed failure, and leaves a run that keeps
to it, also where it fails. -/
def Regime.Keeps (g : Regime) (es : List Entry) {α : Type} (act : Eval α) (Q : α → Prop) : Prop :=
  ∀ r, g.Kept es r → g.Kept es (act.run r).2 ∧ EndsIn Q g.Fails (act.run r).1

/-- An entry that can be asked for: its node is in the model, what it reads from is within reach of the fuel, and the labels in scope
keep to the regime and are there for every variable that its term mentions. -/
structure Placed (g : Regime) (es : List Entry) (t : Task) (fuel : Nat) (scope : Scope) (m : Entry) : Prop where
  mem : m ∈ es
  node : t.model.node? m.node.id = some m.node
  relevant : g.Relevant m.term
  rank_lt : t.model.rank m.node.id < fuel
  assigned : ∀ {k x}, scope.lookup k = some x → g.Assigned k x
  bound : ∀ k, m.term.Mentions k → ∃ x, scope.lookup k = some x

namespace Regime.Keeps

variable {g : Regime} {es : List Entry} {t : Task} {α β : Type} {Q : α → Prop} {R : β → Prop}

theorem pure {a : α} (h : Q a) : g.Keeps es (Pure.pure a) Q :=
  fun _ hr => ⟨hr, h⟩

theorem throw {f : Failure} (h : g.Fails f) : g.Keeps es (MonadExcept.throw f : Eval α) Q :=
  fun _ hr => ⟨hr, h⟩

/-- A result taken as a step. -/
theorem lift {x : Except Failure α} (h : EndsIn Q g.Fails x) : g.Keeps es (liftM x) Q := by
  intro r hr
  rw [run_lift]
  exact ⟨hr, h⟩

/-- A change of the run that what it keeps stays as it is in. -/
theorem change {f : Run → Run} (h : ∀ r, g.Kept es r → g.Kept es (f r)) : g.Keeps es (modify f) fun _ => True :=
  fun r hr => ⟨h r hr, trivial⟩

theorem bind {act : Eval α} {f : α → Eval β} (h : g.Keeps es act Q) (hf : ∀ a, Q a → g.Keeps es (f a) R) :
    g.Keeps es (act >>= f) R := by
  intro r hr
  have hact := h r hr
  rw [run_bind]
  rcases hrun : act.run r with ⟨a | a, r'⟩
  · rw [hrun] at hact
    exact hact
  · rw [hrun] at hact
    exact hf a hact.2 r' hact.1

theorem checkLive : g.Keeps es checkLive fun _ => True := by
  intro r hr
  rcases hr.live with hendless | hcanceled
  · rw [run_checkLive hendless]
    exact ⟨hr, trivial⟩
  · rw [Evaluator.checkLive, run_bind_ok (run_state r)]
    cases r.patience.waits with
    | true => exact ⟨⟨hr.closed, hr.current, .inr hcanceled⟩, trivial⟩
    | false => exact ⟨hr, hcanceled⟩

/-- A step in an iteration of its own. -/
theorem inIteration {act : Eval α} (h : g.Keeps es act Q) : g.Keeps es (Evaluator.inIteration act) Q := by
  intro r hr
  have hfresh : g.Kept es { r with current := [] } := ⟨hr.closed, (fun h => by cases h), hr.live⟩
  obtain ⟨hkept, hends⟩ := h _ hfresh
  rw [run_inIteration]
  exact ⟨⟨hkept.closed, hr.current, hkept.live⟩, hends⟩

/-- The same step for each of some entries. -/
theorem mapM {f : Nat → Eval Tensor} {us : List Entry} (h : ∀ u ∈ us, g.Keeps es (f u.node.id) (g.Labels u.term)) :
    g.Keeps es ((us.map fun u => u.node.id).mapM f) (List.Forall₂ g.Labels (us.map Entry.term)) := by
  induction us with
  | nil => exact Keeps.pure .nil
  | cons u us ih =>
    simp only [List.map_cons, List.mapM_cons]
    refine (h u List.mem_cons_self).bind fun x hx => ?_
    refine (ih fun u' hu' => h u' (List.mem_cons_of_mem _ hu')).bind fun xs hxs => ?_
    exact Keeps.pure (.cons hx hxs)

/-- An iteration gives labels such as its turns give, or those that it started from. -/
theorem iterate {key : Bytes} {limit : Nat} {step : Tensor → Eval Tensor} {Q : Tensor → Prop}
    (hstep : ∀ x, Q x → g.Keeps es (step x) Q) (hlimit : ∀ key limit, g.Fails (.nonTermination key limit)) (remaining : Nat)
    {x : Tensor} (hx : Q x) : g.Keeps es (Evaluator.iterate key limit step remaining x) fun p => Q p.1 := by
  induction remaining generalizing x with
  | zero =>
    rw [Evaluator.iterate]
    exact checkLive.bind fun _ _ => Keeps.throw (hlimit key limit)
  | succ remaining ih =>
    rw [Evaluator.iterate]
    refine checkLive.bind fun _ _ => ?_
    refine (hstep x hx).bind fun y hy => ?_
    split
    · exact Keeps.pure hx
    · exact ih hy

end Regime.Keeps

/-- The run at a turn that an iteration comes to, and the labels there, are such as turns leave them. -/
theorem ComesToTurn.kept {g : Regime} {es : List Entry} {step : Tensor → Eval Tensor} {Q : Tensor → Prop}
    (hstep : ∀ x, Q x → g.Keeps es (step x) Q) {remaining : Nat} {x y : Tensor} {r r' : Run}
    (h : ComesToTurn step remaining x r y r') (hx : Q x) (hr : g.Kept es r) : Q y ∧ g.Kept es r' := by
  induction h with
  | @here _ _ r _ hlive =>
    have hasked := (Regime.Keeps.checkLive r hr).1
    rw [hlive] at hasked
    exact ⟨hx, hasked⟩
  | @later _ _ _ _ r _ _ _ hlive hrun _ _ ih =>
    have hasked := (Regime.Keeps.checkLive r hr).1
    rw [hlive] at hasked
    have hturn := hstep _ hx _ hasked
    rw [hrun] at hturn
    exact ih hturn.2 hturn.1

section

variable {g : Regime} {ops : Registries} {settings : Settings} {es : List Entry} {t : Task} {fuel : Nat} {scope : Scope} {m : Entry}

/-- The labels that are kept for a node. -/
theorem Regime.Kept.known {r : Run} (hr : g.Kept es r) (hid : es[m.node.id]? = some m) {x : Tensor} (hx : r.known m.node = some x) :
    g.Labels m.term x := by
  rw [Run.known] at hx
  split at hx
  · obtain ⟨m', hm', hlabels⟩ := hr.closed hx
    rwa [Option.some.inj (hid.symm.trans hm')]
  · obtain ⟨m', hm', hlabels⟩ := hr.current hx
    rwa [Option.some.inj (hid.symm.trans hm')]

/-- The labels of a node kept. -/
theorem Regime.Kept.keep {r : Run} (hr : g.Kept es r) (hid : es[m.node.id]? = some m) {x : Tensor} (hx : g.Labels m.term x) :
    g.Kept es (r.keep m.node x) := by
  have hlookup : ∀ {memo : Memo}, (∀ {i y}, memo.lookup i = some y → ∃ m, es[i]? = some m ∧ g.Labels m.term y) →
      ∀ {i y}, List.lookup i ((m.node.id, x) :: memo) = some y → ∃ m, es[i]? = some m ∧ g.Labels m.term y := by
    intro memo hmemo i y hlook
    rw [List.lookup_cons] at hlook
    split at hlook
    · rename_i heq
      obtain rfl := beq_iff_eq.mp heq
      obtain rfl := Option.some.inj hlook
      exact ⟨m, hid, hx⟩
    · exact hmemo hlook
  rw [Run.keep]
  split
  · exact ⟨hlookup hr.closed, hr.current, hr.live⟩
  · exact ⟨hr.closed, hlookup hr.current, hr.live⟩

theorem anyMentions_of_mem {k : Bytes} {u : Term} {us : List Term} (hu : u ∈ us) (hk : u.Mentions k) : Term.AnyMentions k us := by
  induction us with
  | nil => cases hu
  | cons u' us ih =>
    rcases List.mem_cons.mp hu with rfl | hu
    · exact .inl hk
    · exact .inr (ih hu)

/-- An entry that a placed one reads from is placed in the same scope, with one less to go. -/
theorem Placed.operand (hl : Ledger ops settings es) (hh : t.model.Holds (table es)) (hm : Placed g es t (fuel + 1) scope m)
    {u : Entry} (hu : u ∈ es) (hdep : u.node.id ∈ m.node.deps) (hrel : g.Relevant u.term) {inner : Scope}
    (hassigned : ∀ {k x}, inner.lookup k = some x → g.Assigned k x) (hbound : ∀ k, u.term.Mentions k → ∃ x, inner.lookup k = some x) :
    Placed g es t fuel inner u := by
  obtain ⟨⟨n, hn⟩, hlt⟩ := hh.deps_rank hl.ordered hm.node hdep
  obtain rfl : u.node = n := node_eq_of_holds hh (hl.getElem?_id hu) hn
  have hrank := hm.rank_lt
  exact ⟨hu, hn, hrel, by omega, hassigned, hbound⟩

/-- The operand of a placed operator is placed. -/
theorem Placed.single (hl : Ledger ops settings es) (hh : t.model.Holds (table es)) (hg : g.Upheld ops settings t)
    (hm : Placed g es t (fuel + 1) scope m) {u : Entry} (hu : u ∈ es) (hin : m.node.inputs = [u.node.id])
    (hpart : u.term ∈ m.term.parts) (hmentions : ∀ k, u.term.Mentions k → m.term.Mentions k) : Placed g es t fuel scope u := by
  refine hm.operand hl hh hu ?_ (hg.parts hm.relevant _ hpart) hm.assigned fun k hk => hm.bound k (hmentions k hk)
  rw [Node.deps, hin]
  exact List.mem_append_left _ (List.mem_singleton.mpr rfl)

/-- The turns of a placed fixpoint give labels such as its variable has, if its body gives labels of its term. -/
theorem bodyStep_keeps (hg : g.Upheld ops settings t) {ask : Scope → Nat → Eval Tensor} {least : Bool} {depth : Nat} {name : Bytes}
    {base : Base} {row : List Label} {b : Binder} {u : Entry} (hrel : g.Relevant (.fix least depth name u.term))
    (hbase : settings.base? name = some base) (hinit : base.init least = .ok row) (hname : b.base = name) (hrow : b.init = some row)
    (hbody : ∀ x, g.Assigned (variableKey depth name) x → g.Keeps es (ask ((b.var, x) :: scope) u.node.id) (g.Labels u.term)) :
    ∀ x, g.Assigned (variableKey depth name) x →
      g.Keeps es (bodyStep t ask scope b u.node.id x) (g.Assigned (variableKey depth name)) := by
  intro x hx
  rw [bodyStep, turnStep, hrow, Option.getD_some]
  refine (Regime.Keeps.inIteration (hbody x hx)).bind fun y hy => ?_
  exact (Regime.Keeps.lift (hg.turn hrel hbase hinit hname hy)).bind fun _ hassigned => Regime.Keeps.pure hassigned

/-- The body of a placed fixpoint is placed in the scope that its variable is added to. -/
theorem Placed.body (hl : Ledger ops settings es) (hh : t.model.Holds (table es)) (hm : Placed g es t (fuel + 1) scope m)
    {least : Bool} {depth : Nat} {name : Bytes} {u : Entry} (hterm : m.term = .fix least depth name u.term) (hu : u ∈ es)
    (hdep : m.node.body = some u.node.id) (hrel : g.Relevant u.term) {x : Tensor} (hx : g.Assigned (variableKey depth name) x) :
    Placed g es t fuel ((variableKey depth name, x) :: scope) u := by
  refine hm.operand hl hh hu ?_ hrel (fun hlook => ?_) fun k hk => ?_
  · rw [Node.deps, hdep]
    exact List.mem_append_right _ (List.mem_singleton.mpr rfl)
  · rw [List.lookup_cons] at hlook
    split at hlook
    · rename_i heq
      obtain rfl := beq_iff_eq.mp heq
      obtain rfl := Option.some.inj hlook
      exact hx
    · exact hm.assigned hlook
  · rw [List.lookup_cons]
    by_cases hkey : k = variableKey depth name
    · exact ⟨x, by rw [hkey, beq_self_eq_true]⟩
    · obtain ⟨y, hy⟩ := hm.bound k (by rw [hterm]; exact ⟨hkey, hk⟩)
      refine ⟨y, ?_⟩
      rw [show (k == variableKey depth name) = false by simpa using hkey]
      exact hy

/-- The entries of a placed concatenation are placed. -/
theorem Placed.part (hl : Ledger ops settings es) (hh : t.model.Holds (table es)) (hg : g.Upheld ops settings t)
    (hm : Placed g es t (fuel + 1) scope m) {us : List Entry} (hterm : m.term = .concat (us.map Entry.term)) (hus : ∀ u ∈ us, u ∈ es)
    (hin : m.node.inputs = us.map fun u => u.node.id) {u : Entry} (hu : u ∈ us) : Placed g es t fuel scope u := by
  refine hm.operand hl hh (hus u hu) ?_ ?_ hm.assigned fun k hk => hm.bound k ?_
  · rw [Node.deps, hin]
    exact List.mem_append_left _ (List.mem_map_of_mem hu)
  · refine hg.parts hm.relevant u.term ?_
    rw [hterm]
    exact List.mem_map_of_mem hu
  · rw [hterm]
    exact anyMentions_of_mem (List.mem_map_of_mem hu) hk

/-- Computing a placed node keeps to a regime, if the nodes that it asks for do. -/
theorem compute_keeps (hl : Ledger ops settings es) (hh : t.model.Holds (table es)) (hg : g.Upheld ops settings t)
    {ask : Scope → Nat → Eval Tensor}
    (hask : ∀ {scope u}, Placed g es t fuel scope u → g.Keeps es (ask scope u.node.id) (g.Labels u.term))
    (hm : Placed g es t (fuel + 1) scope m) : g.Keeps es (compute t ask scope m.node) (g.Labels m.term) := by
  have hrel := hm.relevant
  have hbuilt := hl.built hm.mem
  generalize hterm : m.term = term at hbuilt hrel
  cases hbuilt with
  | input hkind =>
    rw [compute, hkind]
    exact Regime.Keeps.pure hg.input
  | @psi u name arg op _ hu hop hkind hin hops hname =>
    have hplaced : Placed g es t fuel scope u :=
      hm.single hl hh hg hu hin (by rw [hterm]; exact List.mem_singleton.mpr rfl) fun k hk => by rwa [hterm]
    simp only [compute, hkind, hin, hops]
    refine (hask hplaced).bind fun x hx => ?_
    have happly : g.Keeps es (liftM (applyPsi t m.node op x)) (g.Labels (.psi name arg u.term)) :=
      Regime.Keeps.lift (hg.psi hrel hop hname hx)
    split
    · rename_i hstop
      refine (Regime.Keeps.change fun r hr => ?_).bind fun _ _ => happly
      exact ⟨hr.closed, hr.current, .inr (hg.interrupts hop hstop)⟩
    · exact happly
  | @concat us _ hus hkind hin =>
    simp only [compute, hkind, hin]
    refine (Regime.Keeps.mapM fun u hu => hask (hm.part hl hh hg hterm hus hin hu)).bind fun xs hxs => ?_
    exact Regime.Keeps.lift (hg.concat hrel hxs)
  | @diamond u direction phiKey sigmaKey phi sigma _ hu hadj hsigma hphi hkind hin hops hdir hname hphiName =>
    have hplaced : Placed g es t fuel scope u :=
      hm.single hl hh hg hu hin (by rw [hterm]; exact List.mem_singleton.mpr rfl) fun k hk => by rwa [hterm]
    simp only [compute, hkind, hin, hops]
    refine (hask hplaced).bind fun x hx => ?_
    exact Regime.Keeps.lift (hg.diamond hrel hadj hsigma hphi hdir hname hphiName hx)
  | @var depth name base _ hbase hkind hkey =>
    obtain ⟨x, hx⟩ := hm.bound (variableKey depth name) (by rw [hterm]; rfl)
    simp only [compute, hkind, hkey, hx]
    exact Regime.Keeps.pure (hg.var hbase (hm.assigned hx))
  | @fix u least depth name base row b _ hu hbase hinit hkind hb hbody hvar hname hrow hdtype hwidth =>
    have hrelBody := hg.parts hrel _ (List.mem_singleton.mpr rfl)
    have hstep : ∀ x, g.Assigned (variableKey depth name) x →
        g.Keeps es (bodyStep t ask scope b u.node.id x) (g.Assigned (variableKey depth name)) := by
      refine bodyStep_keeps hg hrel hbase hinit hname hrow fun x hx => ?_
      rw [hvar]
      exact hask (hm.body hl hh hterm hu hbody hrelBody hx)
    simp only [compute, hkind, hb, hbody]
    have hstart : EndsIn (g.Assigned (variableKey depth name)) g.Fails (t.start b) := by
      rw [Task.start, hrow, hdtype]
      exact hg.start hrel hbase hinit
    refine (Regime.Keeps.lift hstart).bind fun x hx => ?_
    refine (Regime.Keeps.iterate hstep hg.unsettled _ hx).bind fun p hp => ?_
    obtain ⟨y, iterations⟩ := p
    refine (Regime.Keeps.change fun r hr => ?_).bind fun _ _ => Regime.Keeps.pure (hg.fix hbase hinit hp)
    exact ⟨hr.closed, hr.current, hr.live⟩

/-- Evaluating a placed node keeps to a regime. -/
theorem eval_keeps (hl : Ledger ops settings es) (hh : t.model.Holds (table es)) (hg : g.Upheld ops settings t) (fuel : Nat) :
    ∀ {scope : Scope} {m : Entry}, Placed g es t fuel scope m → g.Keeps es (eval t fuel scope m.node.id) (g.Labels m.term) := by
  induction fuel with
  | zero => exact fun hm => absurd hm.rank_lt (Nat.not_lt_zero _)
  | succ fuel ih =>
    intro scope m hm r hr
    have hid := hl.getElem?_id hm.mem
    have hcompute := compute_keeps hl hh hg ih hm r hr
    cases hknown : r.known m.node with
    | some x =>
      rw [eval_known hm.node hknown]
      exact ⟨hr, hr.known hid hknown⟩
    | none =>
      rw [eval_unknown hm.node hknown]
      rcases hrun : (compute t (eval t fuel) scope m.node).run r with ⟨a | x, r'⟩
      · rw [hrun] at hcompute
        exact hcompute
      · rw [hrun] at hcompute
        exact ⟨hcompute.1.keep hid hcompute.2, hcompute.2⟩

/-- What a placed node asks for is placed, and is asked for from a run that keeps to the regime. -/
theorem Asks.placed (hl : Ledger ops settings es) (hh : t.model.Holds (table es)) (hg : g.Upheld ops settings t)
    (hm : Placed g es t (fuel + 1) scope m) {inner : Scope} {i : Nat} {r r' : Run} (hr : g.Kept es r)
    (h : Asks t (eval t fuel) scope m.node r inner i r') : ∃ u, u.node.id = i ∧ Placed g es t fuel inner u ∧ g.Kept es r' := by
  have hrel := hm.relevant
  have hbuilt := hl.built hm.mem
  generalize hterm : m.term = term at hbuilt hrel
  cases hbuilt with
  | input hkind =>
    -- The node of the input asks for nothing.
    cases h with
    | psi hk | diamond hk | part hk | body hk => cases hkind.symm.trans hk
  | var _ hkind =>
    cases h with
    | psi hk | diamond hk | part hk | body hk => cases hkind.symm.trans hk
  | @psi u name arg op _ hu hop hkind hin hops hname =>
    have hplaced : Placed g es t fuel scope u :=
      hm.single hl hh hg hu hin (by rw [hterm]; exact List.mem_singleton.mpr rfl) fun k hk => by rwa [hterm]
    cases h with
    | psi _ hin' _ =>
      obtain rfl := List.singleton_inj.mp (hin.symm.trans hin')
      exact ⟨u, rfl, hplaced, hr⟩
    | diamond hk | part hk | body hk => cases hkind.symm.trans hk
  | @diamond u direction phiKey sigmaKey phi sigma _ hu hadj hsigma hphi hkind hin hops hdir hname hphiName =>
    have hplaced : Placed g es t fuel scope u :=
      hm.single hl hh hg hu hin (by rw [hterm]; exact List.mem_singleton.mpr rfl) fun k hk => by rwa [hterm]
    cases h with
    | diamond _ hin' _ =>
      obtain rfl := List.singleton_inj.mp (hin.symm.trans hin')
      exact ⟨u, rfl, hplaced, hr⟩
    | psi hk | part hk | body hk => cases hkind.symm.trans hk
  | @concat us _ hus hkind hin =>
    have hplaced : ∀ u ∈ us, Placed g es t fuel scope u := fun u hu => hm.part hl hh hg hterm hus hin hu
    cases h with
    | @part before after i xs r' _ hin' hrun =>
      obtain ⟨us₁, rest, rfl, rfl, hrest⟩ := List.map_eq_append_iff.mp (hin.symm.trans hin')
      obtain ⟨u, us₂, rfl, rfl, rfl⟩ := List.map_eq_cons_iff.mp hrest
      have hearlier : g.Keeps es ((us₁.map fun u => u.node.id).mapM (eval t fuel scope))
          (List.Forall₂ g.Labels (us₁.map Entry.term)) :=
        Regime.Keeps.mapM fun u hu => eval_keeps hl hh hg fuel (hplaced u (List.mem_append_left _ hu))
      have hbefore := hearlier r hr
      rw [hrun] at hbefore
      exact ⟨u, rfl, hplaced u (by simp), hbefore.1⟩
    | psi hk | diamond hk | body hk => cases hkind.symm.trans hk
  | @fix u least depth name base row b _ hu hbase hinit hkind hb hbody hvar hname hrow hdtype hwidth =>
    have hrelBody := hg.parts hrel _ (List.mem_singleton.mpr rfl)
    have hplaced : ∀ x, g.Assigned (variableKey depth name) x → Placed g es t fuel ((b.var, x) :: scope) u := by
      intro x hx
      rw [hvar]
      exact hm.body hl hh hterm hu hbody hrelBody hx
    have hstep : ∀ x, g.Assigned (variableKey depth name) x →
        g.Keeps es (bodyStep t (eval t fuel) scope b u.node.id x) (g.Assigned (variableKey depth name)) :=
      bodyStep_keeps hg hrel hbase hinit hname hrow fun x hx => eval_keeps hl hh hg fuel (hplaced x hx)
    cases h with
    | @body b' body x₀ x r' _ hb' hbody' hfirst hturn =>
      obtain rfl := Option.some.inj (hb.symm.trans hb')
      obtain rfl := Option.some.inj (hbody.symm.trans hbody')
      have hstart : EndsIn (g.Assigned (variableKey depth name)) g.Fails (t.start b) := by
        rw [Task.start, hrow, hdtype]
        exact hg.start hrel hbase hinit
      rw [hfirst] at hstart
      obtain ⟨hx, hr'⟩ := hturn.kept hstep hstart hr
      exact ⟨u, rfl, hplaced x hx, hr'.closed, (fun h => by cases h), hr'.live⟩
    | psi hk | diamond hk | part hk => cases hkind.symm.trans hk

/-! ## Whole evaluations -/

/-- Every call of an evaluation asks for a placed node, from a run that keeps to the regime, if the evaluation is of a relevant term
that mentions no variable. -/
theorem Comes.placed (hl : Ledger ops settings es) (hh : t.model.Holds (table es)) (hg : g.Upheld ops settings t) {out : Entry}
    (hout : out ∈ es) (houtput : t.model.output = out.node.id) (hrel : g.Relevant out.term) (hclosed : ∀ k, ¬ out.term.Mentions k)
    {c : Call} (h : Comes t c) : ∃ m, m.node.id = c.id ∧ Placed g es t c.fuel c.scope m ∧ g.Kept es c.run := by
  induction h with
  | start =>
    obtain ⟨n, hn⟩ := hh.output_some
    obtain rfl : out.node = n := node_eq_of_holds hh (houtput ▸ hl.getElem?_id hout) hn
    refine ⟨out, houtput.symm, ⟨hout, houtput ▸ hn, hrel, ?_, (fun h => by cases h), fun k hk => absurd hk (hclosed k)⟩, ?_⟩
    · exact Nat.lt_succ_of_le (t.model.rank_le _)
    · exact ⟨(fun h => by cases h), (fun h => by cases h), .inl rfl⟩
  | asked _ hn _ hasks ih =>
    obtain ⟨m, hid, hplaced, hkept⟩ := ih
    dsimp only at hid hplaced hkept
    subst hid
    obtain rfl := Option.some.inj (hplaced.node.symm.trans hn)
    exact hasks.placed hl hh hg hplaced hkept

/-- The run after a call of an evaluation keeps to the regime, whether the call gives labels or fails. -/
theorem Comes.kept (hl : Ledger ops settings es) (hh : t.model.Holds (table es)) (hg : g.Upheld ops settings t) {out : Entry}
    (hout : out ∈ es) (houtput : t.model.output = out.node.id) (hrel : g.Relevant out.term) (hclosed : ∀ k, ¬ out.term.Mentions k)
    {c : Call} (h : Comes t c) : g.Kept es (c.result t).2 := by
  obtain ⟨m, hid, hplaced, hkept⟩ := h.placed hl hh hg hout houtput hrel hclosed
  rw [Call.result, ← hid]
  exact (eval_keeps hl hh hg c.fuel hplaced c.run hkept).1

/-- What a call of an evaluation gives: labels of its term, or an allowed failure. -/
theorem Comes.result (hl : Ledger ops settings es) (hh : t.model.Holds (table es)) (hg : g.Upheld ops settings t) {out : Entry}
    (hout : out ∈ es) (houtput : t.model.output = out.node.id) (hrel : g.Relevant out.term) (hclosed : ∀ k, ¬ out.term.Mentions k)
    {c : Call} (h : Comes t c) :
    ∃ m ∈ es, m.node.id = c.id ∧ t.model.node? c.id = some m.node ∧ EndsIn (g.Labels m.term) g.Fails (c.result t).1 := by
  obtain ⟨m, hid, hplaced, hkept⟩ := h.placed hl hh hg hout houtput hrel hclosed
  refine ⟨m, hplaced.mem, hid, hid ▸ hplaced.node, ?_⟩
  rw [Call.result, ← hid]
  exact (eval_keeps hl hh hg c.fuel hplaced c.run hkept).2

end

end Evaluator

end ModalGraph
