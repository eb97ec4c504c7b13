import ModalGraph.Proofs.Compiler.Built
import ModalGraph.Proofs.Evaluator.Refinement

/-!
# Iterations that are reported

An evaluation reports every iteration of a fixpoint that has settled, with the number of turns that it took. Which iterations there are,
and how long they are, is said of terms first: a term converges (`Converges`) at a fixpoint in it, in some number of turns, in the scope
that it is evaluated in or, if the fixpoint is below another one, in a scope that an iteration of that one passes through. Evaluating a
node reports the convergences of its term, and no others (`eval_tells`); of a node that has been computed before they have been reported
before (`Recorded`). So the reports of an evaluation that succeeds are the convergences of the formula's term (`reported_iff`).
-/

namespace ModalGraph

open Formula Compiler

/-! ## Iterations -/

/-- Applies a body to labels until they do not change, at most `remaining` times more out of `limit`: the labels, and how often it was
applied. -/
def settleIn (limit : Nat) (body : Tensor → Except Failure Tensor) : Nat → Tensor → Except Failure (Tensor × Nat)
  | 0, _ => .error (.nonTermination [] limit)
  | remaining + 1, current => do
    let next ← body current
    if next.equal current then return (current, limit - remaining) else settleIn limit body remaining next

theorem settle_eq (limit : Nat) (body : Tensor → Except Failure Tensor) (remaining : Nat) (x : Tensor) :
    settle limit body remaining x = Prod.fst <$> settleIn limit body remaining x := by
  induction remaining generalizing x with
  | zero => rfl
  | succ remaining ih =>
    rw [settle, settleIn]
    cases body x with
    | error f => rfl
    | ok y =>
      rw [ok_bind, ok_bind]
      cases y.equal x with
      | true => rfl
      | false => exact ih y

/-- An iteration from some labels passes through some labels. -/
inductive Passes (body : Tensor → Except Failure Tensor) : Tensor → Tensor → Prop where
  | here {x : Tensor} : Passes body x x
  | on {x y z : Tensor} : body x = .ok y → y.equal x = false → Passes body y z → Passes body x z

theorem passes_iff {body : Tensor → Except Failure Tensor} {x y z : Tensor} (h : body x = .ok y) :
    Passes body x z ↔ z = x ∨ y.equal x = false ∧ Passes body y z := by
  constructor
  · intro hz
    cases hz with
    | here => exact .inl rfl
    | on hy heq hz =>
      obtain rfl := Except.ok.inj (h.symm.trans hy)
      exact .inr ⟨heq, hz⟩
  · rintro (rfl | ⟨heq, hz⟩)
    · exact .here
    · exact .on h heq hz

/-! ## Convergences of a term -/

/-- A turn of a fixpoint: the value of its body under the labels of its variable, if it has the shape of an assignment. -/
def Term.turn (s : Scene) (scope : Evaluator.Scope) (depth : Nat) (base : Bytes) (width : Nat) (t : Term) :
    Tensor → Except Failure Tensor :=
  s.assigned width fun x => t.value s ((variableKey depth base, x) :: scope)

/-- A term, evaluated in a scope, converges at a fixpoint in it in a number of turns. -/
inductive Converges (s : Scene) : Evaluator.Scope → Term → Term → Nat → Prop where
  | psi {scope : Evaluator.Scope} {name : Bytes} {arg : Argument} {t u : Term} {k : Nat} :
      Converges s scope t u k → Converges s scope (.psi name arg t) u k
  | concat {scope : Evaluator.Scope} {ts : List Term} {t u : Term} {k : Nat} :
      t ∈ ts → Converges s scope t u k → Converges s scope (.concat ts) u k
  | diamond {scope : Evaluator.Scope} {direction : Direction} {phi : Option Bytes} {sigma : Bytes} {t u : Term} {k : Nat} :
      Converges s scope t u k → Converges s scope (.diamond direction phi sigma t) u k
  | inTurn {scope : Evaluator.Scope} {least : Bool} {depth : Nat} {base : Bytes} {t u : Term} {k w : Nat} {x₀ x : Tensor} :
      s.opening least base = .ok (w, x₀) → Passes (t.turn s scope depth base w) x₀ x →
        Converges s ((variableKey depth base, x) :: scope) t u k → Converges s scope (.fix least depth base t) u k
  | settled {scope : Evaluator.Scope} {least : Bool} {depth : Nat} {base : Bytes} {t : Term} {k w : Nat} {x₀ y : Tensor} :
      s.opening least base = .ok (w, x₀) → settleIn (s.limit w) (t.turn s scope depth base w) (s.limit w) x₀ = .ok (y, k) →
        Converges s scope (.fix least depth base t) (.fix least depth base t) k

/-- A report of a convergence of a term in a scope. -/
def Told (s : Scene) (scope : Evaluator.Scope) (t : Term) (ev : Event) : Prop :=
  ∃ least depth base u k, Converges s scope t (.fix least depth base u) k ∧
    ev = .fixpointConverged (Term.fix least depth base u).key least k

section

variable {s : Scene} {scope scope' : Evaluator.Scope}

theorem Term.turn_congr {t : Term} {depth : Nat} {base : Bytes} {least : Bool} (width : Nat)
    (h : ∀ k, (Term.fix least depth base t).Mentions k → scope.lookup k = scope'.lookup k) :
    t.turn s scope depth base width = t.turn s scope' depth base width := by
  unfold Term.turn
  congr 1
  funext x
  refine t.value_congr s fun k hk => ?_
  rw [List.lookup_cons, List.lookup_cons]
  by_cases hkey : k = variableKey depth base
  · simp [hkey]
  · rw [h k ⟨hkey, hk⟩]

/-- The convergences of a term depend on the labels of the variables that it mentions only. -/
theorem Converges.congr {t u : Term} {k : Nat} (h : Converges s scope t u k) :
    ∀ {scope' : Evaluator.Scope}, (∀ k, t.Mentions k → scope.lookup k = scope'.lookup k) → Converges s scope' t u k := by
  induction h with
  | psi _ ih => exact fun hk => .psi (ih hk)
  | @concat _ ts t _ _ ht _ ih =>
    refine fun hk => .concat ht (ih fun k hmention => hk k ?_)
    clear hk ih
    show Term.AnyMentions k ts
    induction ts with
    | nil => cases ht
    | cons t' ts ihts =>
      rcases List.mem_cons.mp ht with rfl | ht
      · exact .inl hmention
      · exact .inr (ihts ht)
  | diamond _ ih => exact fun hk => .diamond (ih hk)
  | inTurn hrow hpass _ ih =>
    intro scope' hk
    rw [Term.turn_congr _ hk] at hpass
    refine .inTurn hrow hpass (ih fun k hmention => ?_)
    rw [List.lookup_cons, List.lookup_cons]
    split
    · rfl
    · rename_i hne
      exact hk k ⟨by simpa using hne, hmention⟩
  | settled hrow hsettle =>
    intro scope' hk
    rw [Term.turn_congr _ hk] at hsettle
    exact .settled hrow hsettle

theorem told_congr {t : Term} (h : ∀ k, t.Mentions k → scope.lookup k = scope'.lookup k) (ev : Event) :
    Told s scope t ev ↔ Told s scope' t ev := by
  constructor
  · rintro ⟨least, depth, base, u, k, hu, rfl⟩
    exact ⟨least, depth, base, u, k, hu.congr h, rfl⟩
  · rintro ⟨least, depth, base, u, k, hu, rfl⟩
    exact ⟨least, depth, base, u, k, hu.congr fun k hk => (h k hk).symm, rfl⟩

theorem told_input (ev : Event) : ¬Told s scope .input ev := by
  rintro ⟨_, _, _, _, _, h, -⟩
  cases h

theorem told_var (depth : Nat) (base : Bytes) (ev : Event) : ¬Told s scope (.var depth base) ev := by
  rintro ⟨_, _, _, _, _, h, -⟩
  cases h

theorem told_psi {name : Bytes} {arg : Argument} {t : Term} {ev : Event} : Told s scope (.psi name arg t) ev ↔ Told s scope t ev := by
  constructor
  · rintro ⟨_, _, _, _, _, h, rfl⟩
    cases h with
    | psi h => exact ⟨_, _, _, _, _, h, rfl⟩
  · rintro ⟨_, _, _, _, _, h, rfl⟩
    exact ⟨_, _, _, _, _, .psi h, rfl⟩

theorem told_concat {ts : List Term} {ev : Event} : Told s scope (.concat ts) ev ↔ ∃ t ∈ ts, Told s scope t ev := by
  constructor
  · rintro ⟨_, _, _, _, _, h, rfl⟩
    cases h with
    | concat ht h => exact ⟨_, ht, _, _, _, _, _, h, rfl⟩
  · rintro ⟨t, ht, _, _, _, _, _, h, rfl⟩
    exact ⟨_, _, _, _, _, .concat ht h, rfl⟩

theorem told_diamond {direction : Direction} {phi : Option Bytes} {sigma : Bytes} {t : Term} {ev : Event} :
    Told s scope (.diamond direction phi sigma t) ev ↔ Told s scope t ev := by
  constructor
  · rintro ⟨_, _, _, _, _, h, rfl⟩
    cases h with
    | diamond h => exact ⟨_, _, _, _, _, h, rfl⟩
  · rintro ⟨_, _, _, _, _, h, rfl⟩
    exact ⟨_, _, _, _, _, .diamond h, rfl⟩

/-- The reports of a fixpoint that has settled: those of its turns, and its own. -/
theorem told_fix {least : Bool} {depth : Nat} {base : Bytes} {t : Term} {w : Nat} {x₀ : Tensor} {p : Tensor × Nat}
    (hrow : s.opening least base = .ok (w, x₀))
    (hsettle : settleIn (s.limit w) (t.turn s scope depth base w) (s.limit w) x₀ = .ok p) {ev : Event} :
    Told s scope (.fix least depth base t) ev ↔
      (∃ x, Passes (t.turn s scope depth base w) x₀ x ∧ Told s ((variableKey depth base, x) :: scope) t ev) ∨
        ev = .fixpointConverged (Term.fix least depth base t).key least p.2 := by
  constructor
  · rintro ⟨_, _, _, _, _, h, rfl⟩
    cases h with
    | inTurn hrow' hpass h =>
      cases Except.ok.inj (hrow.symm.trans hrow')
      exact .inl ⟨_, hpass, _, _, _, _, _, h, rfl⟩
    | settled hrow' hsettle' =>
      cases Except.ok.inj (hrow.symm.trans hrow')
      rw [hsettle] at hsettle'
      obtain rfl := Except.ok.inj hsettle'
      exact .inr rfl
  · rintro (⟨x, hpass, _, _, _, _, _, h, rfl⟩ | rfl)
    · exact ⟨_, _, _, _, _, .inTurn hrow hpass h, rfl⟩
    · exact ⟨_, _, _, _, _, .settled (y := p.1) hrow hsettle, rfl⟩

end

namespace Evaluator

/-! ## Reports of a run -/

/-- A sound run in which the convergences of every term whose labels are kept have been reported. -/
structure Recorded (s : Scene) (es : List Entry) (t : Task) (scope : Scope) (r : Run) : Prop extends Sound s es t scope r where
  toldClosed : ∀ {i v m}, r.closed.lookup i = some v → es[i]? = some m → ∀ scope' ev, Told s scope' m.term ev → ev ∈ r.events
  toldCurrent : ∀ {i v m}, r.current.lookup i = some v → es[i]? = some m → ∀ ev, Told s scope m.term ev → ev ∈ r.events

theorem Recorded.start (s : Scene) (es : List Entry) (t : Task) (scope : Scope) : Recorded s es t scope {} :=
  ⟨.start s es t scope, nofun, nofun⟩

/-- A step that, from a recorded run, makes some reports and leaves a recorded run, if it succeeds. -/
def Tells {α : Type} (s : Scene) (es : List Entry) (t : Task) (scope : Scope) (act : Eval α) (told : Event → Prop) : Prop :=
  ∀ r, Recorded s es t scope r → ∀ a, (act.run r).1 = .ok a →
    Recorded s es t scope (act.run r).2 ∧ ∀ ev, ev ∈ (act.run r).2.events ↔ ev ∈ r.events ∨ told ev

namespace Tells

variable {s : Scene} {es : List Entry} {t : Task} {scope : Scope} {α β : Type} {told told' : Event → Prop}

/-- A step that leaves the run as it is. -/
theorem still {act : Eval α} (h : ∀ r, (act.run r).2 = r) : Tells s es t scope act fun _ => False := by
  intro r hr a _
  rw [h r]
  exact ⟨hr, fun ev => (or_iff_left not_false).symm⟩

theorem pure (a : α) : Tells s es t scope (Pure.pure a) fun _ => False :=
  still fun _ => rfl

theorem lift (x : Except Failure α) : Tells s es t scope (liftM x) fun _ => False :=
  still fun r => congrArg Prod.snd (run_lift x r)

theorem bind {act : Eval α} {f : α → Eval β} (h : Tells s es t scope act told) (hf : ∀ a, Tells s es t scope (f a) told') :
    Tells s es t scope (act >>= f) fun ev => told ev ∨ told' ev := by
  intro r hr b hb
  rw [run_bind] at hb ⊢
  have hact := h r hr
  rcases hrun : act.run r with ⟨a | a, r'⟩
  · rw [hrun] at hb
    cases hb
  · rw [hrun] at hb hact
    obtain ⟨hr', hevents⟩ := hact a rfl
    obtain ⟨hr'', hevents'⟩ := hf a r' hr' b hb
    refine ⟨hr'', fun ev => ?_⟩
    rw [hevents', hevents, or_assoc]

theorem imp {act : Eval α} (h : Tells s es t scope act told) (htold : ∀ ev, told ev ↔ told' ev) : Tells s es t scope act told' := by
  intro r hr a ha
  obtain ⟨hr', hevents⟩ := h r hr a ha
  exact ⟨hr', fun ev => by rw [hevents, htold]⟩

/-- A step before another one that makes no report. -/
theorem before {act : Eval α} {f : α → Eval β} (h : Tells s es t scope act told) (hf : ∀ a, Tells s es t scope (f a) fun _ => False) :
    Tells s es t scope (act >>= f) told :=
  (h.bind hf).imp fun _ => or_iff_left not_false

theorem report (ev : Event) : Tells s es t scope (modify fun r => { r with events := ev :: r.events }) fun ev' => ev' = ev := by
  intro r hr _ _
  rw [run_change]
  refine ⟨⟨⟨hr.live, hr.closed, hr.current⟩, fun hi hm scope' ev' h => ?_, fun hi hm ev' h => ?_⟩, fun ev' => ?_⟩
  · exact List.mem_cons_of_mem _ (hr.toldClosed hi hm scope' ev' h)
  · exact List.mem_cons_of_mem _ (hr.toldCurrent hi hm ev' h)
  · rw [List.mem_cons, or_comm]

/-- A step in an iteration of its own: what is kept until the end is recorded, and what was kept before still is. -/
theorem inIteration {inner : Scope} {act : Eval α} (h : Tells s es t inner act told) :
    Tells s es t scope (Evaluator.inIteration act) told := by
  intro r hr a ha
  have hfresh : Recorded s es t inner { r with current := [] } :=
    ⟨⟨hr.live, hr.closed, fun h => by cases h⟩, hr.toldClosed, fun h => by cases h⟩
  rw [run_inIteration] at ha ⊢
  obtain ⟨hr', hevents⟩ := h _ hfresh a ha
  refine ⟨⟨⟨hr'.live, hr'.closed, hr.current⟩, hr'.toldClosed, fun hi hm ev h => ?_⟩, hevents⟩
  exact (hevents ev).mpr (.inl (hr.toldCurrent hi hm ev h))

/-- The same step for each of some entries. -/
theorem mapM {f : Nat → Eval Tensor} {ms : List Entry} (h : ∀ m ∈ ms, Tells s es t scope (f m.node.id) (Told s scope m.term)) :
    Tells s es t scope ((ms.map Entry.node).map Node.id |>.mapM f) fun ev => ∃ u ∈ ms.map Entry.term, Told s scope u ev := by
  induction ms with
  | nil => exact (Tells.pure []).imp fun ev => ⟨False.elim, fun ⟨_, hu, _⟩ => nomatch hu⟩
  | cons m ms ih =>
    simp only [List.map_cons, List.mapM_cons]
    have hrest := ih fun m' hm' => h m' (List.mem_cons_of_mem _ hm')
    refine ((h m List.mem_cons_self).bind fun x => hrest.before fun xs => Tells.pure _).imp fun ev => ?_
    rw [List.exists_mem_cons_iff]

/-- An iteration that succeeds makes the reports of the turns that it passes through. -/
theorem iterate (key : Bytes) (limit : Nat) {step : Tensor → Eval Tensor} {body : Tensor → Except Failure Tensor}
    {told : Tensor → Event → Prop} (hgives : ∀ x, Gives s es t scope (step x) (body x)) (htells : ∀ x, Tells s es t scope (step x) (told x))
    (remaining : Nat) : ∀ {x : Tensor} {r : Run}, Recorded s es t scope r → ∀ p,
      ((Evaluator.iterate key limit step remaining x).run r).1 = .ok p → settleIn limit body remaining x = .ok p ∧
        Recorded s es t scope ((Evaluator.iterate key limit step remaining x).run r).2 ∧
          ∀ ev, ev ∈ ((Evaluator.iterate key limit step remaining x).run r).2.events ↔
            ev ∈ r.events ∨ ∃ z, Passes body x z ∧ told z ev := by
  induction remaining with
  | zero =>
    intro x r hr p hp
    rw [Evaluator.iterate, run_bind] at hp
    rcases hrun : Evaluator.checkLive.run r with ⟨y | y, r'⟩
    · rw [hrun] at hp
      cases hp
    · rw [hrun] at hp
      cases hp
  | succ remaining ih =>
    intro x r hr p hp
    rw [Evaluator.iterate, run_bind_ok (run_checkLive hr.live), run_bind] at hp ⊢
    have hout := (hgives x r hr.toSound).1
    have hturn := htells x r hr
    rcases hrun : (step x).run r with ⟨y | y, r'⟩
    · rw [hrun] at hp
      cases hp
    · rw [hrun] at hp hout hturn
      dsimp only at hp ⊢
      obtain ⟨hr', hevents⟩ := hturn y rfl
      have hbody : body x = .ok y := outcome_eq_ok.mp hout.symm
      rw [settleIn, hbody, ok_bind]
      cases heq : y.equal x with
      | true =>
        rw [heq, if_pos rfl] at hp
        rw [if_pos rfl, if_pos rfl]
        refine ⟨hp, hr', fun ev => (hevents ev).trans (or_congr_right ?_)⟩
        refine ⟨fun h => ⟨x, .here, h⟩, ?_⟩
        rintro ⟨z, hz, h⟩
        rw [passes_iff hbody, heq] at hz
        obtain rfl := hz.resolve_right fun hz => Bool.noConfusion hz.1
        exact h
      | false =>
        rw [heq, if_neg Bool.false_ne_true] at hp
        rw [if_neg Bool.false_ne_true, if_neg Bool.false_ne_true]
        obtain ⟨hsettle, hr'', hevents'⟩ := ih hr' p hp
        refine ⟨hsettle, hr'', fun ev => ?_⟩
        rw [hevents', hevents, or_assoc]
        refine or_congr_right ?_
        constructor
        · rintro (h | ⟨z, hz, h⟩)
          · exact ⟨x, .here, h⟩
          · exact ⟨z, .on hbody heq hz, h⟩
        · rintro ⟨z, hz, h⟩
          rcases (passes_iff hbody).mp hz with rfl | ⟨-, hz⟩
          · exact .inl h
          · exact .inr ⟨z, hz, h⟩

end Tells

/-! ## Reports of a node -/

section

variable {s : Scene} {es : List Entry} {t : Task} {scope : Scope} {eval : Scope → Nat → Eval Tensor} {m : Entry}

/-- The reports of a fixpoint, given those of its body. -/
theorem fixpoint_tells (h : Plays s es t) {n : Node} {b : Binder} (body : Nat) {depth : Nat} {base : Base} {row : List Label} {u : Term}
    (hbase : s.settings.base? b.base = some base) (hrow : base.init b.least = .ok row) (hinit : b.init = some row)
    (hdtype : b.dtype = base.dtype) (hvar : b.var = variableKey depth b.base) (hkey : n.key = (Term.fix b.least depth b.base u).key)
    (hgives : ∀ scope, Gives s es t scope (eval scope body) (u.value s scope))
    (htells : ∀ scope, Tells s es t scope (eval scope body) (Told s scope u)) :
    Tells s es t scope (fixpoint t eval scope n b body) (Told s scope (.fix b.least depth b.base u)) := by
  intro r hr a ha
  rw [fixpoint, hinit, Option.getD_some, limit_eq h, start_eq h hinit hdtype, run_bind, run_lift] at ha ⊢
  cases hfull : Tensor.full? s.nodes row base.dtype with
  | none =>
    rw [hfull] at ha
    cases ha
  | some x₀ =>
  have hopening : s.opening b.least b.base = .ok (row.length, x₀) := by
    rw [Scene.opening_eq hbase hrow, hfull]
    rfl
  rw [hfull] at ha
  dsimp only [orAborted] at ha ⊢
  rw [run_bind] at ha ⊢
  have hturn : ∀ x, Gives s es t scope (do
      let next ← inIteration (eval ((b.var, x) :: scope) body)
      liftM (checkBody t b row.length next)
      return next) (u.turn s scope depth b.base row.length x) := by
    intro x
    have hvalue : u.value s ((b.var, x) :: scope) = u.value s ((variableKey depth b.base, x) :: scope) := by rw [hvar]
    have hbody := hgives ((b.var, x) :: scope)
    rw [hvalue] at hbody
    show Gives s es t scope _ (s.assigned row.length (fun x => u.value s ((variableKey depth b.base, x) :: scope)) x)
    exact turn_gives h hbody
  have hturns := Tells.iterate n.key (s.limit row.length) hturn
    (fun x => ((htells ((b.var, x) :: scope)).inIteration.before fun next => (Tells.lift _).before fun _ => Tells.pure next))
    (s.limit row.length) (x := x₀) hr
  rcases hrun : (Evaluator.iterate n.key (s.limit row.length) _ (s.limit row.length) _).run r with ⟨y | p, r'⟩
  · rw [hrun] at ha
    cases ha
  · rw [hrun] at hturns
    obtain ⟨hsettle, hr', hevents⟩ := hturns p rfl
    obtain ⟨hr'', hevents'⟩ := Tells.report (.fixpointConverged n.key b.least p.2) r' hr' ⟨⟩ rfl
    refine ⟨hr'', fun ev => ?_⟩
    refine (hevents' ev).trans ?_
    rw [hevents, told_fix hopening hsettle, hkey, hvar, or_assoc]

/-- The reports of a listed node, given those of the nodes that it reads from. -/
theorem compute_tells (h : Plays s es t) (hm : m ∈ es)
    (hgives : ∀ m' ∈ es, m'.node.id ∈ m.node.deps → ∀ scope, Gives s es t scope (eval scope m'.node.id) (m'.term.value s scope))
    (htells : ∀ m' ∈ es, m'.node.id ∈ m.node.deps → ∀ scope, Tells s es t scope (eval scope m'.node.id) (Told s scope m'.term)) :
    Tells s es t scope (compute t eval scope m.node) (Told s scope m.term) := by
  rcases h.ledger.made (h.ledger.getElem?_id hm) with rfl | ⟨n, hmade, hnode⟩
  · rw [compute]
    exact (Tells.pure _).imp fun ev => ⟨False.elim, told_input ev⟩
  have hsub : ∀ {m'}, m' ∈ es.take m.node.id → m' ∈ es := fun hm' => List.mem_of_mem_take hm'
  generalize hid : m.node.id = i at hmade hnode
  rw [hnode]
  rw [hnode] at hgives htells
  generalize m.term = u at hmade
  clear hnode
  cases hmade with
  | @psi m' name arg _ hm' hn =>
    obtain ⟨psi, hpsi, hkind, hin, hop, hbody, _⟩ := atomNode_ok hn
    have hx := htells m' (hsub (hid ▸ hm')) (by simp [Node.deps, hin]) scope
    simp only [compute, hkind, hin, hop]
    refine (hx.before fun x => ?_).imp fun ev => told_psi.symm
    rw [h.calm name arg psi hpsi]
    exact Tells.lift _
  | @concat ms hms =>
    have hx := Tells.mapM (f := eval scope) fun m' hm' => htells m' (hsub (hid ▸ hms m' hm'))
      (by simpa [Node.deps, concatNode] using ⟨m', hm', rfl⟩) scope
    simp only [compute, concatNode]
    exact (hx.before fun parts => Tells.lift _).imp fun ev => told_concat.symm
  | @diamond m' direction phiKey sigmaKey _ hm' _ hn =>
    obtain ⟨phi, sigma, hsigma, hphi, hkind, hin, hop, hdir, hbody, _⟩ := diamondNode_ok hn
    have hx := htells m' (hsub (hid ▸ hm')) (by simp [Node.deps, hin]) scope
    simp only [compute, hkind, hin, hop]
    exact (hx.before fun x => Tells.lift _).imp fun ev => told_diamond.symm
  | @var b depth name hkey hbase =>
    simp only [compute, variableNode, Term.key]
    refine Tells.imp ?_ fun ev => ⟨False.elim, told_var depth b.baseName ev⟩
    cases scope.lookup (variableKey depth b.baseName) with
    | none => exact Tells.still fun _ => rfl
    | some v => exact Tells.pure v
  | @fix b depth least init operand body hop hbody hkey hbase hwidth =>
    simp only [compute, fixpointNode]
    obtain ⟨hsome, hinit⟩ := base?_of_fixpointBase hbase
    have hdep : body.node.id ∈ (fixpointNode b least init operand.node body.node).deps := by simp [Node.deps, fixpointNode]
    exact fixpoint_tells h body.node.id hsome hinit rfl rfl hkey rfl
      (hgives body (hsub (hid ▸ hbody)) hdep) (htells body (hsub (hid ▸ hbody)) hdep)

/-- The labels of a node kept: its convergences have been reported, in whatever scope if it has no free variables. -/
theorem Recorded.keep (h : Plays s es t) {r : Run} (hr : Recorded s es t scope r) (hm : Stands es t m.node.id m) {v : Tensor}
    (hv : m.term.value s scope = .ok v) (htold : ∀ ev, Told s scope m.term ev → ev ∈ r.events) :
    Recorded s es t scope (r.keep m.node v) := by
  have hsound := hr.toSound.keep h hm hv
  have hlookup : ∀ {memo : Memo} {i : Nat} {v' : Tensor}, List.lookup i ((m.node.id, v) :: memo) = some v' →
      i = m.node.id ∨ memo.lookup i = some v' := by
    intro memo i v' hlook
    rw [List.lookup_cons] at hlook
    split at hlook
    · rename_i heq
      exact .inl (beq_iff_eq.mp heq)
    · exact .inr hlook
  rw [Run.keep] at hsound ⊢
  split
  · rename_i hclosed
    rw [if_pos hclosed] at hsound
    refine ⟨hsound, fun hlook hm' scope' ev hev => ?_, hr.toldCurrent⟩
    rcases hlookup hlook with rfl | hlook
    · obtain rfl := Option.some.inj (hm.1.symm.trans hm')
      refine htold ev ((told_congr (fun k hk => ?_) ev).mp hev)
      have hfree := h.ledger.free m (List.mem_of_getElem? hm.1) k hk
      rw [List.isEmpty_iff.mp hclosed] at hfree
      cases hfree
    · exact hr.toldClosed hlook hm' scope' ev hev
  · rename_i hclosed
    rw [if_neg hclosed] at hsound
    refine ⟨hsound, hr.toldClosed, fun hlook hm' ev hev => ?_⟩
    rcases hlookup hlook with rfl | hlook
    · obtain rfl := Option.some.inj (hm.1.symm.trans hm')
      exact htold ev hev
    · exact hr.toldCurrent hlook hm' ev hev

/-- What has been reported of a node whose labels are kept. -/
theorem Recorded.known {r : Run} (hr : Recorded s es t scope r) (hm : Stands es t m.node.id m) {v : Tensor}
    (hv : r.known m.node = some v) (ev : Event) (hev : Told s scope m.term ev) : ev ∈ r.events := by
  rw [Run.known] at hv
  split at hv
  · exact hr.toldClosed hv hm.1 scope ev hev
  · exact hr.toldCurrent hv hm.1 ev hev

end

/-- Evaluating a listed node of a model reports the convergences of its term, unless they have been reported before. -/
theorem eval_tells {s : Scene} {es : List Entry} {t : Task} (h : Plays s es t) (fuel : Nat) :
    ∀ {m : Entry} (scope : Scope), m ∈ es → (∃ n, t.model.node? m.node.id = some n) → t.model.rank m.node.id < fuel →
      Tells s es t scope (eval t fuel scope m.node.id) (Told s scope m.term) := by
  induction fuel with
  | zero => exact fun _ _ _ hlt => absurd hlt (Nat.not_lt_zero _)
  | succ fuel ih =>
    intro m scope hm ⟨n, hn⟩ hrank
    have hid := h.ledger.getElem?_id hm
    obtain rfl : m.node = n := node_eq_of_holds h.holds hid hn
    have hstands : Stands es t m.node.id m := ⟨hid, hn⟩
    have hdeps : ∀ m' ∈ es, m'.node.id ∈ m.node.deps →
        (∃ n', t.model.node? m'.node.id = some n') ∧ t.model.rank m'.node.id < fuel := by
      intro m' _ hdep
      obtain ⟨hn', hlt⟩ := h.holds.deps_rank h.ledger.ordered hn hdep
      exact ⟨hn', by omega⟩
    have hcompute : Tells s es t scope (compute t (eval t fuel) scope m.node) (Told s scope m.term) :=
      compute_tells h hm (fun m' hm' hdep scope' => eval_gives h fuel scope' hm' (hdeps m' hm' hdep).1 (hdeps m' hm' hdep).2)
        fun m' hm' hdep scope' => ih scope' hm' (hdeps m' hm' hdep).1 (hdeps m' hm' hdep).2
    have hvalue : Gives s es t scope (compute t (eval t fuel) scope m.node) (m.term.value s scope) :=
      compute_gives h hm fun m' hm' hdep scope' => eval_gives h fuel scope' hm' (hdeps m' hm' hdep).1 (hdeps m' hm' hdep).2
    intro r hr a ha
    rw [eval, hn] at ha ⊢
    dsimp only at ha ⊢
    rw [run_bind_ok (run_state r)] at ha ⊢
    cases hknown : r.known m.node with
    | some v =>
      rw [hknown] at ha
      dsimp only
      rw [run_return]
      exact ⟨hr, fun ev => (or_iff_left_of_imp (hr.known hstands hknown ev)).symm⟩
    | none =>
      rw [hknown] at ha
      dsimp only at ha ⊢
      rw [run_bind] at ha ⊢
      have hout := (hvalue r hr.toSound).1
      have htells := hcompute r hr
      rcases hrun : (compute t (eval t fuel) scope m.node).run r with ⟨y | y, r'⟩
      · rw [hrun] at ha
        cases ha
      · rw [hrun] at hout htells
        obtain ⟨hr', hevents⟩ := htells y rfl
        dsimp only
        rw [run_bind_ok (run_change _ r'), run_return]
        refine ⟨hr'.keep h hstands (outcome_eq_ok.mp hout.symm) fun ev hev => (hevents ev).mpr (.inr hev), fun ev => ?_⟩
        refine Iff.trans ?_ (hevents ev)
        rw [Run.keep]
        split
        · rfl
        · rfl

end Evaluator

open Evaluator RefinementAux

/-- An evaluation that succeeds reports the convergences of the formula's term, and no others. -/
theorem reported_iff {ops : Registries} {settings : Settings} {c : Compiler} (hc : Reachable ops settings c) (hcalm : ops.Calm)
    {e : Expr} (he : e.Named) {canceled : Bool} {formula : Bytes} {m : Model} (hm : (c.compileAs canceled formula e).result = .ok m)
    {input : Input} {maxIterations : Int} {t : Term} (ht : e.term [] .input = some t) {labels : Tensor}
    (hok : (evaluate maxIterations true m (some input)).result = .ok labels) (key : Bytes) (least : Bool) (k : Nat) :
    .fixpointConverged key least k ∈ (evaluate maxIterations true m (some input)).events ↔
      Told ⟨ops, settings, input, maxIterations⟩ [] t (.fixpointConverged key least k) := by
  obtain ⟨es, hledger, hholds, hspec, out, hout, houtput, hterm, _⟩ := compileAs_holds hc he hm
  obtain rfl : out.term = t := Option.some.inj (hterm.symm.trans ht)
  have hplays : Plays ⟨ops, settings, input, maxIterations⟩ es ⟨m, input, maxIterations⟩ :=
    ⟨hledger, hholds, hspec, rfl, rfl, hcalm⟩
  obtain ⟨n, hn⟩ := hplays.holds.output_some
  have htells := eval_tells hplays (m.nodes.length + 1) [] hout ⟨n, houtput ▸ hn⟩ (Nat.lt_succ_of_le (m.rank_le _)) {}
    (.start _ _ _ _) labels
  rw [← houtput] at htells
  cases hcheck : m.spec.check (some input) with
  | error f =>
    rw [evaluate_refused hcheck] at hok
    cases hok
  | ok input' =>
    obtain ⟨rfl, -⟩ := check_eq_ok.mp hcheck
    rw [evaluate_checked hcheck] at hok ⊢
    obtain ⟨-, hevents⟩ := htells hok
    have hrun : .fixpointConverged key least k ∈ (run ⟨m, input', maxIterations⟩).2.events ↔
        Told ⟨ops, settings, input', maxIterations⟩ [] out.term (.fixpointConverged key least k) :=
      (hevents _).trans (or_iff_right (List.not_mem_nil))
    rw [← hrun, List.mem_cons, List.mem_append, List.mem_singleton, List.mem_reverse]
    constructor
    · rintro (h | h | h)
      · cases h
      · exact h
      · cases h
    · exact fun h => .inr (.inl h)

end ModalGraph
