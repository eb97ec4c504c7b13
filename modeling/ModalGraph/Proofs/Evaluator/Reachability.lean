import ModalGraph.Proofs.Compiler.Binders
import ModalGraph.Proofs.Evaluator.Correspondence
import ModalGraph.Proofs.Evaluator.Logic

/-!
# Reachability

`mu X,b.((P||(X;|>or));or)` spreads what `P` finds along the edges: a turn of the fixpoint keeps the nodes that `P` finds and adds those
that an edge leads to from a node of the turn before (`Scene.spread`). The least set that a turn brings back to itself consists of the
nodes that a path leads to from a node that `P` finds (`extremal_spread`). There are as many turns as it takes for the set to stop
growing, and one more (`settleIn_shows`).
-/

namespace ModalGraph

open Formula Compiler TranslationAux

/-! ## Paths -/

section

variable {n : Nat}

/-- An edge from one node to another. -/
def Input.Edge (input : Input) (u v : Fin n) : Prop :=
  ∃ k : Nat, input.sources[k]? = some (u : Int) ∧ input.targets[k]? = some (v : Int)

/-- The nodes that a path of any length leads to from a node of a set, or from which a path leads to a node of the set. -/
def Input.reach (input : Input) (S : Set (Fin n)) : Direction → Set (Fin n)
  | .forward => {v | ∃ u ∈ S, Relation.ReflTransGen input.Edge u v}
  | .backward => {v | ∃ u ∈ S, Relation.ReflTransGen input.Edge v u}

/-- An edge carries messages from one node to another. -/
def Scene.Carries (s : Scene) (direction : Direction) (u v : Fin n) : Prop :=
  ∃ k, s.Joins direction k u v

/-- Backward, messages run against the edges. -/
theorem carries_backward (s : Scene) : s.Carries .backward = Function.swap (s.input.Edge : Fin n → Fin n → Prop) := by
  funext u v
  exact propext ⟨fun ⟨k, hu, hv⟩ => ⟨k, hv, hu⟩, fun ⟨k, hv, hu⟩ => ⟨k, hu, hv⟩⟩

/-- Messages can go from edge to edge to exactly the nodes that are reached. -/
theorem mem_reach (s : Scene) (S : Set (Fin n)) (direction : Direction) (v : Fin n) :
    v ∈ s.input.reach S direction ↔ ∃ u ∈ S, Relation.ReflTransGen (s.Carries direction) u v := by
  cases direction with
  | forward => exact Iff.rfl
  | backward =>
    rw [carries_backward]
    exact exists_congr fun u => and_congr Iff.rfl Relation.reflTransGen_swap.symm

/-- The nodes of a set, and those that an edge leads to from a node of a family of one set. -/
def Scene.spread (s : Scene) (direction : Direction) (S : Set (Fin n)) (T : Fin 1 → Set (Fin n)) : Fin 1 → Set (Fin n) :=
  fun _ => S ∪ {v | ∃ u ∈ T 0, s.Carries direction u v}

theorem spread_monotone (s : Scene) (direction : Direction) (S : Set (Fin n)) : Monotone (s.spread direction S) := by
  intro T T' hT _ v hv
  exact hv.imp_right fun ⟨u, hu, hstep⟩ => ⟨u, hT 0 hu, hstep⟩

/-- The least family that spreading brings back to itself is what is reached. -/
theorem extremal_spread (s : Scene) (direction : Direction) (S : Set (Fin n)) :
    extremal true (s.spread direction S) = fun _ => s.input.reach S direction := by
  refine le_antisymm (sInf_le fun _ v hv => ?_) (le_sInf fun T hT j v hv => ?_)
  · rw [mem_reach]
    rcases hv with hv | ⟨u, hu, hstep⟩
    · exact ⟨v, hv, .refl⟩
    · obtain ⟨w, hw, hpath⟩ := (mem_reach s S direction u).mp hu
      exact ⟨w, hw, hpath.tail hstep⟩
  · obtain ⟨u, hu, hpath⟩ := (mem_reach s S direction v).mp hv
    rw [Subsingleton.elim j 0]
    clear hv
    induction hpath with
    | refl => exact hT 0 (.inl hu)
    | tail _ hstep ih => exact hT 0 (.inr ⟨_, ih, hstep⟩)

end

/-! ## The fixpoint -/

/-- The word for a connective, and for the aggregation of messages, that asks for some true label. -/
def orWord : Bytes :=
  Bytes.ofString "or"

namespace Formula.Expr

/-- The body of the fixpoint that spreads what a formula finds. -/
def spreading (v : Bytes) (direction : Direction) (e : Expr) : Expr :=
  .seq Position.none
    (.par Position.none [e, .seq Position.none (.var Position.none v) (.diamond Position.none direction none orWord)])
    (.atom Position.none orWord none)

/-- The fixpoint over a base that spreads what a formula finds along the edges, in a direction. -/
def reaching (v base : Bytes) (direction : Direction) (e : Expr) : Expr :=
  .fix Position.none true v base (e.spreading v direction)

end Formula.Expr

section

variable {n : Nat}

/-- The nodes out of `n` with a label that is not zero. -/
def Tensor.trueNodes (x : Tensor) (n : Nat) : Set (Fin n) :=
  {v | (x.label v 0).isZero = false}

theorem label_of_row {x : Tensor} {a : Label} {v : Nat} (h : x.row v = [a]) : x.label v 0 = a := by
  rw [Tensor.label, h]
  rfl

/-- The true nodes of labels that show one set. -/
theorem Shows.trueNodes {x : Tensor} {S : Set (Fin n)} (h : Shows x [S]) : x.trueNodes n = S := by
  ext v
  obtain ⟨a, ha⟩ := List.length_eq_one_iff.mp (Tensor.length_row h.shaped v.isLt)
  have hmarks := h.rows v
  rw [ha] at hmarks
  rw [Tensor.trueNodes, Set.mem_ofPred_eq, label_of_row ha]
  exact (List.forall₂_cons.mp hmarks).1.2

/-- Of a fixpoint from nothing whose turns show what a monotone function makes of families: the labels that it settles at, and in how
many turns. -/
theorem settleIn_shows {w : Nat} {F : (Fin w → Set (Fin n)) → Fin w → Set (Fin n)} {body : Tensor → Except Failure Tensor}
    (hbody : ∀ A (T : Fin w → Set (Fin n)), Shows A (List.ofFn T) → ∃ out, body A = .ok out ∧ Shows out (List.ofFn (F T)))
    {start : Fin w → Set (Fin n)} {k : Nat} (hbefore : ∀ i < k, F^[i + 1] start ≠ F^[i] start) (hat : F^[k + 1] start = F^[k] start)
    (limit : Nat) : ∀ (remaining i : Nat) (A : Tensor), i ≤ k → k - i < remaining → Shows A (List.ofFn (F^[i] start)) →
      ∃ out, settleIn limit body remaining A = .ok (out, limit - (remaining - (k - i) - 1)) ∧ Shows out (List.ofFn (F^[k] start)) := by
  intro remaining
  induction remaining with
  | zero => exact fun i A _ hlt _ => absurd hlt (Nat.not_lt_zero _)
  | succ remaining ih =>
    intro i A hi hlt hA
    obtain ⟨next, hrun, hnext⟩ := hbody A _ hA
    rw [← Function.iterate_succ_apply' F] at hnext
    have hequal : next.equal A = true ↔ F^[i + 1] start = F^[i] start := by
      rw [LogicAux.Shows.equal_iff hnext hA (by rw [List.length_ofFn, List.length_ofFn]), List.ofFn_inj]
    rw [settleIn, hrun, ok_bind]
    by_cases hik : i = k
    · subst hik
      rw [if_pos (hequal.mpr hat), Nat.sub_self]
      exact ⟨A, rfl, hA⟩
    · have hne := hbefore i (Nat.lt_of_le_of_ne hi hik)
      rw [if_neg fun h => hne (hequal.mp h)]
      obtain ⟨out, hsettle, hout⟩ := ih (i + 1) next (by omega) (by omega) hnext
      refine ⟨out, ?_, hout⟩
      rw [hsettle]
      congr 3
      omega

/-- A diamond shows the nodes that an edge leads to from a node of a set. -/
theorem diamond_carries {s : Scene} (hs : s.Logical n) (hadj : s.settings.input.adjacency = true)
    (hroom : Tensor.Sendable n s.edges 1 1) (direction : Direction) {A : Tensor} {S : Set (Fin n)} (hA : Shows A [S]) :
    ∃ y, s.diamond direction none orWord A = .ok y ∧ Shows y [{v | ∃ u ∈ S, s.Carries direction u v}] := by
  have hagrees := diamond_shows hs.ops_eq hs.nodes_eq (hs.edges hadj) hA hroom (hs.edgeLabels hadj) direction
    (show carried? none = some .origin from rfl) (show asksSome? orWord = some true from rfl)
  rcases hagrees with ⟨y, hy, hshows⟩ | ⟨hmatch, -⟩
  · refine ⟨y, hy, ?_⟩
    have hset : s.diamondSet direction .origin true 0 S = {v | ∃ u ∈ S, s.Carries direction u v} := by
      ext v
      exact ⟨fun ⟨k, u, hjoins, hu⟩ => ⟨u, hu, k, hjoins⟩, fun ⟨u, hu, k, hjoins⟩ => ⟨k, u, hjoins, hu⟩⟩
    rwa [List.mapIdx_cons, List.mapIdx_nil, hset] at hshows
  · exact absurd (fun hphi => by cases hphi) hmatch

/-- Where some label of a node is not zero. -/
theorem atom_or_shows {s : Scene} (hs : s.Logical n) (hstore : n ≤ Tensor.capacity) {x : Tensor} {w : Nat} (hx : x.Shaped n w)
    {ss : Features n}
    (hrows : ∀ v : Fin n, List.Forall₂ (fun a S => a.isZero = false ↔ v ∈ S) (x.row v) ss) :
    ∃ out, s.atom orWord none x = .ok out ∧ Shows out [{v | ∃ S ∈ ss, v ∈ S}] := by
  have hout := disjunction_shows hx hrows
  have hget : s.ops.psi.get orWord none = .ok Connective.any.psi := by
    rw [hs.ops_eq]
    exact get_connective rfl
  refine ⟨_, ?_, hout⟩
  rw [Scene.atom, hget]
  show ((if s.input.isBatched then Connective.any.psi.multiple (some x) s.input.index else Connective.any.psi.single (some x)) >>=
    s.rowPerNode) = _
  rw [show Connective.any.psi = Psi.stored _ _ from rfl, stored_run s _ (Tensor.reduceRows?_eq hx hstore _ _)]
  show s.rowPerNode (some _) = _
  rw [Scene.rowPerNode, if_pos (hout.shaped.rows_eq.trans hs.nodes_eq.symm)]

/-- A column of labels and a column that shows a set, side by side, as one set of true nodes. -/
theorem or_shows {s : Scene} (hs : s.Logical n) (hstore : Tensor.Storable n 2) {p y : Tensor} (hp : p.Shaped n 1) {S : Set (Fin n)}
    (hy : Shows y [S]) : ∃ out, (Tensor.concat [p, y] >>= s.atom orWord none) = .ok out ∧ Shows out [p.trueNodes n ∪ S] := by
  have hshaped : ∀ x ∈ [p, y], ∃ w, x.Shaped n w := by
    intro x hx
    rcases List.mem_pair.mp hx with rfl | rfl
    · exact ⟨1, hp⟩
    · exact ⟨_, hy.shaped⟩
  have htotal : Tensor.totalWidth [p, y] = 2 := by
    simp [Tensor.totalWidth, hp.cols_eq, hy.shaped.cols_eq]
  have hconcat := Tensor.concat_eq hshaped (by rw [htotal]; exact hstore) (by rw [htotal]; decide)
  have hlen : ∀ i < n, ([p, y].map fun u => u.row i).flatten.length = 2 := by
    intro i hi
    simp [Tensor.length_row hp hi, Tensor.length_row hy.shaped hi]
  rw [htotal] at hconcat
  have hrows : ∀ v : Fin n, List.Forall₂ (fun a S => a.isZero = false ↔ v ∈ S)
      ((Tensor.ofRows (2 : Nat) (p.dtype.join [y.dtype]) ((List.range n).map fun i => ([p, y].map fun u => u.row i).flatten)).row v)
      [p.trueNodes n, S] := by
    intro v
    rw [Tensor.row_ofRows_range hlen v.isLt]
    obtain ⟨a, ha⟩ := List.length_eq_one_iff.mp (Tensor.length_row hp v.isLt)
    obtain ⟨b, hb⟩ := List.length_eq_one_iff.mp (Tensor.length_row hy.shaped v.isLt)
    have hmarks := hy.rows v
    rw [hb] at hmarks
    rw [List.map_cons, List.map_cons, List.map_nil, ha, hb]
    refine .cons ?_ (.cons (List.forall₂_cons.mp hmarks).1.2 .nil)
    rw [Tensor.trueNodes, Set.mem_ofPred_eq, label_of_row ha]
  have hone : n ≤ Tensor.capacity := Nat.le_trans (Nat.le_mul_of_pos_right n (by decide)) hstore
  obtain ⟨out, hout, hshows⟩ := atom_or_shows hs hone (Tensor.ofRows_range_shaped hlen) hrows
  refine ⟨out, by rw [hconcat]; exact hout, ?_⟩
  rwa [show {v | ∃ S' ∈ [p.trueNodes n, S], v ∈ S'} = p.trueNodes n ∪ S from Set.ext fun v => by simp] at hshows

/-- A turn of the fixpoint on labels that show a family: what the body makes of them shows what is spread. -/
theorem spreading_shows {s : Scene} (hs : s.Logical n) (hadj : s.settings.input.adjacency = true)
    (hstore : Tensor.Storable (max n s.edges) 2) (v : Bytes) (direction : Direction) {e : Expr} (he : e.WellFormed []) {p : Tensor}
    (hp : meaning s [] (.ok s.input.x) e = .ok p) (hshape : p.Shaped n 1) {A : Tensor} {T : Fin 1 → Set (Fin n)}
    (hA : Shows A (List.ofFn T)) : ∃ out, s.assigned 1 (fun A => meaning s [(v, A)] (.ok s.input.x) (e.spreading v direction)) A = .ok out ∧
      Shows out (List.ofFn (s.spread direction (p.trueNodes n) T)) := by
  have hone : Tensor.Storable (max n s.edges) 1 := hstore.narrow (by decide)
  have hnodes : Tensor.Storable n 1 := hone.mono (Nat.le_max_left _ _)
  have hroom : Tensor.Sendable n s.edges 1 1 := ⟨hnodes, hone.mono (Nat.le_max_right _ _), hnodes, hnodes.places (by decide)⟩
  have hbelow : meaning s [(v, A)] (.ok s.input.x) e = .ok p := by
    rw [← hp]
    exact meaning_below s e _ fun x hx => absurd (he.mem_of_free hx) List.not_mem_nil
  obtain ⟨y, hy, hyshows⟩ := diamond_carries hs hadj hroom direction (S := T 0) (by rwa [List.ofFn_succ, List.ofFn_zero] at hA)
  obtain ⟨out, hout, hshows⟩ := or_shows hs (hstore.mono (Nat.le_max_left _ _)) hshape hyshows
  have hbody : meaning s [(v, A)] (.ok s.input.x) (e.spreading v direction) = .ok out := by
    simp only [Expr.spreading, meaning, meanings, hbelow, List.lookup_cons_self, hy, ok_bind]
    exact hout
  refine ⟨out, ?_, ?_⟩
  · rw [Scene.assigned, hbody, ok_bind, hshows.shaped.rows_eq, hshows.shaped.cols_eq, hs.nodes_eq]
    exact if_pos ⟨rfl, rfl⟩
  · rw [List.ofFn_succ, List.ofFn_zero]
    exact hshows

end

/-! ## Compiling the fixpoint -/

section

variable {settings : Settings} {v base : Bytes}

/-- Truth values of width one start from zero. -/
theorem init_bool_one : (Base.bool 1).init true = .ok [Label.zero] :=
  rfl

theorem psi_or : Builtin.registries.psi.get orWord none = .ok Connective.any.psi :=
  get_connective rfl

theorem sigma_or : Builtin.registries.sigma.resolve orWord = .ok (TruthAux.aggregation true) :=
  TruthAux.resolve_asksSome rfl

/-- What asks for some true label is as wide as truth values of width one, as far as its width is known. -/
theorem fitsBase_or (b : Binding) (hb : b.base = Base.bool 1) (t : Term) :
    fitsBase b ((Term.psi orWord none t).width Builtin.registries settings) = .ok () := by
  have hwidth : (Term.psi orWord none t).width Builtin.registries settings =
      Width.result (Width.fixed 1) (t.width Builtin.registries settings) := by
    rw [Term.width, psi_or]
    rfl
  rw [fitsBase, hwidth, Width.result, hb]
  split
  · rw [if_neg (by simp)]
  · rw [if_neg (by simp [Width.fixed, Base.bool])]

/-- The fixpoint is planned to succeed if the formula is. -/
theorem reaching_plan (hadj : settings.input.adjacency = true) (hbase : settings.base? base = some (Base.bool 1)) (direction : Direction)
    {e : Expr} (he : e.WellFormed []) {t : Term} (ht : (e.plan Builtin.registries settings [] .input).result = .ok t) :
    ∃ u, ((e.reaching v base direction).plan Builtin.registries settings [] .input).result = .ok (.fix true 0 base u) := by
  have hbelow : Agree (Term.AsWide Builtin.registries settings) (e.plan Builtin.registries settings [] .input).result
      (e.plan Builtin.registries settings [(v, base)] .input).result :=
    plan_below e rfl fun x hx => absurd (he.mem_of_free hx) List.not_mem_nil
  rw [ht] at hbelow
  obtain ⟨t', ht', -⟩ := hbelow.of_ok
  have hstart : (fresh Builtin.registries settings).fixpointBase true base = .ok (Base.bool 1, [Label.zero]) := by
    rw [fixpointBase, show (fresh Builtin.registries settings).settings = settings from rfl, hbase]
    rfl
  have hvar : Expr.boundTerm [(v, base)] v = some (.var 0 base) := by
    rw [Expr.boundTerm, if_pos (beq_self_eq_true v)]
    rfl
  have hdiamond : ((Expr.diamond Position.none direction none orWord).plan Builtin.registries settings [(v, base)] (.var 0 base)).result =
      .ok (.diamond direction none orWord (.var 0 base)) := by
    rw [Expr.plan, hadj, sigma_or]
    rfl
  have hspread : ((Expr.seq Position.none (.var Position.none v) (.diamond Position.none direction none orWord)).plan Builtin.registries
      settings [(v, base)] .input).result = .ok (.diamond direction none orWord (.var 0 base)) := by
    rw [Expr.plan, result_bind_eq, Expr.plan, hvar]
    exact hdiamond
  have hparts : (Expr.plans Builtin.registries settings [(v, base)] .input [e, .seq Position.none (.var Position.none v)
      (.diamond Position.none direction none orWord)]).result = .ok [t', .diamond direction none orWord (.var 0 base)] := by
    rw [Expr.plans, result_bind_eq, ht', ok_bind, result_bind_eq, Expr.plans, result_bind_eq, hspread]
    rfl
  have hbody : ((e.spreading v direction).plan Builtin.registries settings [(v, base)] .input).result =
      .ok (.psi orWord none (.concat [t', .diamond direction none orWord (.var 0 base)])) := by
    rw [Expr.spreading, Expr.plan, result_bind_eq, Expr.plan, if_neg (by simp), result_bind_eq, hparts, ok_bind, Plan.visit, ok_bind,
      Expr.plan, psi_or]
    rfl
  refine ⟨.psi orWord none (.concat [t', .diamond direction none orWord (.var 0 base)]), ?_⟩
  rw [Expr.reaching, Expr.plan, result_bind_eq, Plan.ofResult, hstart, ok_bind, result_bind_eq, hbody, ok_bind, result_bind_eq,
    Plan.ofResult, fitsBase_or _ rfl]
  rfl

theorem orWord_clean : CleanName orWord none :=
  clean_of_check (by decide +kernel) nofun

/-- Text can spell the fixpoint, if its variable is a name that the formula does not use. -/
theorem reaching_wellFormed (hv : CleanName v none) (hvor : v ≠ orWord) (hname : IsName base) {e : Expr} (he : e.WellFormed [])
    (hfresh : v ∉ e.identifiers) (direction : Direction) : (e.reaching v base direction).WellFormed [] := by
  have hbelow : e.WellFormed [v] := he.below (fun _ hx => absurd hx List.not_mem_nil) fun x hx hmem =>
    absurd (List.mem_singleton.mp hmem ▸ hx) hfresh
  have hdiamond : (Expr.diamond Position.none direction none orWord).WellFormed [v] := ⟨nofun, orWord, none, orWord_clean, rfl⟩
  exact ⟨hv, hname, ⟨Nat.le_refl 2, hbelow, ⟨List.mem_singleton_self v, hdiamond⟩, trivial⟩, orWord_clean,
    fun _ hmem => hvor (List.mem_singleton.mp hmem).symm⟩

end

section

variable {ops : Registries} {settings : Settings} {c : Compiler} {e : Expr} {m : Model}

/-- Text that parses as a formula that is planned to succeed compiles. -/
theorem exists_compile (hc : Reachable ops settings c) {src : Bytes} (hparse : parse src = .ok e) {t : Term}
    (ht : (e.plan ops settings [] .input).result = .ok t) : ∃ m, (c.compile false src).result = .ok m := by
  obtain ⟨es, hlist⟩ := hc.listed
  obtain ⟨es', -, -, hmatch⟩ := hlist.compileAs (parse_wellFormed hparse).named false src
  rw [show (e.callPlan ops settings false).result = .ok t from ht] at hmatch
  obtain ⟨m, hm, -⟩ := hmatch.symm.of_ok
  refine ⟨m, ?_⟩
  rw [Compiler.compile, hparse]
  exact hm

/-- The output of a model that is given is the node of the formula's term. -/
theorem gives_output (hc : Reachable ops settings c) (he : e.Named) (hm : c.Gives e m) {t : Term} (ht : e.term [] .input = some t) :
    ∃ node, m.node? m.output = some node ∧ node.key = t.key := by
  obtain ⟨e', t', he', ⟨canceled, formula, hm⟩, hplan', hplan⟩ := hm.planned hc he
  obtain rfl : t' = t := Option.some.inj ((plan_ok e hplan).1.symm.trans ht)
  obtain ⟨es, hledger, hholds, -, out, hout, houtput, hterm, -⟩ := RefinementAux.compileAs_holds hc he' hm
  obtain rfl : out.term = t' := Option.some.inj (hterm.symm.trans (plan_ok e' hplan').1)
  obtain ⟨node, hnode⟩ := hholds.output_some
  refine ⟨node, hnode, ?_⟩
  obtain rfl := node_eq_of_holds hholds (houtput ▸ hledger.getElem?_id hout) hnode
  exact (hledger.key out hout).1

/-- A model that is given evaluates to the meaning of its formula, up to the words of a failure. -/
theorem gives_outcome (hc : Reachable ops settings c) (hcalm : ops.Calm) (he : e.Named) (hm : c.Gives e m) {input : Input}
    (hinput : m.spec.check (some input) = .ok input) (maxIterations : Int) :
    outcome (Evaluator.evaluate maxIterations true m (some input)).result =
      outcome (meaning ⟨ops, settings, input, maxIterations⟩ [] (.ok input.x) e) := by
  obtain ⟨t, ht⟩ := (gives_iff_planned hc he).mp ⟨m, hm⟩
  have hbelow : Term.Below .input [] := fun k hk => hk.elim
  rw [evaluate_value hc hcalm he hm (plan_ok e ht).1 hinput maxIterations]
  exact congrArg outcome (value_term ⟨ops, settings, input, maxIterations⟩ e hbelow (plan_ok e ht).1).2

end

/-! ## Evaluating the fixpoint -/

/-- Under the default limit, the term of the fixpoint has labels that show what is reached, and settles at them in as many turns as
there are nodes, and one more, or sooner. -/
theorem reaching_settles {s : Scene} {n : Nat} (hs : s.Logical n) (hadj : s.settings.input.adjacency = true) {v base : Bytes}
    (hroom : Tensor.Storable (max n s.edges) 2) {e : Expr} (he : e.WellFormed []) {p : Tensor}
    (hp : meaning s [] (.ok s.input.x) e = .ok p) (hshape : p.Shaped n 1) (direction : Direction) {u : Term}
    (hu : (e.spreading v direction).term [(v, base)] .input = some u) :
    ∃ out, ∃ k ≤ n + 1, settleIn (s.limit 1) (u.turn s [] 0 base 1) (s.limit 1) (truthStart n 1 true) = .ok (out, k) ∧
      Shows out [s.input.reach (p.trueNodes n) direction] := by
  have hturn : u.turn s [] 0 base 1 = s.assigned 1 fun A => meaning s [(v, A)] (.ok s.input.x) (e.spreading v direction) := by
    unfold Term.turn
    congr 1
    funext A
    have hbelow : Term.Below .input [⟨v, base, A⟩] := fun k hk => hk.elim
    exact (value_term s (e.spreading v direction) hbelow hu).2
  have hlimit : n * 1 < s.limit 1 := by
    have hdefault := hs.limit
    have hstore : Tensor.Storable n 1 := (hroom.narrow (by decide)).mono (Nat.le_max_left _ _)
    rw [Scene.limit, if_neg (by omega), hs.nodes_eq, Tensor.word_succ hstore]
    exact Nat.lt_of_lt_of_le (Nat.lt_succ_self _) (Nat.le_max_right _ _)
  have hmono := spread_monotone s direction (p.trueNodes n)
  obtain ⟨k, hk, hbefore, hat⟩ := LogicAux.exists_still hmono true
  obtain ⟨out, hsettle, hout⟩ := settleIn_shows (fun A T hA => spreading_shows hs hadj hroom v direction he hp hshape hA) hbefore hat
    (s.limit 1) (s.limit 1) 0 _ (Nat.zero_le k) (by omega) (LogicAux.truthStart_shows 1 true)
  refine ⟨out, _, ?_, by rw [hturn]; exact hsettle, ?_⟩
  · omega
  · rw [LogicAux.iterate_eq_extremal hmono hat, extremal_spread, List.ofFn_succ, List.ofFn_zero] at hout
    exact hout

open Evaluator in
/-- With builtin operators and the default limit, on every graph: take a closed formula that an evaluation gives one column of labels,
a variable that it does not use, and a base of truth values of width one. Then the text of the fixpoint that spreads what the formula
finds compiles, whatever was compiled before, and every model of it evaluates to truth values that are true exactly at the nodes that a
path leads to from a node where the formula is true (or, with the diamond the other way, from which a path leads to such a node). The
fixpoint reports as many turns as there are nodes, and one more, or fewer. -/
theorem evaluate_reaching {s : Scene} (hops : s.ops = Builtin.registries) (hdefault : s.maxIterations ≤ 0)
    (hadj : s.settings.input.adjacency = true) {v base : Bytes} (hbase : s.settings.base? base = some (Base.bool 1)) (hname : IsName base)
    (hv : CleanName v none) (hvor : v ≠ orWord) {e : Expr} (he : e.WellFormed []) (hfresh : v ∉ e.identifiers) {c c' : Compiler}
    (hc : Reachable s.ops s.settings c) (hc' : Reachable s.ops s.settings c') {m : Model} (hm : c.Gives e m)
    (hinput : m.spec.check (some s.input) = .ok s.input) {p : Tensor}
    (hp : (evaluate s.maxIterations true m (some s.input)).result = .ok p) {n w : Nat} (hx : s.input.x.Shaped n w)
    (hedges : ∀ t ∈ s.input.e, t.WellFormed) (hshape : p.Shaped n 1) (hroom : Tensor.Storable (max n s.edges) 2)
    (direction : Direction) :
    (∃ m', (c'.compile false (e.reaching v base direction).key).result = .ok m' ∧ c'.Gives (e.reaching v base direction) m') ∧
      ∀ m', c'.Gives (e.reaching v base direction) m' → ∃ out node k,
        (evaluate s.maxIterations true m' (some s.input)).result = .ok out ∧ out.IsTruth n 1 ∧
          out.trueNodes n = s.input.reach (p.trueNodes n) direction ∧ m'.node? m'.output = some node ∧
          .fixpointConverged node.key true k ∈ (evaluate s.maxIterations true m' (some s.input)).events ∧ k ≤ n + 1 := by
  obtain ⟨ops, settings, input, maxIterations⟩ := s
  obtain rfl : ops = Builtin.registries := hops
  have hcalm := Builtin.registries_calm
  have hwf := reaching_wellFormed hv hvor hname he hfresh direction
  have hspec := gives_spec hc he.named hm
  obtain ⟨t, ht⟩ := (gives_iff_planned hc he.named).mp ⟨m, hm⟩
  obtain ⟨u, hplan⟩ := reaching_plan hadj hbase direction (v := v) he ht
  refine ⟨?_, fun m' hm' => ?_⟩
  · obtain ⟨e', hparse, hplaces⟩ := hwf.parse_key
    have hagree : Agree Eq ((e.reaching v base direction).plan Builtin.registries settings [] .input).result
        (e'.plan Builtin.registries settings [] .input).result := plan_eq_of_unplaced hplaces.symm
    rw [hplan] at hagree
    obtain ⟨t', ht', -⟩ := hagree.of_ok
    obtain ⟨m', hm'⟩ := exists_compile hc' hparse ht'
    exact ⟨m', hm', .text hparse hplaces hm'⟩
  · have hs := logical_of_admits (s := ⟨Builtin.registries, settings, input, maxIterations⟩) rfl (hspec ▸ (check_eq_ok.mp hinput).2) hx
      hedges hdefault
    have hmeaning : meaning ⟨Builtin.registries, settings, input, maxIterations⟩ [] (.ok input.x) e = .ok p := by
      rw [← outcome_eq_ok, ← gives_outcome hc hcalm he.named hm hinput, outcome_eq_ok]
      exact hp
    have hterm := (plan_ok _ hplan).1
    have hu : (e.spreading v direction).term [(v, base)] .input = some u := by
      rw [Expr.reaching, Expr.term, Option.bind_eq_bind, Option.bind_eq_some_iff] at hterm
      obtain ⟨u', hu', heq⟩ := hterm
      obtain ⟨-, -, -, rfl⟩ := Term.fix.inj (Option.some.inj heq)
      exact hu'
    obtain ⟨out, k, hk, hsettle, hout⟩ := reaching_settles hs hadj hroom he hmeaning hshape direction hu
    have hstart : Tensor.full? (Scene.nodes ⟨Builtin.registries, settings, input, maxIterations⟩) [Label.zero] (Base.bool 1).dtype =
        some (truthStart n 1 true) := by
      rw [hs.nodes_eq]
      exact Tensor.full?_eq ((hroom.narrow (by decide)).mono (Nat.le_max_left _ _))
    have hopening : Scene.opening ⟨Builtin.registries, settings, input, maxIterations⟩ true base = .ok (1, truthStart n 1 true) := by
      rw [Scene.opening_eq hbase init_bool_one, hstart]
      rfl
    have hvalue : (Term.fix true 0 base u).value ⟨Builtin.registries, settings, input, maxIterations⟩ [] = .ok out := by
      rw [Term.value, Scene.fixpoint_eq_settle hbase init_bool_one hstart, settle_eq]
      exact congrArg (Prod.fst <$> ·) hsettle
    have hinput' : m'.spec.check (some input) = .ok input := by
      rw [gives_spec hc' hwf.named hm', ← hspec]
      exact hinput
    have hok : (evaluate maxIterations true m' (some input)).result = .ok out := by
      rw [← outcome_eq_ok, evaluate_value hc' hcalm hwf.named hm' hterm hinput', hvalue]
      rfl
    obtain ⟨node, hnode, hkey⟩ := gives_output hc' hwf.named hm' hterm
    refine ⟨out, node, k, hok, hout.isTruth, hout.trueNodes, hnode, ?_, hk⟩
    rw [hkey]
    exact (reported_iff_of_gives hc' hcalm hwf.named hm' hterm hok _ true k).mpr ⟨true, 0, base, u, k, .settled hopening hsettle, rfl⟩

namespace Sample

/-- The formula that finds the nodes with an odd label. -/
def odd : Bytes :=
  Bytes.ofString "a"

/-- The formula, parsed. -/
def oddExpr : Expr :=
  .atom ⟨0, 1, 1⟩ odd none

theorem odd_parsed : parse odd = .ok oddExpr := parse_of_same (by decide +kernel)

/-- The model of the formula. -/
def oddModel : Model :=
  (compiler.compile false odd).result.toOption.get (by decide +kernel)

theorem odd_gives : compiler.Gives oddExpr oddModel :=
  .text odd_parsed rfl (ok_of_toOption (Option.some_get _).symm)

/-- The formula is true at the first node of the sample input. -/
theorem odd_labels : (Evaluator.evaluate 0 true oddModel (some input)).result = .ok input.x :=
  ok_of_toOption (by decide +kernel)

end Sample

/-- On the sample input a path leads to a node from the first node exactly if the fixpoint is true there, and the fixpoint takes three
turns at most. -/
theorem evaluate_reaching_sample : ∃ m' out node k,
    (Sample.compiler.compile false (Bytes.ofString "mu X,r.((a||(X;|>or));or)")).result = .ok m' ∧
      (Evaluator.evaluate 0 true m' (some Sample.input)).result = .ok out ∧
        out.trueNodes 2 = Sample.input.reach (Sample.input.x.trueNodes 2) .forward ∧ m'.node? m'.output = some node ∧
          .fixpointConverged node.key true k ∈ (Evaluator.evaluate 0 true m' (some Sample.input)).events ∧ k ≤ 3 := by
  have hr : CleanName (Bytes.ofString "r") none := clean_of_check (by decide +kernel) nofun
  have hX : CleanName (Bytes.ofString "X") none := clean_of_check (by decide +kernel) nofun
  have hinput : Sample.oddModel.spec.check (some Sample.input) = .ok Sample.input := check_of_isOk (by decide +kernel)
  have hshape : Sample.input.x.Shaped 2 1 := ⟨rfl, rfl, rfl⟩
  obtain ⟨⟨m', hm', hgives⟩, hall⟩ := evaluate_reaching (s := Sample.scene) rfl (le_refl 0) rfl Sample.base_bool ⟨_, none, hr, rfl⟩ hX
    (by decide +kernel) (parse_wellFormed Sample.odd_parsed) (by decide +kernel) Sample.reachable Sample.reachable Sample.odd_gives hinput
    Sample.odd_labels hshape nofun hshape (by decide) .forward
  obtain ⟨out, node, k, hout, -, htrue, hnode, hevent, hk⟩ := hall m' hgives
  exact ⟨m', out, node, k, hm', hout, htrue, hnode, hevent, hk⟩

end ModalGraph
