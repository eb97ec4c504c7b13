import ModalGraph.Proofs.Evaluator.Correspondence
import ModalGraph.Proofs.Evaluator.Fixpoint
import ModalGraph.Proofs.Operator.Complement

/-!
# Duality

The dual of a formula about truth values (`Expr.dual`) exchanges conjunction and disjunction, the constants, the sigma that ask for some
or every message, and least and greatest fixpoints. On the complement of an input it gives the complement of what the formula gives on
the input (`evaluate_dual`). The formula need not be monotone and its fixpoints need not settle: every turn of a fixpoint gives the
complement of what the same turn gives on the other side, and the test that ends an iteration is about equality, which the complement
keeps. So the iterations of both take the same number of turns, or fail to settle alike.
-/

namespace ModalGraph

open Formula Compiler

/-- The dual of a formula about truth values. -/
def Formula.Expr.dual (e : Expr) : Expr :=
  e.translate dualization

/-- The input with the complement of its node labels. -/
def Input.complement (input : Input) : Input :=
  { input with x := input.x.complement }

namespace DualityAux

/-- Truth values, one row for each node, and their complement. -/
structure Complementary (nodes : Int) (x y : Tensor) : Prop where
  rows_eq : x.rows = nodes
  truthful : x.Truthful
  eq : y = x.complement

/-- Terms about truth values, with labels that are complements of each other. -/
def opposite (settings : Settings) (nodes : Int) : Correspondence :=
  ⟨fun t => t.Over (booleanVocabulary settings), fun _ => Complementary nodes, fun _ => Complementary nodes⟩

theorem dualization_suits (settings : Settings) : dualization.Suits (booleanVocabulary settings) Builtin.registries settings where
  toSpells := dualization_spells settings
  psi := by
    intro name arg h
    obtain ⟨op, op', f, f', hop, hop', hwidth, -⟩ := psi_dual h arg
    rw [Builtin.registries_psi, hop]
    show Agree _ _ (Builtin.psi.get (dualPsi name) arg)
    rw [hop']
    exact hwidth
  sigma := by
    intro key h
    obtain ⟨b, hop, hop'⟩ := sigma_dual h
    show Agree _ (Builtin.sigma.resolve key) (Builtin.sigma.resolve (dualSigma key))
    rw [hop, hop']
    cases b with
    | true => exact rfl
    | false => exact rfl
  base := by
    intro name base h hbase least
    obtain ⟨row, hrow⟩ := (h base hbase).starts least
    obtain ⟨row', hrow'⟩ := (h base hbase).starts !least
    show Agree _ (base.init least) (base.init !least)
    rw [hrow, hrow']
    exact trivial

/-- A result and its complement agree. -/
theorem agree_complement {P : Tensor → Prop} {F : Failure → Prop} {x : Except Failure Tensor} (h : EndsIn P F x) :
    Agree (fun a b => P a ∧ b = a.complement) x (Tensor.complement <$> x) := by
  cases x with
  | error f => exact rfl
  | ok a => exact ⟨h, rfl⟩

section

variable {s : Scene} {x : Tensor}

/-- The scene with the complement of the input. -/
def across (s : Scene) : Scene :=
  { s with input := s.input.complement }

@[simp] theorem across_ops (s : Scene) : (across s).ops = s.ops := rfl

@[simp] theorem across_settings (s : Scene) : (across s).settings = s.settings := rfl

@[simp] theorem across_nodes (s : Scene) : (across s).nodes = s.nodes := rfl

@[simp] theorem across_ends (s : Scene) (direction : Direction) : (across s).ends direction = s.ends direction := by
  cases direction <;> rfl

theorem rowPerNode_across (hx : x.Truthful) : Agree (Complementary s.nodes) (s.rowPerNode (some x))
    ((across s).rowPerNode (some x.complement)) := by
  rw [Scene.rowPerNode, Scene.rowPerNode, Tensor.complement_rows, across_nodes]
  by_cases hrows : x.rows = s.nodes
  · rw [if_pos hrows, if_pos hrows]
    exact ⟨hrows, hx, rfl⟩
  · rw [if_neg hrows, if_neg hrows]
    exact rfl

theorem atom_makes {name : Bytes} {arg : Argument} {op : Psi} {f : Tensor → Option Tensor} (hop : s.ops.psi.get name arg = .ok op)
    (hf : op.Makes f) (x : Tensor) : s.atom name arg x = (orAborted (f x) >>= fun y => s.rowPerNode (some y)) := by
  rw [Scene.atom, hop, ok_bind, Input.isBatched]
  cases s.input.index with
  | none =>
    rw [if_neg (by simp), (hf x).1]
    cases f x with
    | none => rfl
    | some y => rfl
  | some index =>
    rw [if_pos (by simp), (hf x).2 index]
    cases f x with
    | none => rfl
    | some y => rfl

theorem atom_across (hops : s.ops = Builtin.registries) {name : Bytes} {arg : Argument}
    (hname : ∃ known ∈ connectives, name = Bytes.ofString known) (hrows : 0 ≤ x.rows) (hx : x.Truthful) :
    Agree (Complementary s.nodes) (s.atom name arg x) ((across s).atom (dualPsi name) arg x.complement) := by
  obtain ⟨op, op', f, f', hop, hop', -, hf, hf', hdual⟩ := psi_dual hname arg
  rw [atom_makes (s := s) (by rw [hops]; exact hop) hf,
    atom_makes (s := across s) (by rw [across_ops, hops]; exact hop') hf', hdual.complement x hrows]
  cases hy : f x with
  | none => exact rfl
  | some y => exact rowPerNode_across (hdual.truthful x hrows hx y hy)

/-- The messages of a diamond that come from one end of the edges. -/
theorem messages_across (hops : s.ops = Builtin.registries) (direction : Direction) {phi : Option Bytes}
    (hphi : ∀ key ∈ phi, (parseKey key).1 = Bytes.ofString "src" ∨ (parseKey key).1 = Bytes.ofString "tgt") (hx : x.Truthful) :
    Agree (fun m m' => m.Truthful ∧ m' = m.complement) (s.messages direction phi x) ((across s).messages direction phi x.complement) := by
  have hgather : ∀ idx, Agree (fun m m' => m.Truthful ∧ m' = m.complement) (x.gather idx) (x.complement.gather idx) := by
    intro idx
    rw [Tensor.gather_complement]
    exact agree_complement (Tensor.truthful_gather hx idx)
  have hcheck : ∀ (edges : Nat) (m : Tensor), m.Truthful → Agree (fun m m' => m.Truthful ∧ m' = m.complement)
      (Scene.messagePerEdge edges (some m)) (Scene.messagePerEdge edges (some m.complement)) := by
    intro edges m hm
    rw [Scene.messagePerEdge, Scene.messagePerEdge, Tensor.complement_rows]
    by_cases hrows : m.rows = edges
    · rw [if_pos hrows, if_pos hrows]
      exact ⟨hm, rfl⟩
    · rw [if_neg hrows, if_neg hrows]
      exact rfl
  rw [Scene.messages, Scene.messages, across_ends]
  refine (hgather _).bind fun origin origin' horigin => ?_
  obtain ⟨horigin, rfl⟩ := horigin
  cases phi with
  | none => exact ⟨horigin, rfl⟩
  | some key =>
    dsimp only
    rw [across_ops, hops]
    rcases hphi key rfl with hkey | hkey
    · have hop : Builtin.registries.phi.resolve key = .ok ⟨fun s _ _ => .ok s, Width.same⟩ := by
        rw [Registry.resolve, hkey]
        rfl
      rw [hop, ok_bind, ok_bind]
      refine (hgather _).bind fun _ _ _ => ?_
      exact hcheck _ _ horigin
    · have hop : Builtin.registries.phi.resolve key = .ok ⟨fun _ _ t => .ok t, Width.same⟩ := by
        rw [Registry.resolve, hkey]
        rfl
      rw [hop, ok_bind, ok_bind]
      refine (hgather _).bind fun goal goal' hgoal => ?_
      obtain ⟨hgoal, rfl⟩ := hgoal
      exact hcheck _ _ hgoal

theorem diamond_across (hops : s.ops = Builtin.registries) (direction : Direction) {phi : Option Bytes}
    (hphi : ∀ key ∈ phi, (parseKey key).1 = Bytes.ofString "src" ∨ (parseKey key).1 = Bytes.ofString "tgt") {sigma : Bytes}
    (hsigma : ∃ known ∈ ["or", "uor", "and"], (parseKey sigma).1 = Bytes.ofString known) (hx : x.Truthful) :
    Agree (Complementary s.nodes) (s.diamond direction phi sigma x) ((across s).diamond direction phi (dualSigma sigma) x.complement) := by
  obtain ⟨b, hop, hop'⟩ := sigma_dual hsigma
  rw [Scene.diamond, Scene.diamond, across_ops, hops, Builtin.registries_sigma, hop, hop', ok_bind, ok_bind]
  refine (messages_across hops direction hphi hx).bind fun m m' hm => ?_
  obtain ⟨-, rfl⟩ := hm
  rw [across_ends, across_nodes, aggregation_complement b m _ _ (some x)]
  have htruthful := truthful_aggregation b m (s.ends direction).2 s.nodes (some x)
  cases hout : (TruthAux.aggregation b).aggregate (some m) (s.ends direction).2 s.nodes (some x) with
  | error f => exact rfl
  | ok out =>
    rw [hout] at htruthful
    obtain ⟨y, rfl, hy⟩ := htruthful
    exact rowPerNode_across hy

/-- The labels that dual fixpoints start from. -/
theorem start_across (hnodes : 0 ≤ s.nodes) {least : Bool} {base : Bytes}
    (hbase : ∀ b, s.settings.base? base = some b → b.Boolean) :
    Agree (fun p p' => p.1 = p'.1 ∧ Complementary s.nodes p.2 p'.2) (s.opening least base) ((across s).opening (!least) base) := by
  cases hb : s.settings.base? base with
  | none =>
    rw [Scene.opening, Scene.opening, across_settings, hb]
    exact rfl
  | some b =>
    obtain ⟨⟨w, htruth⟩, hstarts⟩ := hbase b hb
    obtain ⟨row, hrow⟩ := hstarts least
    obtain ⟨row', hrow'⟩ := hstarts !least
    rw [Scene.opening_eq hb hrow, Scene.opening_eq (s := across s) hb hrow']
    obtain rfl := htruth.init_eq hrow
    obtain rfl := htruth.init_eq hrow'
    have hdual : List.replicate w (Label.ofBool !!least) = (List.replicate w (Label.ofBool !least)).map Label.complement := by
      rw [List.map_replicate, Label.complement_ofBool]
    obtain ⟨n, hn⟩ := Int.eq_ofNat_of_zero_le hnodes
    rw [htruth.dtype_eq, across_nodes, hn, hdual, Tensor.full?_complement _ _ _ fun v _ => Label.complement_cast v, List.length_map]
    cases hfull : Tensor.full? n (List.replicate w (Label.ofBool !least)) .bool with
    | none => exact rfl
    | some x =>
      obtain ⟨rfl, -⟩ := Tensor.full?_some hfull
      exact ⟨rfl, Tensor.full_rows _ _ _, truthStart_isTruth.labels, rfl⟩

end

theorem opposite_upheld {s : Scene} (hops : s.ops = Builtin.registries) (hnodes : 0 ≤ s.nodes) (hx : s.input.x.Truthful) :
    (opposite s.settings s.nodes).Upheld dualization s (across s) where
  parts h := h.parts
  input := ⟨rfl, hx, rfl⟩
  psi := by
    rintro name arg u x y hrel ⟨hrows, htruthful, rfl⟩
    exact atom_across hops hrel.1 (hrows ▸ hnodes) htruthful
  concat := by
    intro us ps _ hps
    have hparts : ∀ p ∈ ps, Complementary s.nodes p.1 p.2 := by
      clear * - hps
      induction hps with
      | nil => exact fun p hp => nomatch hp
      | cons hp _ ih => exact List.forall_mem_cons.mpr ⟨hp, ih⟩
    have hmap : ps.map Prod.snd = (ps.map Prod.fst).map Tensor.complement := by
      rw [List.map_map]
      exact List.map_congr_left fun p hp => (hparts p hp).eq
    have hfst : ∀ x ∈ ps.map Prod.fst, x.rows = s.nodes ∧ x.Truthful := by
      intro x hx
      obtain ⟨p, hp, rfl⟩ := List.mem_map.mp hx
      exact ⟨(hparts p hp).rows_eq, (hparts p hp).truthful⟩
    have hrows : ∀ x ∈ ps.map Prod.fst, 0 ≤ x.rows := fun x hx => (hfst x hx).1 ▸ hnodes
    rw [hmap, Tensor.concat_complement hrows]
    cases ps with
    | nil => exact rfl
    | cons p ps =>
      refine (agree_complement (Tensor.truthful_concat hrows fun x hx => (hfst x hx).2)).imp fun x y hxy => ?_
      obtain ⟨⟨htruthful, hhead⟩, rfl⟩ := hxy
      exact ⟨(hhead p.1 rfl).trans (hfst p.1 List.mem_cons_self).1, htruthful, rfl⟩
  diamond := by
    rintro direction phi sigma u x y hrel ⟨-, htruthful, rfl⟩
    exact diamond_across hops direction hrel.1 hrel.2.1 htruthful
  var h := h
  fix h := h
  start hrel := start_across hnodes hrel.1
  limit _ := rfl
  turn := by
    rintro least depth base u w x₀ x y - - ⟨hrows, htruthful, rfl⟩
    exact ⟨Iff.rfl, fun _ => ⟨hrows, htruthful, rfl⟩⟩
  equal := by
    rintro k x y x' y' ⟨-, hx, rfl⟩ ⟨-, hx', rfl⟩
    exact (Tensor.equal_complement hx' hx).symm

end DualityAux

open DualityAux

/-- A formula about truth values and its dual compile or fail to compile alike. On the complement of an input, the model of the dual
gives the complement of what the model of the formula gives on the input, or fails in the same class of failures; and where they
succeed, every fixpoint and its dual take the same number of turns. -/
theorem evaluate_dual {settings : Settings} {c c' : Compiler} (hc : Reachable Builtin.registries settings c)
    (hc' : Reachable Builtin.registries settings c') {e : Expr} (he : e.Named) (hV : e.Over (booleanVocabulary settings)) :
    ((∃ m, c.Gives e m) ↔ ∃ m', c'.Gives e.dual m') ∧
      ∀ m m', c.Gives e m → c'.Gives e.dual m' → ∀ (maxIterations : Int) (live : Bool) (input : Input), 0 ≤ input.x.rows →
        input.x.Truthful →
          let o := Evaluator.evaluate maxIterations live m (some input)
          let o' := Evaluator.evaluate maxIterations live m' (some input.complement)
          outcome o'.result = outcome (Tensor.complement <$> o.result) ∧
            (o.result.isOk = true →
              (∀ key least k, .fixpointConverged key least k ∈ o.events →
                ∃ ev ∈ o'.events, Event.Carried dualization (.fixpointConverged key least k) ev) ∧
              ∀ key least k, .fixpointConverged key least k ∈ o'.events →
                ∃ ev ∈ o.events, Event.Carried dualization ev (.fixpointConverged key least k)) := by
  have hsuits := dualization_suits settings
  refine ⟨gives_carried hsuits hc hc' he hV, fun m m' hm hm' maxIterations live input hnodes hx => ?_⟩
  have hupheld := opposite_upheld (s := ⟨Builtin.registries, settings, input, maxIterations⟩) rfl hnodes hx
  have hcheck : Agree _ (settings.input.check (some input)) (settings.input.check (some input.complement)) :=
    check_agrees rfl rfl rfl (Agree.refl _)
  have hagrees := evaluate_agrees hsuits Builtin.registries_calm hc hc' he hV hm hm' hcheck (fun _ => hupheld)
    (fun _ _ hover => hover) live
  dsimp only
  constructor
  · have hmap : Agree (fun x y => y = x) (Tensor.complement <$> (Evaluator.evaluate maxIterations live m (some input)).result)
        (id <$> (Evaluator.evaluate maxIterations live m' (some input.complement)).result) := by
      refine hagrees.map fun x y hxy => ?_
      obtain ⟨t, -, -, -, hxy⟩ := hxy
      exact hxy
    rw [id_map] at hmap
    exact (Agree.eq_iff.mp (hmap.imp fun _ _ h => h.symm)).symm
  · intro hok
    obtain ⟨x, hx⟩ := exists_of_isOk hok
    cases live with
    | false => cases hx
    | true =>
      rw [hx] at hagrees
      obtain ⟨x', hx', -⟩ := hagrees.of_ok
      exact reports_carried hsuits Builtin.registries_calm hc hc' he hV hm hm' hupheld (fun _ _ hover => hover) hx hx'

namespace Sample

/-- The nodes that a true node reaches, with the labels of the nodes as they are. -/
def reaching : Expr :=
  .fix ⟨0, 1, 1⟩ true (Bytes.ofString "X") (Bytes.ofString "r")
    (.seq ⟨8, 1, 9⟩
      (.par ⟨9, 1, 10⟩ [.atom ⟨9, 1, 10⟩ (Bytes.ofString "id") none,
        .seq ⟨13, 1, 14⟩ (.var ⟨13, 1, 14⟩ (Bytes.ofString "X")) (.diamond ⟨15, 1, 16⟩ .forward none (Bytes.ofString "or"))])
      (.atom ⟨21, 1, 22⟩ (Bytes.ofString "or") none))

theorem reaching_parsed : parse (Bytes.ofString "mu X,r.((id||X;|>or);or)") = .ok reaching := parse_of_same (by decide +kernel)

theorem reaching_over : reaching.Over (booleanVocabulary settings) := by
  refine ⟨fun b hb => ?_, ⟨⟨"id", by decide, rfl⟩, ⟨trivial, (fun _ h => nomatch h), ⟨"or", by decide, by decide +kernel⟩⟩, trivial⟩,
    ⟨"or", by decide, rfl⟩⟩
  obtain rfl := Option.some.inj (base_bool.symm.trans hb)
  exact ⟨⟨1, Base.bool_isTruth 1⟩, fun least => by cases least with | false => exact ⟨_, rfl⟩ | true => exact ⟨_, rfl⟩⟩

end Sample

/-- With both labels exchanged, the dual of what the sample formula reaches gives false at both nodes, as both are reached. -/
theorem evaluate_dual_sample : 0 ≤ Sample.input.x.rows ∧ Sample.input.x.Truthful ∧
    ∃ m, Sample.compiler.Gives Sample.reaching.dual m ∧
      (Evaluator.evaluate 0 true m (some Sample.input.complement)).result = .ok Sample.labels.complement := by
  have hrows : 0 ≤ Sample.input.x.rows := by decide
  have htruthful : Sample.input.x.Truthful := by
    intro v hv
    rcases List.mem_pair.mp (Array.mem_toList_iff.mpr hv) with rfl | rfl
    · exact .inr rfl
    · exact .inl rfl
  obtain ⟨m, hm, -, hres⟩ := Sample.runs Sample.reaching_parsed Sample.input Sample.labels (by decide +kernel)
  obtain ⟨hgives, hdual⟩ := evaluate_dual Sample.reachable Sample.reachable (parse_wellFormed Sample.reaching_parsed).named
    Sample.reaching_over
  obtain ⟨m', hm'⟩ := hgives.mp ⟨m, hm.gives⟩
  obtain ⟨houtcome, -⟩ := hdual m m' hm.gives hm' 0 true Sample.input hrows htruthful
  refine ⟨hrows, htruthful, m', hm', outcome_eq_ok.mp ?_⟩
  rw [houtcome, hres]
  rfl

end ModalGraph
