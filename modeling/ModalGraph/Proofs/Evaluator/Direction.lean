import ModalGraph.Proofs.Evaluator.Correspondence

/-!
# The direction of edges

Messages that go back along the edges of a graph go along the edges of the graph whose edges are reversed. So a formula in which every
diamond is turned round (`Expr.flip`) gives on the reversed graph what the formula gives on the graph itself (`evaluate_flip`),
whatever the operators are. In one step of message passing the labels at the two ends of an edge, the edge labels and the places where
messages are gathered are the same for both, so the two evaluations go through equal labels.
-/

namespace ModalGraph

open Formula Compiler

/-- The other way along the edges. -/
def Formula.Direction.opposite : Direction → Direction
  | .forward => .backward
  | .backward => .forward

/-- The formula with every diamond turned round. -/
def Formula.Expr.flip (e : Expr) : Expr :=
  e.translate { direction := Direction.opposite }

/-- The input with every edge reversed. -/
def Input.reversed (input : Input) : Input :=
  { input with sources := input.targets, targets := input.sources }

namespace DirectionAux

/-- Turning diamonds round. -/
def around : Translation :=
  { direction := Direction.opposite }

/-- Every operator and every base. -/
def anything : Vocabulary :=
  ⟨fun _ _ => True, fun _ => True, fun _ => True, fun _ => True⟩

mutual

theorem over_anything : ∀ e : Expr, e.Over anything
  | .atom .. => trivial
  | .seq _ left right => ⟨over_anything left, over_anything right⟩
  | .par _ children => allOver_anything children
  | .diamond .. => ⟨trivial, trivial⟩
  | .fix _ _ _ _ body => ⟨trivial, over_anything body⟩
  | .var .. => trivial
  | .hole => trivial

theorem allOver_anything : ∀ es : List Expr, Expr.AllOver anything es
  | [] => trivial
  | e :: es => ⟨over_anything e, allOver_anything es⟩

end

/-! ## Reversed inputs -/

theorem joined_reversed {input : Input} {nodes : Int} : input.Joined nodes ↔ input.reversed.Joined nodes :=
  ⟨fun h => ⟨h.length_eq.symm, h.targets, h.sources⟩, fun h => ⟨h.length_eq.symm, h.targets, h.sources⟩⟩

/-- An input is checked with the same outcome as the input reversed. -/
theorem check_reversed (spec : InputSpec) (input : Input) :
    Agree (fun _ _ => True) (spec.check (some input)) (spec.check (some input.reversed)) := by
  refine check_agrees rfl rfl rfl (checkEdges_agrees ⟨Eq.symm, Eq.symm⟩ joined_reversed fun hlen => ?_)
  rw [InputSpec.checkEdgeLabels, InputSpec.checkEdgeLabels, show input.reversed.sources = input.targets from rfl, hlen]
  rfl

/-! ## Scenes side by side -/

/-- Equal labels of a term in two scenes. -/
def same : Correspondence :=
  ⟨fun _ => True, fun _ x y => y = x, fun _ x y => y = x⟩

/-- One step of message passing the other way along reversed edges. -/
theorem diamond_reversed (s : Scene) (direction : Direction) (phi : Option Bytes) (sigma : Bytes) (x : Tensor) :
    Scene.diamond { s with input := s.input.reversed } direction.opposite phi sigma x = s.diamond direction phi sigma x := by
  cases direction with
  | forward => rfl
  | backward => rfl

theorem same_upheld (s : Scene) : same.Upheld around s { s with input := s.input.reversed } where
  parts _ _ _ := trivial
  input := rfl
  psi := by
    rintro name arg u x y - rfl
    exact (Agree.refl _).imp fun _ _ h => h.symm
  concat := by
    intro us ps _ hps
    have hmap : ps.map Prod.snd = ps.map Prod.fst := by
      clear * - hps
      induction hps with
      | nil => rfl
      | cons hp _ ih => rw [List.map_cons, List.map_cons, ih, show _ = _ from hp]
    rw [hmap]
    exact (Agree.refl _).imp fun _ _ h => h.symm
  diamond := by
    rintro direction phi sigma u x y - rfl
    rw [show around.direction direction = direction.opposite from rfl, diamond_reversed]
    exact (Agree.refl _).imp fun _ _ h => h.symm
  var h := h
  fix h := h
  start _ := (Agree.refl _).imp fun p p' h => by subst h; exact ⟨rfl, rfl⟩
  limit _ := rfl
  turn := by
    rintro least depth base u b row x y - - rfl
    exact ⟨Iff.rfl, fun _ => rfl⟩
  equal := by
    rintro k x y x' y' rfl rfl
    rfl

end DirectionAux

open DirectionAux

/-- A formula and the formula turned round compile or fail to compile alike, and the model of the latter gives on every input with the
edges reversed the labels, or the class of failure, that the model of the former gives on the input. -/
theorem evaluate_flip {ops : Registries} {settings : Settings} (hcalm : ops.Calm) {c c' : Compiler} (hc : Reachable ops settings c)
    (hc' : Reachable ops settings c') {e : Expr} (he : e.Named) :
    ((∃ m, c.Gives e m) ↔ ∃ m', c'.Gives e.flip m') ∧
      ∀ m m', c.Gives e m → c'.Gives e.flip m' → ∀ (maxIterations : Int) (live : Bool) (input? : Option Input),
        outcome (Evaluator.evaluate maxIterations live m' (input?.map Input.reversed)).result =
          outcome (Evaluator.evaluate maxIterations live m input?).result := by
  have hsuits := Translation.suits_direction Direction.opposite anything ops settings
  refine ⟨gives_carried hsuits hc hc' he (over_anything e), fun m m' hm hm' maxIterations live input? => ?_⟩
  cases input? with
  | none =>
    cases live with
    | false => rfl
    | true => rfl
  | some input =>
    have hagrees := evaluate_agrees hsuits hcalm hc hc' he (over_anything e) hm hm' (check_reversed settings.input input)
      (fun _ => same_upheld ⟨ops, settings, input, maxIterations⟩) (fun _ _ _ => trivial) live
    refine (Agree.eq_iff.mp (hagrees.imp fun x y hxy => ?_)).symm
    obtain ⟨t, -, hxy⟩ := hxy
    exact Eq.symm hxy

/-- The sample formula turned round gives on the edge from the second node to the first one what it gives on the edge from the first
node to the second one. -/
theorem evaluate_flip_sample : ∃ m, Sample.compiler.Gives Sample.expr.flip m ∧
    (Evaluator.evaluate 0 true m (some Sample.input.reversed)).result = .ok Sample.labels := by
  obtain ⟨m, hm, -, hres⟩ := Sample.evaluated
  obtain ⟨hgives, hsame⟩ := evaluate_flip Builtin.registries_calm Sample.reachable Sample.reachable
    (parse_wellFormed Sample.formula_parsed).named
  obtain ⟨m', hm'⟩ := hgives.mp ⟨m, hm.gives⟩
  refine ⟨m', hm', outcome_eq_ok.mp ?_⟩
  rw [show some Sample.input.reversed = (some Sample.input).map Input.reversed from rfl, hsame m m' hm.gives hm', hres, outcome_ok]

end ModalGraph
