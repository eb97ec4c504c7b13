import ModalGraph.Proofs.Compiler.Performs
import ModalGraph.Proofs.Evaluator.Input
import ModalGraph.Proofs.Evaluator.Memo
import ModalGraph.Proofs.Formula.Width

/-!
# A compiled model computes the meaning of its formula

Whatever a compiler has compiled before, a model that it returns evaluates to the meaning of its formula on every input that goes
with the model (`evaluate_outcome`): to the same labels if the formula has a meaning there, and otherwise to a failure of the same
class.
-/

namespace ModalGraph

open Formula

/-- The models that a compiler returns for a formula, given as text or as what the text parses to. -/
inductive Compiler.Returns (c : Compiler) (e : Expr) (m : Model) : Prop where
  | text {canceled : Bool} {src : Bytes} : parse src = .ok e → (c.compile canceled src).result = .ok m → Returns c e m
  | expr {canceled : Bool} {src : Bytes} : parse src = .ok e → (c.compileExpr canceled e).result = .ok m → Returns c e m

namespace Evaluator

/-- What an evaluation gives on an input that goes with its model: what its run gives, and the reports of the run between two others. -/
theorem evaluate_checked {maxIterations : Int} {m : Model} {input? : Option Input} {input : Input} (h : m.spec.check input? = .ok input) :
    evaluate maxIterations true m input? = ⟨(run ⟨m, input, maxIterations⟩).1,
      .evaluateStart m.formula input.nodes (graphs input) :: ((run ⟨m, input, maxIterations⟩).2.events.reverse ++
        [.evaluateFinish m.formula input.nodes (graphs input) (Failure.reported (run ⟨m, input, maxIterations⟩).1)]),
      (run ⟨m, input, maxIterations⟩).2.patience⟩ := by
  rw [evaluate, answer, if_neg (by simp [Patience.ofLive, Patience.waits]), h]
  rfl

/-- An input that does not go with the model gives what its check says. -/
theorem evaluate_refused {maxIterations : Int} {m : Model} {input? : Option Input} {f : Failure} (h : m.spec.check input? = .error f) :
    evaluate maxIterations true m input? = ⟨.error f, [], .endless⟩ := by
  rw [evaluate, answer, if_neg (by simp [Patience.ofLive, Patience.waits]), h]
  rfl

end Evaluator

namespace RefinementAux

open Compiler

/-- A formula that a model is returned for is well-formed, and the model is made from it under some text. -/
theorem returns_compileAs {c : Compiler} {e : Expr} {m : Model} (h : c.Returns e m) :
    e.WellFormed [] ∧ ∃ canceled formula, (c.compileAs canceled formula e).result = .ok m := by
  cases h with
  | @text canceled src hparse hm =>
    refine ⟨parse_wellFormed hparse, canceled, src, ?_⟩
    rwa [Compiler.compile, hparse] at hm
  | @expr canceled src hparse hm =>
    refine ⟨parse_wellFormed hparse, canceled, e.key, ?_⟩
    rw [Compiler.compileExpr] at hm
    split at hm
    · cases hm
    · exact hm

/-- A model that is made holds nodes of a ledger, and its output is the node of the formula's term. -/
theorem compileAs_holds {ops : Registries} {settings : Settings} {c : Compiler} (hc : Reachable ops settings c) {e : Expr}
    (he : e.Named) {canceled : Bool} {formula : Bytes} {m : Model} (hm : (c.compileAs canceled formula e).result = .ok m) :
    ∃ es, Ledger ops settings es ∧ m.Holds (table es) ∧ m.spec = settings.input ∧
      ∃ out ∈ es, m.output = out.node.id ∧ e.term [] .input = some out.term ∧ e.Accepted ops settings := by
  obtain ⟨es, hlist⟩ := hc.listed
  obtain ⟨es', hlist', -, hmatch⟩ := hlist.compileAs he canceled formula
  rw [hm] at hmatch
  obtain ⟨t, ht, hmodel⟩ := hmatch.of_ok
  obtain ⟨hholds, out, hid, rfl⟩ := hmodel.holds hlist'.ledger
  obtain ⟨hterm, hacc⟩ := callPlan_ok ht
  exact ⟨es', hlist'.ledger, hholds, hmodel.spec_eq, out, List.mem_of_getElem? hid, (hlist'.ledger.id hid).symm, hterm, hacc⟩

theorem returns_holds {ops : Registries} {settings : Settings} {c : Compiler} (hc : Reachable ops settings c) {e : Expr} {m : Model}
    (hm : c.Returns e m) : ∃ es, Ledger ops settings es ∧ m.Holds (table es) ∧ m.spec = settings.input ∧
      ∃ out ∈ es, m.output = out.node.id ∧ e.term [] .input = some out.term ∧ e.Accepted ops settings := by
  obtain ⟨hwf, canceled, formula, hm⟩ := returns_compileAs hm
  exact compileAs_holds hc hwf.named hm

/-- A task of a model that is returned plays on the nodes of a ledger. -/
theorem returns_plays {ops : Registries} {settings : Settings} {c : Compiler} (hc : Reachable ops settings c) (hcalm : ops.Calm)
    {e : Expr} {m : Model} (hm : c.Returns e m) (input : Input) (maxIterations : Int) :
    ∃ es, Evaluator.Plays ⟨ops, settings, input, maxIterations⟩ es ⟨m, input, maxIterations⟩ ∧
      ∃ out ∈ es, m.output = out.node.id ∧ e.term [] .input = some out.term ∧ e.Accepted ops settings := by
  obtain ⟨es, hledger, hholds, hspec, hout⟩ := returns_holds hc hm
  exact ⟨es, ⟨hledger, hholds, hspec, rfl, rfl, hcalm⟩, hout⟩

/-- On an input that goes with the model, an evaluation is a run from the start. -/
theorem evaluate_result {maxIterations : Int} {m : Model} {input : Input} (h : m.spec.check (some input) = .ok input) :
    (Evaluator.evaluate maxIterations true m (some input)).result = (Evaluator.run ⟨m, input, maxIterations⟩).1 := by
  rw [Evaluator.evaluate_checked h]

end RefinementAux

open RefinementAux Compiler

/-- A model that is made evaluates to the value of its formula's term, up to the words of a failure. -/
theorem compileAs_outcome {ops : Registries} {settings : Settings} {c : Compiler} (hc : Reachable ops settings c) (hcalm : ops.Calm)
    {e : Expr} (he : e.Named) {canceled : Bool} {formula : Bytes} {m : Model} (hm : (c.compileAs canceled formula e).result = .ok m)
    {input : Input} (hinput : m.spec.check (some input) = .ok input) (maxIterations : Int) :
    ∃ t, e.term [] .input = some t ∧ outcome (Evaluator.evaluate maxIterations true m (some input)).result =
      outcome (t.value ⟨ops, settings, input, maxIterations⟩ []) := by
  obtain ⟨es, hledger, hholds, hspec, out, hout, houtput, hterm, _⟩ := compileAs_holds hc he hm
  have hplays : Evaluator.Plays ⟨ops, settings, input, maxIterations⟩ es ⟨m, input, maxIterations⟩ :=
    ⟨hledger, hholds, hspec, rfl, rfl, hcalm⟩
  rw [evaluate_result hinput, Evaluator.run, Evaluator.runFor, houtput]
  obtain ⟨n, hn⟩ := hplays.holds.output_some
  have hgives := Evaluator.eval_gives hplays (m.nodes.length + 1) [] hout ⟨n, houtput ▸ hn⟩
    (Nat.lt_succ_of_le (m.rank_le _))
  exact ⟨out.term, hterm, (hgives {} (Evaluator.Sound.start _ _ _ _)).1⟩

/-- A model that is returned evaluates to the meaning of its formula, up to the words of a failure. -/
theorem evaluate_outcome {ops : Registries} {settings : Settings} {c : Compiler} (hc : Reachable ops settings c) (hcalm : ops.Calm)
    {e : Expr} {m : Model} (hm : c.Returns e m) {input : Input} (hinput : m.spec.check (some input) = .ok input)
    (maxIterations : Int) : outcome (Evaluator.evaluate maxIterations true m (some input)).result =
      outcome (meaning ⟨ops, settings, input, maxIterations⟩ [] (.ok input.x) e) := by
  obtain ⟨hwf, canceled, formula, hm⟩ := returns_compileAs hm
  obtain ⟨t, hterm, hvalue⟩ := compileAs_outcome hc hcalm hwf.named hm hinput maxIterations
  have hbelow : Term.Below .input [] := fun k hk => hk.elim
  rw [hvalue]
  exact congrArg outcome (value_term ⟨ops, settings, input, maxIterations⟩ e hbelow hterm).2

/-- Whatever was compiled before, successfully or not, evaluating a model that is returned for a formula succeeds on an input that
goes with the model exactly if the formula has a meaning there, and gives the labels that it means. -/
theorem evaluate_eq_meaning {ops : Registries} {settings : Settings} {c : Compiler} (hc : Reachable ops settings c)
    (hcalm : ops.Calm) {e : Expr} {m : Model} (hm : c.Returns e m) {input : Input} (hinput : m.spec.check (some input) = .ok input)
    (maxIterations : Int) (labels : Tensor) : (Evaluator.evaluate maxIterations true m (some input)).result = .ok labels ↔
      meaning ⟨ops, settings, input, maxIterations⟩ [] (.ok input.x) e = .ok labels := by
  rw [← outcome_eq_ok, evaluate_outcome hc hcalm hm hinput, outcome_eq_ok]

/-! ## A formula compiled after others -/

namespace Sample

/-- One truth value per node, edges, and a base of truth values. -/
def settings : Settings :=
  ⟨⟨⟨.bool, 1⟩, none, true, false⟩, [(Bytes.ofString "r", Base.bool 1)], 0⟩

/-- The compiler after one formula, and another one that names no operator. -/
def compiler : Compiler :=
  (((fresh Builtin.registries settings).compile false (Bytes.ofString "a;not")).compiler.compile false
    (Bytes.ofString "a;nope")).compiler

/-- The nodes that a true node reaches. -/
def formula : Bytes :=
  Bytes.ofString "mu X,r.((a||X;|>or);or)"

/-- Two nodes, the first one true, and an edge from the first to the second. -/
def input : Input :=
  ⟨Tensor.column .bool [Label.one, Label.zero], [0], [1], none, none⟩

/-- Both nodes true. -/
def labels : Tensor :=
  Tensor.column .bool [Label.one, Label.one]

theorem settings_faultless : settings.faults = [] := by decide +kernel

theorem reachable : Reachable Builtin.registries settings compiler :=
  .compile _ _ (.compile _ _ (.new (new_of_faultless settings_faultless)))

/-- The formula, parsed. -/
def expr : Expr :=
  .fix ⟨0, 1, 1⟩ true (Bytes.ofString "X") (Bytes.ofString "r")
    (.seq ⟨8, 1, 9⟩
      (.par ⟨9, 1, 10⟩ [.atom ⟨9, 1, 10⟩ (Bytes.ofString "a") none,
        .seq ⟨12, 1, 13⟩ (.var ⟨12, 1, 13⟩ (Bytes.ofString "X")) (.diamond ⟨14, 1, 15⟩ .forward none (Bytes.ofString "or"))])
      (.atom ⟨20, 1, 21⟩ (Bytes.ofString "or") none))

theorem formula_parsed : parse formula = .ok expr := parse_of_same (by decide +kernel)

theorem base_bool : settings.base? (Bytes.ofString "r") = some (Base.bool 1) := by decide +kernel

theorem base_width : settings.baseWidth (Bytes.ofString "r") = 1 := by
  rw [Settings.baseWidth, base_bool]
  rfl

/-- The labels that come up in the formula are one or two features wide. -/
theorem expr_fits {nodes edges : Nat} (hnodes : Tensor.Storable nodes 2) (hedges : Tensor.Storable edges 1) :
    expr.Fits nodes edges Builtin.registries settings [] 1 True := by
  have hone : Tensor.Storable nodes 1 := hnodes.narrow (by decide)
  refine ⟨base_width.symm ▸ hone, ⟨hnodes, by decide, ⟨trivial, hone⟩, ⟨trivial, ?_⟩, trivial⟩, hone⟩
  exact ⟨hone, hedges, hone, hone.places (by decide)⟩

/-- A formula whose text compiles to a model that gives labels on an input has such a model. -/
theorem runs {src : Bytes} {e : Expr} (hparse : parse src = .ok e) (given : Input) (out : Tensor)
    (hrun : (match (compiler.compile false src).result with
      | .ok m => (m.spec.check (some given)).isOk && (Evaluator.evaluate 0 true m (some given)).result.toOption == some out
      | .error _ => false) = true) :
    ∃ m, compiler.Returns e m ∧ m.spec.check (some given) = .ok given ∧ (Evaluator.evaluate 0 true m (some given)).result = .ok out := by
  cases hm : (compiler.compile false src).result with
  | error f =>
    rw [hm] at hrun
    cases hrun
  | ok m =>
    rw [hm, Bool.and_eq_true, beq_iff_eq] at hrun
    refine ⟨m, .text hparse hm, check_of_isOk hrun.1, ?_⟩
    cases hres : (Evaluator.evaluate 0 true m (some given)).result with
    | error f =>
      rw [hres] at hrun
      cases hrun.2
    | ok labels =>
      rw [hres] at hrun
      rw [Option.some.inj hrun.2]

/-- What the formula compiles and evaluates to. -/
theorem evaluated : ∃ m, compiler.Returns expr m ∧ m.spec.check (some input) = .ok input ∧
    (Evaluator.evaluate 0 true m (some input)).result = .ok labels :=
  runs formula_parsed input labels (by decide +kernel)

end Sample

/-- The sample formula means that both nodes are true. -/
theorem evaluate_eq_meaning_sample : ∃ m, Sample.compiler.Returns Sample.expr m ∧
    (Evaluator.evaluate 0 true m (some Sample.input)).result = .ok Sample.labels ∧
      meaning ⟨Builtin.registries, Sample.settings, Sample.input, 0⟩ [] (.ok Sample.input.x) Sample.expr = .ok Sample.labels := by
  obtain ⟨m, hm, hcheck, hres⟩ := Sample.evaluated
  exact ⟨m, hm, hres, (evaluate_eq_meaning Sample.reachable Builtin.registries_calm hm hcheck 0 Sample.labels).mp hres⟩

end ModalGraph
