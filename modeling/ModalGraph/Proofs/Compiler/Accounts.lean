import Mathlib.Algebra.GroupWithZero.Nat
import ModalGraph.Proofs.Compiler.Coherent

/-!
# Accounts of compilations

A compilation reports how many nodes it has made and how many it has found again. The first number is by how much the store has grown,
also if the compilation fails on the way; of one that succeeds both numbers together are the constructions of the formula, those put one
after the other left out, since each of these is looked up once (`Expr.steps`). What a walk does to its two counts is said once for each
step (`Tallies`), then for every formula (`expr_tallies`). Over a run of requests the nodes that were reported as made are all nodes of
the store but the input (`compilations_accounted`).
-/

namespace ModalGraph

open Formula

/-! ## Constructions of a formula -/

namespace Formula.Expr

/-- The number of constructions in a formula, other than those that put two formulas one after the other. -/
def steps (e : Expr) : Nat :=
  (e.visit []).countP fun tag => tag != "seq"

/-- The number of such constructions in several formulas. -/
def stepsAll (es : List Expr) : Nat :=
  (visitAll [] es).countP fun tag => tag != "seq"

variable {pos : Position} {e body left right : Expr} {es : List Expr}

@[simp] theorem steps_atom (name : Bytes) (arg : Argument) : (Expr.atom pos name arg).steps = 1 := rfl

@[simp] theorem steps_seq : (Expr.seq pos left right).steps = left.steps + right.steps :=
  List.countP_append

@[simp] theorem steps_par : (Expr.par pos es).steps = stepsAll es + 1 :=
  List.countP_cons_of_pos rfl

@[simp] theorem steps_diamond (direction : Direction) (phi : Option Bytes) (sigma : Bytes) :
    (Expr.diamond pos direction phi sigma).steps = 1 := by
  cases direction <;> rfl

@[simp] theorem steps_var (name : Bytes) : (Expr.var pos name).steps = 1 := rfl

@[simp] theorem steps_fix (least : Bool) (v base : Bytes) : (Expr.fix pos least v base body).steps = body.steps + 1 :=
  List.countP_cons_of_pos rfl

@[simp] theorem stepsAll_nil : stepsAll [] = 0 := rfl

@[simp] theorem stepsAll_cons : stepsAll (e :: es) = e.steps + stepsAll es :=
  List.countP_append

end Formula.Expr

namespace Compiler

/-! ## The counts of a walk -/

/-- A step of a walk counts a node as made for each that it adds to the store, and if it succeeds has made or found again `n` nodes. -/
def Tallies {α : Type} (act : Build α) (n : Nat) : Prop :=
  ∀ p r p', act.run p = (r, p') → p'.store.size + p.created = p.store.size + p'.created ∧
    (r.isOk = true → p'.created + p'.reused = p.created + p.reused + n)

namespace Tallies

variable {α β : Type} {n k : Nat}

theorem pure (a : α) : Tallies (Pure.pure a : Build α) 0 := by
  intro p r p' h
  cases h
  exact ⟨rfl, fun _ => rfl⟩

theorem fail (f : Failure) : Tallies (throw f : Build α) n := by
  intro p r p' h
  cases h
  exact ⟨rfl, nofun⟩

theorem lift (x : Except Failure α) : Tallies (liftM x : Build α) 0 := by
  intro p r p' h
  obtain ⟨-, rfl⟩ := run_lift_inv h
  exact ⟨rfl, fun _ => rfl⟩

theorem bind {act : Build α} {f : α → Build β} (h : Tallies act n) (hf : ∀ a, Tallies (f a) k) : Tallies (act >>= f) (n + k) := by
  intro p r p'' hrun
  rw [run_bind] at hrun
  rcases hact : act.run p with ⟨x, p'⟩
  obtain ⟨hgrown, hdone⟩ := h p x p' hact
  rw [hact] at hrun
  cases x with
  | error g =>
    cases hrun
    exact ⟨hgrown, nofun⟩
  | ok a =>
    obtain ⟨hgrown', hdone'⟩ := hf a p' r p'' hrun
    have hsum := hdone rfl
    refine ⟨by omega, fun hok => ?_⟩
    have hsum' := hdone' hok
    omega

/-- Looking up a key makes one node or finds one again. -/
theorem intern (key : Bytes) (make : Except Failure Node) : Tallies (intern key make) 1 := by
  intro p r p' h
  cases hfind : p.store.find? key with
  | some m =>
    rw [intern_found hfind] at h
    cases h
    exact ⟨rfl, fun _ => rfl⟩
  | none =>
    cases make with
    | error f =>
      rw [intern_failed hfind] at h
      cases h
      exact ⟨rfl, nofun⟩
    | ok m =>
      rw [intern_made hfind] at h
      cases h
      simp only [Store.size, Array.size_push]
      omega

end Tallies

mutual

/-- Compiling a formula makes or finds again one node for each of its steps. -/
theorem expr_tallies (c : Compiler) (scope : List Binding) : ∀ (e : Expr) (input : Node), Tallies (c.expr scope e input) e.steps
  | .atom _ _ _, input => by
    rw [expr]
    exact .intern _ _
  | .seq _ left right, input => by
    rw [expr, Expr.steps_seq]
    exact (expr_tallies c scope left input).bind fun l => expr_tallies c scope right l
  | .par _ children, input => by
    rw [expr, Expr.steps_par]
    split
    · exact .fail _
    · exact (exprs_tally c scope children input).bind fun ns => .intern _ _
  | .diamond _ direction phi sigma, input => by
    rw [expr, Expr.steps_diamond]
    cases c.settings.input.adjacency with
    | false => exact .fail _
    | true => exact .intern _ _
  | .var _ name, input => by
    rw [expr, Expr.steps_var]
    cases lookup scope name with
    | none => exact .fail _
    | some b => exact .intern _ _
  | .fix _ least v base body, input => by
    rw [expr, Expr.steps_fix, ← Nat.zero_add (body.steps + 1)]
    refine (Tallies.lift _).bind fun start => (expr_tallies c _ body input).bind fun n => ?_
    exact (Tallies.lift _).bind fun _ => .intern _ _
  | .hole, input => by
    rw [expr]
    exact .fail _

/-- Compiling several formulas makes or finds again one node for each of their steps. -/
theorem exprs_tally (c : Compiler) (scope : List Binding) : ∀ (es : List Expr) (input : Node),
    Tallies (c.exprs scope es input) (Expr.stepsAll es)
  | [], input => by
    rw [exprs]
    exact .pure _
  | e :: es, input => by
    rw [exprs, Expr.stepsAll_cons]
    exact (expr_tallies c scope e input).bind fun n => (exprs_tally c scope es input).bind fun ns => .pure _

end

/-! ## One compilation -/

/-- A compilation of a formula under some text, and what it reports: its start, and then its finish with the failure that it returns, if
it fails, with the number of nodes by which the store has grown, and with another one that makes this number up to the steps of the
formula, if it succeeds. -/
structure Accounted (c : Compiler) (formula : Bytes) (e : Expr) (out : Outcome) (created reused layers : Nat) : Prop where
  reported : out.events = [.compileStart formula c.settings.input.mode,
    .compileFinish formula c.settings.input.mode created reused layers (Failure.reported out.result)]
  grown : out.compiler.store.size = c.store.size + created
  covered : out.result.isOk = true → created + reused = e.steps

/-- A compilation for a caller who waits gives account of itself. -/
theorem compileAs_accounted (c : Compiler) (formula : Bytes) (e : Expr) :
    ∃ created reused layers, c.Accounted formula e (c.compileAs false formula e) created reused layers := by
  rw [compileAs, if_neg (by simp)]
  rcases hrun : (c.expr [] e c.input).run { store := c.store } with ⟨r, p⟩
  obtain ⟨hgrown, hdone⟩ := expr_tallies c [] e c.input _ r p hrun
  cases r with
  | error f => exact ⟨p.created, p.reused, 0, rfl, hgrown, fun hok => by cases hok⟩
  | ok out => exact ⟨p.created, p.reused, _, rfl, hgrown, fun _ => (hdone rfl).trans (Nat.zero_add _)⟩

/-! ## Runs of requests -/

/-- What a compiler gives for some requests, one after the other. -/
def answers (c : Compiler) : List Request → List Outcome
  | [] => []
  | r :: rs => r.on c :: (r.on c).compiler.answers rs

/-- What a compiler reports for some requests, one after the other. -/
def reports (c : Compiler) (rs : List Request) : List Event :=
  (c.answers rs).flatMap Outcome.events

theorem reports_cons (c : Compiler) (r : Request) (rs : List Request) :
    c.reports (r :: rs) = (r.on c).events ++ (r.on c).compiler.reports rs :=
  List.flatMap_cons

theorem reports_append (c : Compiler) (rs rs' : List Request) :
    c.reports (rs ++ rs') = c.reports rs ++ (c.served rs).reports rs' := by
  induction rs generalizing c with
  | nil => rfl
  | cons r rs ih =>
    rw [List.cons_append, reports_cons, reports_cons, ih, List.append_assoc]
    rfl

end Compiler

/-- The number of nodes that a report says were made. -/
def Event.created : Event → Nat
  | .compileFinish _ _ created _ _ _ => created
  | _ => 0

namespace Compiler

variable {c : Compiler}

/-- A compilation that is not begun reports nothing and leaves the compiler as it is. -/
theorem compileAs_canceled (c : Compiler) (formula : Bytes) (e : Expr) : c.compileAs true formula e = ⟨.error .canceled, c, []⟩ := rfl

/-- The nodes that a request reports as made are those by which the store grows. -/
theorem Request.created_on (r : Request) (c : Compiler) :
    ((r.on c).events.map Event.created).sum + c.store.size = (r.on c).compiler.store.size := by
  have hcompiled : ∀ canceled formula e, ((c.compileAs canceled formula e).events.map Event.created).sum + c.store.size =
      (c.compileAs canceled formula e).compiler.store.size := by
    intro canceled formula e
    cases canceled with
    | true =>
      rw [compileAs_canceled]
      exact Nat.zero_add _
    | false =>
      obtain ⟨created, reused, layers, hevents, hgrown, -⟩ := c.compileAs_accounted formula e
      rw [hevents, hgrown, Nat.add_comm]
      simp [Event.created]
  cases r with
  | text canceled source =>
    rw [Request.on, Compiler.compile]
    split
    · exact Nat.zero_add _
    · exact hcompiled canceled source _
  | formula canceled e =>
    rw [Request.on, Compiler.compileExpr]
    split
    · exact Nat.zero_add _
    · exact hcompiled canceled e.key e

/-- The nodes that a run of requests reports as made are those by which the store grows. -/
theorem created_reports (c : Compiler) (rs : List Request) :
    ((c.reports rs).map Event.created).sum + c.store.size = (c.served rs).store.size := by
  induction rs generalizing c with
  | nil => exact Nat.zero_add _
  | cons r rs ih =>
    have hrest := ih (r.on c).compiler
    have hfirst := r.created_on c
    rw [reports_cons, List.map_append, List.sum_append, show c.served (r :: rs) = (r.on c).compiler.served rs from rfl]
    omega

end Compiler

open Compiler

/-- In any run of requests, compiling a text that is parsed reports the start and the finish of a compilation, with the failure that is
returned and the number of nodes by which the store has grown; if it succeeds, this number and that of the nodes that were found again
are the steps of the formula together. The nodes that the run reports as made are all nodes of the store but the input. -/
theorem compilations_accounted {ops : Registries} {settings : Settings} {c₀ : Compiler} (h₀ : Compiler.new ops settings = .ok c₀)
    (requests : List Request) :
    (∀ earlier text later e, requests = earlier ++ .text false text :: later → parse text = .ok e →
      ∃ out created reused layers, out = (c₀.served earlier).compile false text ∧
        c₀.reports requests = c₀.reports earlier ++ (out.events ++ out.compiler.reports later) ∧
        (c₀.served earlier).Accounted text e out created reused layers) ∧
    ((c₀.reports requests).map Event.created).sum + 1 = (c₀.served requests).store.size := by
  constructor
  · rintro earlier text later e rfl hparse
    obtain ⟨created, reused, layers, haccount⟩ := (c₀.served earlier).compileAs_accounted text e
    have hcompile : (c₀.served earlier).compile false text = (c₀.served earlier).compileAs false text e := by rw [compile, hparse]
    refine ⟨_, created, reused, layers, hcompile.symm, ?_, haccount⟩
    rw [reports_append, reports_cons, ← hcompile]
    rfl
  · have hstart : c₀.store.size = 1 := by
      obtain ⟨_, -, h⟩ := bind_ok h₀
      cases h
      rfl
    rw [← created_reports, hstart]

namespace Sample

/-- A fixpoint on the labels of `b`. -/
def shared : Bytes :=
  Bytes.ofString "b;mu X,b.X"

/-- The fixpoint, parsed. -/
def sharedExpr : Expr :=
  .seq ⟨0, 1, 1⟩ (.atom ⟨0, 1, 1⟩ (Bytes.ofString "b") none)
    (.fix ⟨2, 1, 3⟩ true (Bytes.ofString "X") (Bytes.ofString "b") (.var ⟨9, 1, 10⟩ (Bytes.ofString "X")))

theorem shared_parsed : parse shared = .ok sharedExpr := parse_of_same (by decide +kernel)

/-- A formula that fails after the node of `b`, and then the fixpoint on it. -/
def sharing : List Request :=
  [.text false (Bytes.ofString "b;nope"), .text false shared]

end Sample

/-- The second of two requests finds the node of `b` again, which the first one made before it failed: two of its three steps are new,
and three nodes are made altogether. -/
theorem compilations_accounted_sample : Compiler.new Builtin.registries Sample.twoBases = .ok Sample.newCompiler ∧
    (∃ out layers, (Sample.newCompiler.served (Sample.sharing.take 1)).Accounted Sample.shared Sample.sharedExpr out 2 1 layers ∧
      out.result.isOk = true) ∧
    ((Sample.newCompiler.reports Sample.sharing).map Event.created).sum = 3 := by
  obtain ⟨hcall, hsum⟩ := compilations_accounted Sample.newCompiler_new Sample.sharing
  refine ⟨Sample.newCompiler_new, ?_, ?_⟩
  · obtain ⟨out, created, reused, layers, rfl, -, haccount⟩ := hcall (Sample.sharing.take 1) Sample.shared [] _ rfl Sample.shared_parsed
    have hok : ((Sample.newCompiler.served (Sample.sharing.take 1)).compile false Sample.shared).result.isOk = true := by decide +kernel
    have hsize : ((Sample.newCompiler.served (Sample.sharing.take 1)).compile false Sample.shared).compiler.store.size = 4 := by
      decide +kernel
    have hbefore : (Sample.newCompiler.served (Sample.sharing.take 1)).store.size = 2 := by decide +kernel
    have hgrown := haccount.grown
    have hcovered : created + reused = 3 := haccount.covered hok
    obtain rfl : created = 2 := by omega
    obtain rfl : reused = 1 := by omega
    exact ⟨_, layers, haccount, hok⟩
  · have hsize : (Sample.newCompiler.served Sample.sharing).store.size = 4 := by decide +kernel
    omega

end ModalGraph
