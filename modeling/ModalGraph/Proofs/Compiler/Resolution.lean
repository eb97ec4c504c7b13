import ModalGraph.Proofs.Compiler.Performs
import ModalGraph.Proofs.Formula.Scope
import ModalGraph.Proofs.Operator.Registry

/-!
# Variables are resolved to their binders

Compiling a formula is a walk over it: a call on a formula calls itself on its parts, each in a scope, on a node and at some point of
the walk (`Call.Comes`). Below some fixpoints, the scope of a call has a binding for each of them, keyed by its depth
(`Call.Comes.stands`), so that a name is looked up at its innermost binder (`lookup_innermost`). A walk that succeeds has come to every
part of the formula (`visits_part`), and one that fails has come to the call at fault (`expr_fails`). Since the parser makes a variable
only of a name that it reads below a binder of that name, a formula that was parsed has no variable that is not bound, and the parser
and the compiler agree on the binder of each of its variables (`variables_resolved`).
-/

namespace ModalGraph

open Formula

/-- No base lacks a row to start from for an unbound variable. -/
theorem Base.init_error {base : Base} {least : Bool} {f : Failure} (h : base.init least = .error f) :
    f.has .unboundVariable = false := by
  have hfault := Base.init_eq_error.mp h
  unfold Base.initFault? at hfault
  split at hfault
  · cases hfault
    rfl
  · split at hfault
    · cases hfault
    · split at hfault
      · split at hfault
        · cases hfault
          rfl
        · cases hfault
      · cases hfault
        rfl

namespace Compiler

/-! ## The calls of a walk -/

/-- A call of the walk over a formula: the bindings in scope, the formula, the node that it is applied to, and where the walk is. -/
structure Call where
  scope : List Binding
  formula : Expr
  input : Node
  progress : Progress

/-- The call that compiling a formula starts with. -/
def call (c : Compiler) (e : Expr) : Call :=
  ⟨[], e, c.input, { store := c.store }⟩

/-- The binding that is in scope in the body of a fixpoint, below some others. -/
def binding (scope : List Binding) (name baseName : Bytes) (base : Base) : Binding :=
  ⟨name, baseName, variableKey scope.length baseName, base⟩

/-- A call comes to another one, below the fixpoints that are in between, the innermost one first. -/
inductive Call.Comes (c : Compiler) : Call → List Enclosing → Call → Prop where
  | here {k : Call} : Comes c k [] k
  | left {scope : List Binding} {pos : Position} {l r : Expr} {input : Node} {p : Progress} {fs : List Enclosing} {k : Call} :
      Comes c ⟨scope, l, input, p⟩ fs k → Comes c ⟨scope, .seq pos l r, input, p⟩ fs k
  | right {scope : List Binding} {pos : Position} {l r : Expr} {input n : Node} {p p' : Progress} {fs : List Enclosing} {k : Call} :
      (c.expr scope l input).run p = (.ok n, p') → Comes c ⟨scope, r, n, p'⟩ fs k → Comes c ⟨scope, .seq pos l r, input, p⟩ fs k
  | child {scope : List Binding} {pos : Position} {before after : List Expr} {e : Expr} {input : Node} {ns : List Node}
      {p p' : Progress} {fs : List Enclosing} {k : Call} :
      (c.exprs scope before input).run p = (.ok ns, p') → Comes c ⟨scope, e, input, p'⟩ fs k →
        Comes c ⟨scope, .par pos (before ++ e :: after), input, p⟩ fs k
  | body {scope : List Binding} {pos : Position} {least : Bool} {v baseName : Bytes} {b : Expr} {base : Base} {init : List Label}
      {input : Node} {p : Progress} {fs : List Enclosing} {k : Call} :
      c.fixpointBase least baseName = .ok (base, init) → Comes c ⟨binding scope v baseName base :: scope, b, input, p⟩ fs k →
        Comes c ⟨scope, .fix pos least v baseName b, input, p⟩ (fs ++ [⟨pos, least, v, baseName⟩]) k

variable {c : Compiler}

/-- A call is on a part of the formula that the walk is over. -/
theorem Call.Comes.part {k k' : Call} {fs : List Enclosing} (h : k.Comes c fs k') : k.formula.Part fs k'.formula := by
  induction h with
  | here => exact .here
  | left _ ih => exact .left ih
  | right _ _ ih => exact .right ih
  | child _ _ ih => exact .child (by simp) ih
  | body _ _ ih => exact .body ih

/-- Fixpoints and the bindings that stand for them: under their variables, with their bases, and keyed by their depths. -/
inductive Stands (settings : Settings) : List Enclosing → List Binding → Prop where
  | nil : Stands settings [] []
  | cons {f : Enclosing} {fs : List Enclosing} {scope : List Binding} {base : Base} :
      Stands settings fs scope → settings.base? f.base = some base → Stands settings (f :: fs) (binding scope f.var f.base base :: scope)

/-- The scope of a call stands for the fixpoints around it. -/
theorem Call.Comes.stands {k k' : Call} {fs outer : List Enclosing} (h : k.Comes c fs k') (hk : Stands c.settings outer k.scope) :
    Stands c.settings (fs ++ outer) k'.scope := by
  induction h generalizing outer with
  | here => exact hk
  | left _ ih | right _ _ ih | child _ _ ih => exact ih hk
  | body hbase _ ih =>
    rw [List.append_assoc]
    exact ih (.cons hk (base?_of_fixpointBase hbase).1)

section

variable {settings : Settings} {fs outer : List Enclosing} {scope : List Binding} {name : Bytes} {g : Enclosing}

theorem Stands.length_eq (h : Stands settings fs scope) : scope.length = fs.length := by
  induction h with
  | nil => rfl
  | cons _ _ ih => rw [List.length_cons, List.length_cons, ih]

theorem Stands.names_eq (h : Stands settings fs scope) : scope.map Binding.name = fs.map Enclosing.var := by
  induction h with
  | nil => rfl
  | cons _ _ ih =>
    rw [List.map_cons, List.map_cons, ih]
    rfl

/-- A name is looked up at the binding that stands for its innermost binder. -/
theorem lookup_innermost (h : Stands settings fs scope) (hg : Innermost name fs g outer) :
    ∃ base, settings.base? g.base = some base ∧ lookup scope name = some ⟨name, g.base, variableKey outer.length g.base, base⟩ := by
  induction h with
  | nil => cases hg
  | @cons f fs scope base hrest hbase ih =>
    rw [lookup, List.find?_cons]
    cases hg with
    | here hname =>
      refine ⟨base, hbase, ?_⟩
      rw [show (binding scope g.var g.base base).name = name from hname, beq_self_eq_true, binding, hname, hrest.length_eq]
    | outside hname hg =>
      rw [show ((binding scope f.var f.base base).name == name) = false from beq_false_of_ne hname]
      exact ih hg

end

/-! ## Walks that succeed -/

/-- A walk over several formulas comes to each of them. -/
theorem exprs_append {scope : List Binding} {before after : List Expr} {e : Expr} {input : Node} {p p' : Progress} {ns : List Node}
    (h : (c.exprs scope (before ++ e :: after) input).run p = (.ok ns, p')) :
    ∃ ms n p₁ p₂, (c.exprs scope before input).run p = (.ok ms, p₁) ∧ (c.expr scope e input).run p₁ = (.ok n, p₂) := by
  induction before generalizing p p' ns with
  | nil =>
    rw [List.nil_append, exprs] at h
    obtain ⟨n, p₁, hn, -⟩ := run_bind_inv h
    exact ⟨[], n, p, p₁, rfl, hn⟩
  | cons a before ih =>
    rw [List.cons_append, exprs] at h
    obtain ⟨m, p₁, hm, h⟩ := run_bind_inv h
    obtain ⟨ms, p₂, hms, -⟩ := run_bind_inv h
    obtain ⟨ms', n, q₁, q₂, hbefore, hn⟩ := ih hms
    refine ⟨m :: ms', n, q₁, q₂, ?_, hn⟩
    rw [exprs, run_bind_ok hm, run_bind_ok hbefore]
    rfl

/-- A walk that succeeds has come to every part of the formula. -/
theorem visits_part {e x : Expr} {fs : List Enclosing} (hx : e.Part fs x) {scope : List Binding} {input n : Node} {p p' : Progress}
    (h : (c.expr scope e input).run p = (.ok n, p')) : ∃ k, Call.Comes c ⟨scope, e, input, p⟩ fs k ∧ k.formula = x := by
  induction hx generalizing scope input n p p' with
  | here => exact ⟨_, .here, rfl⟩
  | left _ ih =>
    rw [expr] at h
    obtain ⟨l, p₁, hl, -⟩ := run_bind_inv h
    obtain ⟨k, hk, hx⟩ := ih hl
    exact ⟨k, .left hk, hx⟩
  | right _ ih =>
    rw [expr] at h
    obtain ⟨l, p₁, hl, hr⟩ := run_bind_inv h
    obtain ⟨k, hk, hx⟩ := ih hr
    exact ⟨k, .right hl hk, hx⟩
  | child hmem _ ih =>
    obtain ⟨before, after, rfl⟩ := List.append_of_mem hmem
    rw [expr, if_neg (by simp)] at h
    obtain ⟨ns, p₁, hns, -⟩ := run_bind_inv h
    obtain ⟨ms, m, q₁, q₂, hbefore, hm⟩ := exprs_append hns
    obtain ⟨k, hk, hx⟩ := ih hm
    exact ⟨k, .child hbefore hk, hx⟩
  | body _ ih =>
    rw [expr] at h
    obtain ⟨⟨base, init⟩, p₁, hstart, h⟩ := run_bind_inv h
    obtain ⟨hbase, rfl⟩ := run_lift_inv hstart
    obtain ⟨m, p₂, hm, -⟩ := run_bind_inv h
    obtain ⟨k, hk, hx⟩ := ih hm
    exact ⟨k, .body hbase hk, hx⟩

/-! ## Walks that fail -/

/-- A call fails of its own, and not in a call that it makes. -/
inductive Call.Fails (c : Compiler) : Call → Failure → Prop where
  | atom {scope : List Binding} {pos : Position} {name : Bytes} {arg : Argument} {input : Node} {p : Progress} {f : Failure} :
      c.atomNode name arg input = .error f → Fails c ⟨scope, .atom pos name arg, input, p⟩ f
  | empty {scope : List Binding} {pos : Position} {input : Node} {p : Progress} :
      Fails c ⟨scope, .par pos [], input, p⟩ (.malformed ⟨pos, [], .emptyParallel⟩)
  | edges {scope : List Binding} {pos : Position} {direction : Direction} {phi : Option Bytes} {sigma : Bytes} {input : Node}
      {p : Progress} : c.settings.input.adjacency = false →
        Fails c ⟨scope, .diamond pos direction phi sigma, input, p⟩ (c.noAdjacency (Expr.diamondKey direction phi sigma))
  | diamond {scope : List Binding} {pos : Position} {direction : Direction} {phi : Option Bytes} {sigma : Bytes} {input : Node}
      {p : Progress} {f : Failure} : c.diamondNode direction phi sigma input = .error f →
        Fails c ⟨scope, .diamond pos direction phi sigma, input, p⟩ f
  | var {scope : List Binding} {pos : Position} {name : Bytes} {input : Node} {p : Progress} :
      lookup scope name = none → Fails c ⟨scope, .var pos name, input, p⟩ (.unboundVariable name pos)
  | base {scope : List Binding} {pos : Position} {least : Bool} {v baseName : Bytes} {b : Expr} {input : Node} {p : Progress}
      {f : Failure} : c.fixpointBase least baseName = .error f → Fails c ⟨scope, .fix pos least v baseName b, input, p⟩ f
  | width {scope : List Binding} {pos : Position} {least : Bool} {v baseName : Bytes} {b : Expr} {base : Base} {input n : Node}
      {p : Progress} {f : Failure} : checkBodyWidth (binding scope v baseName base) n = .error f →
        Fails c ⟨scope, .fix pos least v baseName b, input, p⟩ f
  | hole {scope : List Binding} {input : Node} {p : Progress} : Fails c ⟨scope, .hole, input, p⟩ .missingExpression

theorem intern_error {key : Bytes} {make : Except Failure Node} {p p' : Progress} {f : Failure}
    (h : (intern key make).run p = (.error f, p')) : make = .error f := by
  cases hfind : p.store.find? key with
  | some n =>
    rw [intern_found hfind] at h
    cases h
  | none =>
    cases make with
    | error f' =>
      rw [intern_failed hfind] at h
      cases h
      rfl
    | ok n =>
      rw [intern_made hfind] at h
      cases h

mutual

/-- A walk that fails has come to the call at fault. -/
theorem expr_fails : ∀ (e : Expr) {scope : List Binding} {input : Node} {p p' : Progress} {f : Failure},
    (c.expr scope e input).run p = (.error f, p') → ∃ fs k, Call.Comes c ⟨scope, e, input, p⟩ fs k ∧ k.Fails c f
  | .atom _ _ _, _, _, _, _, _, h => by
    rw [expr] at h
    exact ⟨[], _, .here, .atom (intern_error h)⟩
  | .seq _ left right, _, _, _, _, _, h => by
    rw [expr] at h
    rcases run_bind_error h with hl | ⟨l, p₁, hl, hr⟩
    · obtain ⟨fs, k, hk, hf⟩ := expr_fails left hl
      exact ⟨fs, k, .left hk, hf⟩
    · obtain ⟨fs, k, hk, hf⟩ := expr_fails right hr
      exact ⟨fs, k, .right hl hk, hf⟩
  | .par _ children, _, _, _, _, _, h => by
    rw [expr] at h
    split at h
    · rename_i hempty
      obtain rfl := List.isEmpty_iff.mp hempty
      rw [run_fail] at h
      cases h
      exact ⟨[], _, .here, .empty⟩
    · rcases run_bind_error h with hns | ⟨ns, p₁, -, hconcat⟩
      · obtain ⟨before, e, after, ms, p₁, fs, k, rfl, hbefore, hk, hf⟩ := exprs_fail children hns
        exact ⟨fs, k, .child hbefore hk, hf⟩
      · cases intern_error hconcat
  | .diamond _ direction phi sigma, _, _, _, _, _, h => by
    rw [expr] at h
    cases hadj : c.settings.input.adjacency with
    | false =>
      rw [hadj] at h
      cases h
      exact ⟨[], _, .here, .edges hadj⟩
    | true =>
      rw [hadj] at h
      exact ⟨[], _, .here, .diamond (intern_error h)⟩
  | .var _ name, scope, _, _, _, _, h => by
    rw [expr] at h
    cases hb : lookup scope name with
    | none =>
      rw [hb] at h
      cases h
      exact ⟨[], _, .here, .var hb⟩
    | some b =>
      rw [hb] at h
      cases intern_error h
  | .fix _ least v baseName body, _, _, _, _, _, h => by
    rw [expr] at h
    rcases run_bind_error h with hstart | ⟨⟨base, init⟩, p₁, hstart, h⟩
    · exact ⟨[], _, .here, .base (run_lift_inv hstart).1⟩
    · obtain ⟨hbase, rfl⟩ := run_lift_inv hstart
      rcases run_bind_error h with hbody | ⟨n, p₂, -, h⟩
      · obtain ⟨fs, k, hk, hf⟩ := expr_fails body hbody
        exact ⟨_, k, .body hbase hk, hf⟩
      · rcases run_bind_error h with hwidth | ⟨_, p₃, -, h⟩
        · exact ⟨[], _, .here, .width (run_lift_inv hwidth).1⟩
        · cases intern_error h
  | .hole, _, _, _, _, _, h => by
    rw [expr] at h
    cases h
    exact ⟨[], _, .here, .hole⟩

/-- A walk over several formulas that fails has come to the call at fault in one of them, after those before it. -/
theorem exprs_fail : ∀ (es : List Expr) {scope : List Binding} {input : Node} {p p' : Progress} {f : Failure},
    (c.exprs scope es input).run p = (.error f, p') → ∃ before e after ns p₁ fs k, es = before ++ e :: after ∧
      (c.exprs scope before input).run p = (.ok ns, p₁) ∧ Call.Comes c ⟨scope, e, input, p₁⟩ fs k ∧ k.Fails c f
  | [], _, _, _, _, _, h => by
    rw [exprs] at h
    cases h
  | e :: es, _, _, p, _, _, h => by
    rw [exprs] at h
    rcases run_bind_error h with he | ⟨n, p₁, hn, h⟩
    · obtain ⟨fs, k, hk, hf⟩ := expr_fails e he
      exact ⟨[], e, es, [], p, fs, k, rfl, rfl, hk, hf⟩
    · rcases run_bind_error h with hes | ⟨ns, p₂, -, h⟩
      · obtain ⟨before, e', after, ns, q, fs, k, rfl, hbefore, hk, hf⟩ := exprs_fail es hes
        refine ⟨e :: before, e', after, n :: ns, q, fs, k, rfl, ?_, hk, hf⟩
        rw [exprs, run_bind_ok hn, run_bind_ok hbefore]
        rfl
      · cases h

end

/-! ## Unbound variables -/

theorem phi?_error {phiKey : Option Bytes} {f : Failure} (h : c.phi? phiKey = .error f) : c.ops.Raises f := by
  cases phiKey with
  | none => cases h
  | some key =>
    cases hget : c.ops.phi.resolve key with
    | error g =>
      rw [phi?, hget] at h
      cases h
      exact .phi hget
    | ok op =>
      rw [phi?, hget] at h
      cases h

/-- A call that fails for an unbound variable is on a variable without a binding, or an operator could not be made for it. -/
theorem Call.Fails.unbound {k : Call} {f : Failure} (h : k.Fails c f) (hf : f.has .unboundVariable = true) :
    (∃ pos name, k.formula = .var pos name ∧ lookup k.scope name = none) ∨ c.ops.Raises f := by
  cases h with
  | atom hnode =>
    rcases bind_error hnode with hget | ⟨op, -, hnode⟩
    · exact .inr (.psi hget)
    · cases hnode
  | diamond hnode =>
    rcases bind_error hnode with hget | ⟨sigma, -, hnode⟩
    · exact .inr (.sigma hget)
    · rcases bind_error hnode with hphi | ⟨phi, -, hnode⟩
      · exact .inr (phi?_error hphi)
      · cases hnode
  | var hb => exact .inl ⟨_, _, rfl, hb⟩
  | base hstart =>
    rcases fixpointBase_error hstart with rfl | ⟨base, g, -, hinit, rfl⟩
    · cases hf
    · cases (Base.init_error hinit).symm.trans hf
  | width hcheck =>
    unfold checkBodyWidth at hcheck
    split at hcheck
    · cases hcheck
      cases hf
    · cases hcheck
  | empty | edges | hole => cases hf

/-! ## The variables of a formula text -/

section

variable {src : Bytes} {e : Expr} {fs : List Enclosing}

theorem compile_of_parse (h : parse src = .ok e) (canceled : Bool) : c.compile canceled src = c.compileAs canceled src e := by
  rw [compile, h]

/-- Where compiling a formula comes to, the names of the fixpoints around are in scope, and a name is looked up at the binding that
stands for its innermost binder. -/
theorem Call.Comes.lookup_eq {k : Call} (hk : (c.call e).Comes c fs k) {name : Bytes} {g : Enclosing} {outer : List Enclosing}
    (hg : Innermost name fs g outer) : k.scope.map Binding.name = fs.map Enclosing.var ∧
      ∃ base, c.settings.base? g.base = some base ∧ lookup k.scope name = some ⟨name, g.base, variableKey outer.length g.base, base⟩ := by
  have hstands := hk.stands .nil
  rw [List.append_nil] at hstands
  exact ⟨hstands.names_eq, lookup_innermost hstands hg⟩

/-- A failure for an unbound variable is that of an operator, since compiling comes to variables that are bound only. -/
theorem compile_unbound (h : parse src = .ok e) {canceled : Bool} {f : Failure} (hf : (c.compile canceled src).result = .error f)
    (hunbound : f.has .unboundVariable = true) : c.ops.Raises f := by
  rw [compile_of_parse h] at hf
  rcases compileAs_error hf with rfl | ⟨p, hrun⟩
  · cases hunbound
  · obtain ⟨fs, k, hk, hfails⟩ := expr_fails e hrun
    refine (hfails.unbound hunbound).resolve_left ?_
    rintro ⟨pos, name, hformula, hnone⟩
    obtain ⟨g, outer, hg⟩ := parse_bound h (hformula ▸ hk.part)
    obtain ⟨-, base, -, hsome⟩ := hk.lookup_eq hg
    cases hnone.symm.trans hsome

/-- Compiling a formula with success comes to all of its parts. -/
theorem compile_visits (h : parse src = .ok e) {canceled : Bool} {m : Model} (hm : (c.compile canceled src).result = .ok m) {x : Expr}
    (hx : e.Part fs x) : ∃ k, (c.call e).Comes c fs k ∧ k.formula = x := by
  rw [compile_of_parse h] at hm
  obtain ⟨out, p, hrun, -⟩ := compileAs_ok hm
  exact visits_part hx hrun

end

/-- Where a variable of a formula text gets its meaning: a fixpoint around it, with those around that one. -/
structure Resolved (c : Compiler) (src : Bytes) (e : Expr) (fs : List Enclosing) (pos : Position) (name : Bytes) (g : Enclosing)
    (outer : List Enclosing) : Prop where
  /-- The fixpoint is the innermost one around the variable that binds its name. -/
  innermost : Innermost name fs g outer
  /-- The parser has made the variable of a name, with the variables of the fixpoints around it in scope. -/
  parsed : ∃ ts, tokens src = .ok ts ∧ Reading.Names ⟨.expr, 3 * ts.length + 3, [], ts⟩ fs (.var pos name)
  /-- Where compiling comes to the variable, the same names are in scope, and the one of the variable is looked up at the binding that
  stands for the fixpoint. -/
  lookedUp : ∀ k, (c.call e).Comes c fs k → k.formula = .var pos name → k.scope.map Binding.name = fs.map Enclosing.var ∧
    ∃ base, c.settings.base? g.base = some base ∧ lookup k.scope name = some ⟨name, g.base, variableKey outer.length g.base, base⟩
  /-- Compiling comes to the variable, if it does not fail. -/
  visited : ∀ canceled m, (c.compile canceled src).result = .ok m → ∃ k, (c.call e).Comes c fs k ∧ k.formula = .var pos name

end Compiler

open Compiler

/-- The text of a formula that was parsed never fails to compile for an unbound variable, whatever was compiled before and under any
settings, unless an operator cannot be made for such a reason of its own, as no builtin one does. Each variable of the formula is that
of the innermost fixpoint around it that binds its name, for the parser and for the compiler. -/
theorem variables_resolved {src : Bytes} {e : Expr} (h : parse src = .ok e) (c : Compiler) :
    (∀ canceled f, (c.compile canceled src).result = .error f → (∀ name pos, f ≠ .unboundVariable name pos) ∧
      (f.has .unboundVariable = true → c.ops.Raises f ∧ c.ops ≠ Builtin.registries)) ∧
    ∀ fs pos name, e.Part fs (.var pos name) → ∃ g outer, c.Resolved src e fs pos name g outer := by
  constructor
  · intro canceled f hf
    refine ⟨?_, fun hunbound => ⟨compile_unbound h hf hunbound, ?_⟩⟩
    · rintro name pos rfl
      rcases (compile_unbound h hf rfl).elim with ⟨role, key, hshape⟩ | ⟨place, g, hshape⟩
      · cases hshape
      · cases hshape
    · intro hbuiltin
      rcases Builtin.registries_raise (hbuiltin ▸ compile_unbound h hf hunbound) with ⟨role, key, rfl⟩ | ⟨place, fault, rfl⟩
      · cases hunbound
      · cases hunbound
  · intro fs pos name hx
    obtain ⟨g, outer, hg⟩ := parse_bound h hx
    exact ⟨g, outer, hg, parse_named h hx, fun k hk _ => hk.lookup_eq hg, fun canceled m hm => compile_visits h hm hx⟩

namespace Sample

/-- A binder below another one of the same name, over another base, and the name of both in its body. -/
def shadowing : Bytes :=
  Bytes.ofString "nu X,r.(a;mu X,s.X)"

/-- The outer binder. -/
def outerX : Enclosing :=
  ⟨⟨0, 1, 1⟩, false, Bytes.ofString "X", Bytes.ofString "r"⟩

/-- The binder that is nearer to the name. -/
def innerX : Enclosing :=
  ⟨⟨10, 1, 11⟩, true, Bytes.ofString "X", Bytes.ofString "s"⟩

/-- The name of both, in the body of the inner one. -/
def nameX : Expr :=
  .var ⟨17, 1, 18⟩ (Bytes.ofString "X")

/-- The two binders, parsed. -/
def shadowingExpr : Expr :=
  .fix outerX.pos outerX.least outerX.var outerX.base
    (.seq ⟨8, 1, 9⟩ (.atom ⟨8, 1, 9⟩ (Bytes.ofString "a") none)
      (.fix innerX.pos innerX.least innerX.var innerX.base nameX))

theorem shadowing_parsed : parse shadowing = .ok shadowingExpr := parse_of_same (by decide +kernel)

/-- A compiler over both bases. -/
def shadowingCompiler : Compiler :=
  fresh Builtin.registries ⟨⟨⟨.bool, 1⟩, none, false, false⟩,
    [(Bytes.ofString "r", Base.bool 1), (Bytes.ofString "s", Base.bool 1)], 0⟩

end Sample

/-- The sample variable is that of the binder that is nearer to it. -/
theorem variables_resolved_sample : parse Sample.shadowing = .ok Sample.shadowingExpr ∧
    (Sample.shadowingCompiler.compile false Sample.shadowing).result.isOk = true ∧
    Sample.shadowingExpr.Part [Sample.innerX, Sample.outerX] Sample.nameX ∧
    Sample.shadowingCompiler.Resolved Sample.shadowing Sample.shadowingExpr [Sample.innerX, Sample.outerX] ⟨17, 1, 18⟩
      (Bytes.ofString "X") Sample.innerX [Sample.outerX] := by
  have hpart : Sample.shadowingExpr.Part [Sample.innerX, Sample.outerX] Sample.nameX := .body (.right (.body .here))
  obtain ⟨g, outer, hresolved⟩ := (variables_resolved Sample.shadowing_parsed Sample.shadowingCompiler).2 _ _ _ hpart
  refine ⟨Sample.shadowing_parsed, by decide +kernel, hpart, ?_⟩
  cases hresolved.innermost with
  | here => exact hresolved
  | outside hname => exact absurd rfl hname

end ModalGraph
