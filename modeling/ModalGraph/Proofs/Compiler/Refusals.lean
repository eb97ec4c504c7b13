import ModalGraph.Proofs.Compiler.Resolution

/-!
# Why a formula is refused

The text of a formula that was parsed is refused for one of six reasons, each of them at a part of the formula
(`Compiler.Refuses`): an operator that cannot be made, edges that are not there, an aggregation or a message that cannot be made, a
base that is not there or has no row to start from, and a body that is not as wide as its base (`compile_refuses`). With builtin
operators and settings that make sense, each of these is a failure with a label of its own, but for the argument of an operator that
is not usable and a base without a row to start from (`Compiler.Unlabelled`).
-/

namespace ModalGraph

open Formula

/-- A failure that is told, and counted under one of some labels. -/
def Failure.Labelled (labels : List String) (f : Failure) : Prop :=
  f.result ∈ labels ∧ ¬ f.BreaksOff

/-! ## Settings that make sense -/

/-- Complaints are no success unless there are none. -/
theorem Failure.ofList_eq_none {fs : List Failure} (h : Failure.ofList fs = none) : fs = [] := by
  match fs with
  | [] => rfl
  | [f] => cases h
  | f :: g :: fs => cases h

/-- Nothing is wrong with the bases of settings that make sense. -/
theorem Settings.base_faults {settings : Settings} (h : settings.validate = .ok ()) {name : Bytes} {base : Base}
    (hbase : settings.base? name = some base) : base.faults name = [] := by
  have hnone : Failure.ofList settings.faults = none := by
    rw [Settings.validate] at h
    cases hfaults : Failure.ofList settings.faults with
    | none => rfl
    | some f =>
      rw [hfaults] at h
      cases h
  have hfaults := Failure.ofList_eq_none hnone
  rw [Settings.faults, List.append_eq_nil_iff, List.append_eq_nil_iff, List.flatMap_eq_nil_iff] at hfaults
  obtain ⟨⟨-, hbases⟩, -⟩ := hfaults
  obtain ⟨before, after, hsplit, -⟩ := List.lookup_eq_some_iff.mp hbase
  exact hbases (name, base) (List.mem_mergeSort.mpr (by rw [hsplit]; simp))

/-- In settings that make sense, a base has a row to start from, or no value is set for it. -/
theorem Settings.base_start {settings : Settings} (h : settings.validate = .ok ()) {name : Bytes} {base : Base}
    (hbase : settings.base? name = some base) {least : Bool} {f : Failure} (hinit : base.init least = .error f) :
    base.start least = none ∧ f = .setting (.noInitialValue (Base.startName least)) := by
  have hfaults := settings.base_faults h hbase
  have hstart : base.startFaults name least = [] := by
    rw [Base.faults] at hfaults
    split at hfaults
    · cases hfaults
    · rw [List.append_eq_nil_iff, List.append_eq_nil_iff] at hfaults
      cases least with
      | true => exact hfaults.1.2
      | false => exact hfaults.2
  have hfault := Base.init_eq_error.mp hinit
  cases hvalue : base.start least with
  | none =>
    rw [Base.initFault?, hvalue] at hfault
    exact ⟨rfl, (Option.some.inj hfault).symm⟩
  | some vs =>
    rw [Base.startFaults, hvalue, hfault] at hstart
    cases hstart

namespace Compiler

/-- The settings of a compiler make sense. -/
theorem Reachable.validate {ops : Registries} {settings : Settings} {c : Compiler} (h : Reachable ops settings c) :
    settings.validate = .ok () := by
  induction h with
  | new h =>
    obtain ⟨_, hvalid, -⟩ := bind_ok h
    cases hcheck : settings.validate with
    | ok => rfl
    | error f =>
      rw [hcheck] at hvalid
      cases hvalid
  | compile _ _ _ ih => exact ih
  | compileExpr _ _ _ ih => exact ih

/-! ## The part at fault -/

/-- Why a compiler refuses a formula: the part at fault, and what is wrong with it. -/
inductive Refuses (c : Compiler) (e : Expr) : Failure → Prop where
  | psi {fs : List Enclosing} {pos : Position} {name : Bytes} {arg : Argument} {f : Failure} :
      e.Part fs (.atom pos name arg) → c.ops.psi.get name arg = .error f → Refuses c e f
  | edges {fs : List Enclosing} {pos : Position} {direction : Direction} {phi : Option Bytes} {sigma : Bytes} :
      e.Part fs (.diamond pos direction phi sigma) → c.settings.input.adjacency = false →
        Refuses c e (c.noAdjacency (Expr.diamondKey direction phi sigma))
  | sigma {fs : List Enclosing} {pos : Position} {direction : Direction} {phi : Option Bytes} {sigma : Bytes} {f : Failure} :
      e.Part fs (.diamond pos direction phi sigma) → c.ops.sigma.resolve sigma = .error f → Refuses c e f
  | phi {fs : List Enclosing} {pos : Position} {direction : Direction} {phi sigma : Bytes} {f : Failure} :
      e.Part fs (.diamond pos direction (some phi) sigma) → c.ops.phi.resolve phi = .error f → Refuses c e f
  | base {fs : List Enclosing} {pos : Position} {least : Bool} {v baseName : Bytes} {body : Expr} {f : Failure} :
      e.Part fs (.fix pos least v baseName body) → c.fixpointBase least baseName = .error f → Refuses c e f
  | width {fs : List Enclosing} {pos : Position} {least : Bool} {v baseName : Bytes} {body : Expr} {base : Base} {width : Int} :
      e.Part fs (.fix pos least v baseName body) → width ≠ unknownWidth → width ≠ base.width →
        Refuses c e (.shape ⟨Bytes.ofString "fixpoint " ++ v, .bodyWidth width baseName base.width⟩)

variable {c : Compiler} {e : Expr} {f : Failure}

/-- A message operator that cannot be made has a key. -/
theorem phi?_error_some {phiKey : Option Bytes} (h : c.phi? phiKey = .error f) :
    ∃ key, phiKey = some key ∧ c.ops.phi.resolve key = .error f := by
  cases phiKey with
  | none => cases h
  | some key =>
    refine ⟨key, rfl, ?_⟩
    cases hget : c.ops.phi.resolve key with
    | error g =>
      rw [phi?, hget] at h
      cases h
      rfl
    | ok op =>
      rw [phi?, hget] at h
      cases h

/-- Where compiling a well-formed formula fails, a part of it is at fault. -/
theorem Call.Fails.refuses {k : Call} {fs : List Enclosing} (hk : (c.call e).Comes c fs k) (hfails : k.Fails c f)
    (he : e.WellFormed []) : c.Refuses e f := by
  have hpart : e.Part fs k.formula := hk.part
  have hformula := hpart.wellFormed he
  cases hfails with
  | atom hnode =>
    rcases bind_error hnode with hget | ⟨op, -, hnode⟩
    · exact .psi hpart hget
    · cases hnode
  | empty => exact absurd hformula.1 (by simp)
  | edges hadj => exact .edges hpart hadj
  | diamond hnode =>
    rcases bind_error hnode with hget | ⟨sigma, -, hnode⟩
    · exact .sigma hpart hget
    · rcases bind_error hnode with hphi | ⟨phi, -, hnode⟩
      · obtain ⟨key, rfl, hget⟩ := phi?_error_some hphi
        exact .phi hpart hget
      · cases hnode
  | @var _ _ name _ _ hnone =>
    -- The variable is one of those that are bound around it, and these are all in scope.
    have hbound : name ∈ fs.map Enclosing.var ++ [] := hformula
    rw [List.append_nil] at hbound
    obtain ⟨g, outer, hg⟩ := exists_innermost hbound
    obtain ⟨-, base, -, hsome⟩ := hk.lookup_eq hg
    cases hnone.symm.trans hsome
  | base hstart => exact .base hpart hstart
  | @width _ _ _ _ _ _ base _ _ _ _ hcheck =>
    unfold checkBodyWidth at hcheck
    split at hcheck
    · rename_i hwidth
      cases hcheck
      exact .width hpart hwidth.1 hwidth.2
    · cases hcheck
  | hole => exact hformula.elim

/-- The text of a formula that was parsed is refused for a part of it. -/
theorem compile_refuses {src : Bytes} (h : parse src = .ok e) (hf : (c.compile false src).result = .error f) : c.Refuses e f := by
  rw [compile_of_parse h, compileAs, if_neg (by simp)] at hf
  rcases hrun : (c.expr [] e c.input).run { store := c.store } with ⟨x, p⟩
  rw [hrun] at hf
  cases x with
  | error g =>
    cases hf
    obtain ⟨fs, k, hk, hfails⟩ := expr_fails e hrun
    exact hfails.refuses hk (parse_wellFormed h)
  | ok out => cases hf

/-! ## Refusals without a label -/

/-- The refusals that are counted as failures of no particular kind. -/
inductive Unlabelled (c : Compiler) (e : Expr) : Failure → Prop where
  /-- The argument of an operator is not usable. -/
  | argument {fs : List Enclosing} {pos : Position} {name : Bytes} {arg : Argument} {place : String} {fault : ArgumentFault} :
      e.Part fs (.atom pos name arg) → c.ops.psi.get name arg = .error (.within place (.argument fault)) →
        Unlabelled c e (.within place (.argument fault))
  /-- No value is set that a fixpoint could start from. -/
  | start {fs : List Enclosing} {pos : Position} {least : Bool} {v baseName : Bytes} {body : Expr} {base : Base} :
      e.Part fs (.fix pos least v baseName body) → c.settings.base? baseName = some base → base.start least = none →
        Unlabelled c e (.within s!"fixpoint {baseName.toText}" (.setting (.noInitialValue (Base.startName least))))

theorem Unlabelled.result_eq (h : c.Unlabelled e f) : f.result = Failure.genericLabel := by
  cases h with
  | argument => rfl
  | start => rfl

theorem Unlabelled.told (h : c.Unlabelled e f) : ¬ f.BreaksOff := by
  cases h with
  | argument => exact nofun
  | start => exact nofun

/-- The labels of the other refusals. -/
def refusalLabels : List String :=
  ["unknown_op", "mode_mismatch", "shape_err"]

/-- With builtin operators and settings that make sense, a refusal has a label of its own, or is one of those that have none. -/
theorem Refuses.builtin (h : c.Refuses e f) (hops : c.ops = Builtin.registries) (hvalid : c.settings.validate = .ok ()) :
    f.Labelled refusalLabels ∨ c.Unlabelled e f := by
  have hunknown : (∃ role key, f = .unknownOperator role key) → f.Labelled refusalLabels := by
    rintro ⟨role, key, rfl⟩
    exact ⟨show "unknown_op" ∈ refusalLabels by decide, nofun⟩
  cases h with
  | psi hpart hget =>
    have hraise : c.ops.Raises f := .psi hget
    rcases Builtin.registries_raise (hops ▸ hraise) with hname | ⟨place, fault, rfl⟩
    · exact .inl (hunknown hname)
    · exact .inr (.argument hpart hget)
  | edges => exact .inl ⟨show "mode_mismatch" ∈ refusalLabels by decide, nofun⟩
  | sigma _ hget =>
    rw [hops] at hget
    exact .inl (hunknown (Builtin.sigma_unknown hget))
  | phi _ hget =>
    rw [hops] at hget
    exact .inl (hunknown (Builtin.phi_unknown hget))
  | base hpart hstart =>
    rcases fixpointBase_error hstart with rfl | ⟨base, g, hbase, hinit, rfl⟩
    · exact .inl (hunknown ⟨_, _, rfl⟩)
    · obtain ⟨hnone, rfl⟩ := c.settings.base_start hvalid hbase hinit
      exact .inr (.start hpart hbase hnone)
  | width => exact .inl ⟨show "shape_err" ∈ refusalLabels by decide, nofun⟩

end Compiler

end ModalGraph
