import ModalGraph.Operator.Builtin
import ModalGraph.Proofs.Tensor.Rows

/-!
# What all operators of a registry have in common

A property that every operator offered to a registry has is one that every operator found in it has, whatever its argument
(`Registry.Every`). No builtin operator makes the caller give up.
-/

namespace ModalGraph

namespace Registry

variable {α : Type}

/-- Every operator that a registry can give has a property, which may depend on its name and its argument. -/
def Every (P : Bytes → Argument → α → Prop) (r : Registry α) : Prop :=
  ∀ entry ∈ r.entries, ∀ arg op, entry.2 arg = .ok op → P entry.1 arg op

variable {P : Bytes → Argument → α → Prop} {r : Registry α}

theorem every_empty (role : Role) : Every P (.empty role) := by
  intro entry hentry
  cases hentry

/-- The entries of a registry that several names were given constructors in, one after the other. -/
theorem mem_insertEach {β : Type} (make : β → Constructor α) {entries : List (String × β)} {entry : Bytes × Constructor α}
    (h : entry ∈ (entries.foldl (fun r (name, b) => r.insert (Bytes.ofString name) (make b)) r).entries) :
    entry ∈ r.entries ∨ ∃ e ∈ entries, entry = (Bytes.ofString e.1, make e.2) := by
  induction entries generalizing r with
  | nil => exact .inl h
  | cons e entries ih =>
    rcases ih h with hold | ⟨e', he', rfl⟩
    · rcases List.mem_cons.mp hold with rfl | hold
      · exact .inr ⟨e, List.mem_cons_self, rfl⟩
      · exact .inl (List.mem_filter.mp hold).1
    · exact .inr ⟨e', List.mem_cons_of_mem _ he', rfl⟩

/-- The entries of a registry that several constructors were offered to, one after the other. -/
theorem mem_insertAll {entries : List (String × Constructor α)} {entry : Bytes × Constructor α}
    (h : entry ∈ (entries.foldl (fun r (name, make) => r.insert (Bytes.ofString name) make) r).entries) :
    entry ∈ r.entries ∨ ∃ e ∈ entries, entry = (Bytes.ofString e.1, e.2) :=
  mem_insertEach (fun make => make) h

/-- The entries of a registry that several operators were offered to, one after the other. -/
theorem mem_registerAll {entries : List (String × α)} {entry : Bytes × Constructor α}
    (h : entry ∈ (entries.foldl (fun r (name, op) => r.register (Bytes.ofString name) op) r).entries) :
    entry ∈ r.entries ∨ ∃ e ∈ entries, entry = (Bytes.ofString e.1, fun _ => .ok e.2) :=
  mem_insertEach (fun op _ => .ok op) h

/-- A plain operator is made whatever its argument. -/
theorem made_of_plain {role : Role} {entries : List (String × α)} {entry : Bytes × Constructor α} {arg : Argument} {f : Failure}
    (h : entry ∈ (entries.foldl (fun r (name, op) => r.register (Bytes.ofString name) op) (empty role)).entries) :
    entry.2 arg ≠ .error f := by
  intro hfail
  rcases mem_registerAll h with hold | ⟨e, -, rfl⟩
  · cases hold
  · cases hfail

/-- Several constructors offered one after the other. -/
theorem Every.insertAll (h : r.Every P) {entries : List (String × Constructor α)}
    (hall : ∀ e ∈ entries, ∀ arg op, e.2 arg = .ok op → P (Bytes.ofString e.1) arg op) :
    (entries.foldl (fun r (name, make) => r.insert (Bytes.ofString name) make) r).Every P := by
  intro entry hentry
  rcases mem_insertAll hentry with hold | ⟨e, he, rfl⟩
  · exact h entry hold
  · exact hall e he

/-- Several operators offered one after the other. -/
theorem Every.registerAll (h : r.Every P) {entries : List (String × α)} (hall : ∀ e ∈ entries, ∀ arg, P (Bytes.ofString e.1) arg e.2) :
    (entries.foldl (fun r (name, op) => r.register (Bytes.ofString name) op) r).Every P := by
  intro entry hentry arg op hop
  rcases mem_registerAll hentry with hold | ⟨e, he, rfl⟩
  · exact h entry hold arg op hop
  · exact Except.ok.inj hop ▸ hall e he arg

/-- An operator that is found. -/
theorem Every.get (h : r.Every P) {name : Bytes} {arg : Argument} {op : α} (hget : r.get name arg = .ok op) : P name arg op := by
  unfold Registry.get at hget
  split at hget
  · cases hget
  · rename_i make hfind
    have hmake : make arg = .ok op := by
      have := outcome_eq_ok.mpr hget
      rw [outcome_inPlace] at this
      exact outcome_eq_ok.mp this
    obtain ⟨l₁, l₂, hsplit, _⟩ := List.lookup_eq_some_iff.mp hfind
    exact h (name, make) (by rw [hsplit]; simp) arg op hmake

theorem Every.resolve (h : r.Every P) {key : Bytes} {op : α} (hget : r.resolve key = .ok op) :
    P (parseKey key).1 (parseKey key).2 op :=
  h.get hget

/-- An operator that is not found has no entry, or its entry fails to make it. -/
theorem get_error {name : Bytes} {arg : Argument} {f : Failure} (h : r.get name arg = .error f) :
    (∃ role key, f = .unknownOperator role key) ∨
      ∃ entry ∈ r.entries, ∃ place g, entry.2 arg = .error g ∧ f = .within place g := by
  unfold Registry.get at h
  split at h
  · exact .inl ⟨_, _, (Except.error.inj h).symm⟩
  · rename_i make hfind
    obtain ⟨l₁, l₂, hsplit, -⟩ := List.lookup_eq_some_iff.mp hfind
    cases hmake : make arg with
    | ok op =>
      rw [hmake] at h
      cases h
    | error g =>
      rw [hmake] at h
      exact .inr ⟨(name, make), by rw [hsplit]; simp, _, g, hmake, (Except.error.inj h).symm⟩

/-- A plain operator that is not found is unknown. -/
theorem unknown_of_plain {role : Role} {entries : List (String × α)} {name : Bytes} {arg : Argument} {f : Failure}
    (h : (entries.foldl (fun r (name, op) => r.register (Bytes.ofString name) op) (empty role)).get name arg = .error f) :
    ∃ role key, f = .unknownOperator role key := by
  rcases get_error h with hunknown | ⟨entry, hentry, place, g, hfail, rfl⟩
  · exact hunknown
  · exact absurd hfail (made_of_plain hentry)

end Registry

/-- Some registries fail to give an operator. -/
inductive Registries.Raises (ops : Registries) : Failure → Prop where
  | psi {name : Bytes} {arg : Argument} {f : Failure} : ops.psi.get name arg = .error f → Raises ops f
  | sigma {key : Bytes} {f : Failure} : ops.sigma.resolve key = .error f → Raises ops f
  | phi {key : Bytes} {f : Failure} : ops.phi.resolve key = .error f → Raises ops f

/-- What some registries fail with is never a bare complaint of a constructor. -/
theorem Registries.Raises.elim {ops : Registries} {f : Failure} (h : ops.Raises f) :
    (∃ role key, f = .unknownOperator role key) ∨ ∃ place g, f = .within place g := by
  cases h with
  | psi hget | sigma hget | phi hget =>
    refine (Registry.get_error hget).imp_right ?_
    rintro ⟨-, -, place, g, -, rfl⟩
    exact ⟨place, g, rfl⟩

/-- Registries of which no operator makes the caller give up. -/
def Registries.Calm (ops : Registries) : Prop :=
  ∀ name arg psi, ops.psi.get name arg = .ok psi → psi.interrupts = false

theorem makeBit_ok {arg : Argument} {op : Psi} (h : Builtin.makeBit arg = .ok op) : ∃ k, op = Builtin.bit k := by
  unfold Builtin.makeBit at h
  split at h
  · cases h
  · split at h
    · split at h
      · exact ⟨_, (Except.ok.inj h).symm⟩
      · cases h
    · cases h

theorem makeBit_error {arg : Argument} {f : Failure} (h : Builtin.makeBit arg = .error f) : ∃ fault, f = .argument fault := by
  unfold Builtin.makeBit at h
  split at h
  · exact ⟨_, (Except.error.inj h).symm⟩
  · split at h
    · split at h
      · cases h
      · exact ⟨_, (Except.error.inj h).symm⟩
    · exact ⟨_, (Except.error.inj h).symm⟩

/-- The domain of a constant. -/
def constantDomain : Argument → DType
  | none => .float64
  | some text =>
    if Text.lower (Text.trim text) == Bytes.ofString "true" || Text.lower (Text.trim text) == Bytes.ofString "false" then .bool
    else .float64

theorem makeConstant_ok {arg : Argument} {op : Psi} (h : Builtin.makeConstant arg = .ok op) :
    ∃ v, op = Builtin.constant (constantDomain arg) v := by
  unfold Builtin.makeConstant at h
  unfold constantDomain
  split at h
  · cases h
  · dsimp only at h ⊢
    split at h
    · rename_i htrue
      refine ⟨Label.one, ?_⟩
      rw [htrue, Bool.true_or]
      exact (Except.ok.inj h).symm
    · rename_i htrue
      split at h
      · rename_i hfalse
        refine ⟨Label.zero, ?_⟩
        rw [hfalse, Bool.or_true]
        exact (Except.ok.inj h).symm
      · rename_i hfalse
        rw [Bool.not_eq_true _ |>.mp htrue, Bool.not_eq_true _ |>.mp hfalse]
        split at h
        · exact ⟨_, (Except.ok.inj h).symm⟩
        · cases h

theorem makeConstant_error {arg : Argument} {f : Failure} (h : Builtin.makeConstant arg = .error f) : ∃ fault, f = .argument fault := by
  unfold Builtin.makeConstant at h
  split at h
  · exact ⟨_, (Except.error.inj h).symm⟩
  · dsimp only at h
    split at h
    · cases h
    · split at h
      · cases h
      · split at h
        · cases h
        · exact ⟨_, (Except.error.inj h).symm⟩

@[simp] theorem Builtin.registries_psi : registries.psi = psi := rfl

@[simp] theorem Builtin.registries_sigma : registries.sigma = sigma := rfl

@[simp] theorem Builtin.registries_phi : registries.phi = phi := rfl

/-- A property of all builtin psi. -/
theorem Builtin.psi_every {P : Bytes → Argument → Psi → Prop}
    (hbit : ∀ name ∈ ["bit", "a", "b", "c"], ∀ arg k, P (Bytes.ofString name) arg (bit k))
    (hconst : ∀ arg v, P (Bytes.ofString "const") arg (constant (constantDomain arg) v))
    (htruth : ∀ name ∈ ["true", "false"], ∀ arg v, P (Bytes.ofString name) arg (constant .bool v))
    (hand : ∀ arg, P (Bytes.ofString "and") arg conjunction) (hor : ∀ arg, P (Bytes.ofString "or") arg disjunction)
    (hnot : ∀ arg, P (Bytes.ofString "not") arg negation) (hid : ∀ arg, P (Bytes.ofString "id") arg identity)
    (hone : ∀ arg, P (Bytes.ofString "one") arg ones)
    (hmin : ∀ name ∈ ["min", "sub"], ∀ arg, P (Bytes.ofString name) arg difference)
    (hsum : ∀ arg, P (Bytes.ofString "gsum") arg (pool "gsum" Label.zero Label.add))
    (hmax : ∀ arg, P (Bytes.ofString "gmax") arg (pool "gmax" Label.negInf Label.max)) : Builtin.psi.Every P := by
  refine ((Registry.every_empty .psi).insertAll ?_).registerAll ?_
  · intro e he arg op hop
    simp only [List.mem_cons, List.not_mem_nil, or_false] at he
    rcases he with rfl | rfl
    · obtain ⟨k, rfl⟩ := makeBit_ok hop
      exact hbit "bit" (by simp) arg k
    · obtain ⟨v, rfl⟩ := makeConstant_ok hop
      exact hconst arg v
  · intro e he arg
    simp only [List.mem_cons, List.not_mem_nil, or_false] at he
    rcases he with rfl | rfl | rfl | rfl | rfl | rfl | rfl | rfl | rfl | rfl | rfl | rfl | rfl | rfl
    · exact hbit "a" (by simp) arg 0
    · exact hbit "b" (by simp) arg 1
    · exact hbit "c" (by simp) arg 2
    · exact htruth "true" (by simp) arg Label.one
    · exact htruth "false" (by simp) arg Label.zero
    · exact hand arg
    · exact hor arg
    · exact hnot arg
    · exact hid arg
    · exact hone arg
    · exact hmin "min" (by simp) arg
    · exact hmin "sub" (by simp) arg
    · exact hsum arg
    · exact hmax arg

/-- A property of all builtin sigma. -/
theorem Builtin.sigma_every {P : Bytes → Argument → Sigma → Prop}
    (htruth : ∀ name ∈ ["or", "uor", "and"], ∀ arg init empty f, P (Bytes.ofString name) arg (gather (some .bool) init empty f))
    (hsame : ∀ name ∈ ["sum", "max", "min"], ∀ arg init empty f, P (Bytes.ofString name) arg (gather none init empty f)) :
    Builtin.sigma.Every P := by
  refine (Registry.every_empty .sigma).registerAll ?_
  intro e he arg
  simp only [List.mem_cons, List.not_mem_nil, or_false] at he
  rcases he with rfl | rfl | rfl | rfl | rfl | rfl
  · exact htruth "or" (by simp) arg _ _ _
  · exact htruth "uor" (by simp) arg _ _ _
  · exact htruth "and" (by simp) arg _ _ _
  · exact hsame "sum" (by simp) arg _ _ _
  · exact hsame "max" (by simp) arg _ _ _
  · exact hsame "min" (by simp) arg _ _ _

/-- A property of all builtin phi. -/
theorem Builtin.phi_every {P : Bytes → Argument → Phi → Prop}
    (hzero : ∀ arg, P (Bytes.ofString "z") arg ⟨fun _ e t => zeroEdge e t, Width.same⟩)
    (hsource : ∀ arg, P (Bytes.ofString "src") arg ⟨fun s _ _ => .ok s, Width.same⟩)
    (htarget : ∀ arg, P (Bytes.ofString "tgt") arg ⟨fun _ _ t => .ok t, Width.same⟩)
    (hedge : ∀ arg, P (Bytes.ofString "edge") arg ⟨fun _ e _ => edgeLabels e, Width.unknown⟩) : Builtin.phi.Every P := by
  refine (Registry.every_empty .phi).registerAll ?_
  intro e he arg
  simp only [List.mem_cons, List.not_mem_nil, or_false] at he
  rcases he with rfl | rfl | rfl | rfl
  · exact hzero arg
  · exact hsource arg
  · exact htarget arg
  · exact hedge arg

/-! ## What builtin operators come to where they give a result -/

/-- A pointwise operator whose result there is room for. -/
theorem Psi.stored_ok (width : Int → Int) {f : Tensor → Option Tensor} {x y : Tensor}
    (h : (Psi.stored width f).single (some x) = .ok (some y)) : f x = some y := by
  obtain ⟨_, hx, h⟩ := bind_ok h
  obtain rfl := Except.ok.inj hx
  obtain ⟨z, hz, hzy⟩ := map_ok h
  exact Option.some.inj hzy ▸ orAborted_ok hz

namespace Builtin

variable {x y : Tensor}

theorem differences_ok (h : differences x = .ok (some y)) :
    ¬x.cols < 2 ∧ y = Tensor.ofRows (x.cols - 1) x.dtype (x.rowList.map (rowDifferences x.dtype)) := by
  rw [differences] at h
  split at h
  · cases h
  · rename_i hcols
    obtain ⟨rows, hrows, h⟩ := bind_ok h
    obtain rfl := Tensor.rowsInto_ok hrows
    exact ⟨hcols, (Option.some.inj (Except.ok.inj h)).symm⟩

theorem poolAll_ok {init : Label} {f : Label → Label → Label} (h : poolAll init f x = .ok y) :
    (0 ≤ x.cols ∧ x.cols ≤ Tensor.capacity ∧ x.rowsReach = true) ∧ y = Tensor.ofRows x.cols x.dtype [pooledRow init f x] := by
  rw [poolAll] at h
  split at h
  · cases h
  · rename_i hroom
    simp only [not_or, Int.not_lt, Bool.not_eq_true', Bool.not_eq_false] at hroom
    exact ⟨hroom, (Except.ok.inj h).symm⟩

theorem zeroEdge_ok {e : Labels} (h : zeroEdge e (some x) = .ok (some y)) : ∃ e', e = some e' ∧ (e'.cols = 1 ∨ e'.cols = x.cols) ∧
    ∃ rows, x.rowList.zipIdx.mapM (fun p => zeroEdgeRow e' p.2 p.1) = .ok rows ∧ y = Tensor.ofRows x.cols .bool rows := by
  cases e with
  | none => cases h
  | some e' =>
    obtain ⟨_, hx, h⟩ := bind_ok h
    obtain rfl := Except.ok.inj hx
    dsimp only at h
    split at h
    · cases h
    · rename_i hcols
      obtain ⟨rows, hrows, h⟩ := bind_ok h
      obtain rfl := Tensor.rowsInto_ok hrows
      obtain ⟨out, hout, h⟩ := bind_ok h
      exact ⟨e', rfl, by omega, out, hout, (Option.some.inj (Except.ok.inj h)).symm⟩

end Builtin

/-! ## What is not found -/

/-- A builtin sigma that is not found is unknown. -/
theorem Builtin.sigma_unknown {key : Bytes} {f : Failure} (h : Builtin.sigma.resolve key = .error f) :
    ∃ role key, f = .unknownOperator role key :=
  Registry.unknown_of_plain h

/-- A builtin phi that is not found is unknown. -/
theorem Builtin.phi_unknown {key : Bytes} {f : Failure} (h : Builtin.phi.resolve key = .error f) :
    ∃ role key, f = .unknownOperator role key :=
  Registry.unknown_of_plain h

/-- A builtin operator that is not there is unknown, or has an argument that is not usable. -/
theorem Builtin.registries_raise {f : Failure} (h : Builtin.registries.Raises f) :
    (∃ role key, f = .unknownOperator role key) ∨ ∃ place fault, f = .within place (.argument fault) := by
  cases h with
  | psi hget =>
    refine (Registry.get_error hget).imp_right ?_
    rintro ⟨entry, hentry, place, g, hfail, rfl⟩
    rcases Registry.mem_registerAll hentry with hold | ⟨e, -, rfl⟩
    · rcases Registry.mem_insertAll hold with hold | ⟨e, he, rfl⟩
      · cases hold
      · simp only [List.mem_cons, List.not_mem_nil, or_false] at he
        rcases he with rfl | rfl
        · obtain ⟨fault, rfl⟩ := makeBit_error hfail
          exact ⟨place, fault, rfl⟩
        · obtain ⟨fault, rfl⟩ := makeConstant_error hfail
          exact ⟨place, fault, rfl⟩
    · cases hfail
  | sigma hget => exact .inl (sigma_unknown hget)
  | phi hget => exact .inl (phi_unknown hget)

/-- No builtin operator makes the caller give up. -/
theorem Builtin.registries_calm : Builtin.registries.Calm := by
  have h : Builtin.psi.Every fun _ _ op => op.interrupts = false := by
    refine psi_every ?_ ?_ ?_ ?_ ?_ ?_ ?_ ?_ ?_ ?_ ?_
    all_goals intros; rfl
  exact fun name arg psi hget => h.get hget

end ModalGraph
