import Mathlib.Tactic.Tauto
import ModalGraph.Proofs.Formula.Domain

/-!
# The domains that builtin operators give

Whatever the labels are, a builtin operator gives labels of the domain that is known from that of its operand: a psi the one of
`psiDomain`, a phi the one of `phiDomain`, and a sigma the one of `sigmaDomain`.
-/

namespace ModalGraph

/-- An operator that gives labels of a domain which depends on that of its operand only, on one graph and on a batch. -/
structure Psi.Gives (psi : Psi) (f : DType → DType) : Prop where
  single : ∀ {x y}, psi.single (some x) = .ok (some y) → y.dtype = f x.dtype
  multiple : ∀ {x index y}, psi.multiple (some x) index = .ok (some y) → y.dtype = f x.dtype

theorem pointwise_gives {width : Int → Int} {g : Labels → Except Failure Labels} {f : DType → DType}
    (hg : ∀ {x y}, g (some x) = .ok (some y) → y.dtype = f x.dtype) : (Psi.pointwise width g).Gives f := by
  refine ⟨hg, fun {x index y} h => ?_⟩
  cases index with
  | none => cases h
  | some index => exact hg h

theorem total_gives {width : Int → Int} {g : Tensor → Tensor} {f : DType → DType} (hg : ∀ x, (g x).dtype = f x.dtype) :
    (Psi.total width g).Gives f :=
  pointwise_gives fun {x y} h => by
    obtain rfl := Option.some.inj (Except.ok.inj h)
    exact hg x

theorem stored_gives {width : Int → Int} {g : Tensor → Option Tensor} {f : DType → DType}
    (hg : ∀ {x y}, g x = some y → y.dtype = f x.dtype) : (Psi.stored width g).Gives f :=
  pointwise_gives fun {_ _} h => hg (Psi.stored_ok width h)

theorem constant_gives {d : DType} (v : Label) {f : DType → DType} (hf : ∀ d', d = f d') : (Builtin.constant d v).Gives f := by
  refine stored_gives fun {x y} h => ?_
  obtain ⟨rfl, -⟩ := Tensor.full?_some h
  exact (Tensor.full_dtype _ _ _).trans (hf x.dtype)

theorem reduceRows_gives {width : Int → Int} (d : DType) (g : List Label → Label) {f : DType → DType} (hf : ∀ d', d = f d') :
    (Psi.stored width fun x => x.reduceRows? d g).Gives f := by
  refine stored_gives fun {x y} h => ?_
  obtain ⟨-, rfl⟩ := Tensor.reduceRows?_some h
  exact hf x.dtype

theorem difference_gives : Builtin.difference.Gives id := by
  refine pointwise_gives fun {x y} h => ?_
  obtain ⟨-, rfl⟩ := Builtin.differences_ok (x := x) (y := y) h
  rfl

theorem dtype_repeatRows {t y : Tensor} {counts : List Int} (h : t.repeatRows counts = .ok y) : y.dtype = t.dtype := by
  unfold Tensor.repeatRows at h
  split at h
  · cases h
  · split at h
    · cases h
    · dsimp only at h
      split at h
      · obtain rfl := Except.ok.inj h
        rfl
      · cases h

theorem dtype_spreadOne {name : Bytes} {x : Labels} {t y : Tensor} (h : Psi.spreadOne name x t = .ok (some y)) :
    y.dtype = t.dtype := by
  unfold Psi.spreadOne at h
  split at h
  · cases h
  · obtain ⟨_, _, h⟩ := bind_ok h
    obtain ⟨u, hu, huy⟩ := map_ok h
    exact Option.some.inj huy ▸ dtype_repeatRows hu

theorem dtype_spreadAll {name : Bytes} {counts : List Nat} {t y : Tensor} (h : Psi.spreadAll name counts t = .ok (some y)) :
    y.dtype = t.dtype := by
  unfold Psi.spreadAll at h
  split at h
  · cases h
  · obtain ⟨u, hu, huy⟩ := map_ok h
    exact Option.some.inj huy ▸ dtype_repeatRows hu

theorem dtype_segmentReduce {t y : Tensor} {index : List Int} {d : DType} {init : Label} {f : Label → Label → Label}
    (h : t.segmentReduce index d init f = .ok y) : y.dtype = d := by
  unfold Tensor.segmentReduce at h
  split at h
  · cases h
  · obtain ⟨_, _, h⟩ := bind_ok h
    split at h
    · cases h
    · obtain rfl := Except.ok.inj h
      rfl

theorem pool_gives (name : String) (init : Label) (f : Label → Label → Label) : (Builtin.pool name init f).Gives id := by
  refine ⟨fun {x y} h => ?_, fun {x index y} h => ?_⟩
  · obtain ⟨t, ht, h⟩ := bind_ok h
    obtain ⟨-, rfl⟩ := Builtin.poolAll_ok (x := x) ht
    exact dtype_spreadOne (t := Tensor.ofRows x.cols x.dtype [Builtin.pooledRow init f x]) h
  · cases index with
    | none => cases h
    | some index =>
      obtain ⟨counts, _, h⟩ := bind_ok h
      obtain ⟨t, ht, h⟩ := bind_ok h
      exact (dtype_spreadAll h).trans (dtype_segmentReduce ht)

/-- Every builtin psi gives labels of the domain that is known in advance. -/
theorem psi_gives {name : Bytes} {arg : Argument} {psi : Psi} (h : Builtin.psi.get name arg = .ok psi) :
    psi.Gives (psiDomain name arg) := by
  have hsame : ∀ {name : String} {arg : Argument} {psi : Psi}, name ∈ ["id", "one", "min", "sub", "gsum", "gmax"] → psi.Gives id →
      psi.Gives (psiDomain (Bytes.ofString name) arg) := fun {_ arg _} hname hpsi =>
    ⟨fun h => (hpsi.single h).trans (psiDomain_same hname arg _).symm, fun h => (hpsi.multiple h).trans (psiDomain_same hname arg _).symm⟩
  have hevery : Builtin.psi.Every fun name arg psi => psi.Gives (psiDomain name arg) := by
    refine Builtin.psi_every ?_ ?_ ?_ ?_ ?_ ?_ ?_ ?_ ?_ ?_ ?_
    · exact fun name hname arg k =>
        total_gives fun x => (psiDomain_bool (List.mem_append_left ["true", "false", "and", "or", "not"] hname) arg _).symm
    · exact fun arg v => constant_gives v fun _ => rfl
    · exact fun name hname arg v => constant_gives v fun _ =>
        (psiDomain_bool (by simp only [List.mem_cons, List.not_mem_nil, or_false] at hname ⊢; tauto) arg _).symm
    · exact fun arg => reduceRows_gives .bool _ fun _ => rfl
    · exact fun arg => reduceRows_gives .bool _ fun _ => rfl
    · exact fun arg => total_gives fun x => rfl
    · exact fun arg => hsame (by simp) (pointwise_gives fun h => by rw [← Option.some.inj (Except.ok.inj h)]; rfl)
    · exact fun arg => hsame (by simp) (total_gives fun x => rfl)
    · exact fun name hname arg =>
        hsame (by simp only [List.mem_cons, List.not_mem_nil, or_false] at hname ⊢; tauto) difference_gives
    · exact fun arg => hsame (by simp) (pool_gives ..)
    · exact fun arg => hsame (by simp) (pool_gives ..)
  exact hevery.get h

/-! ## Messages -/

theorem dtype_gather {t y : Tensor} {idx : List Int} (h : t.gather idx = .ok y) : y.dtype = t.dtype := by
  obtain ⟨rows, _, rfl⟩ := Tensor.gather_ok h
  rfl

theorem dtype_scatterReduce {t y : Tensor} {target : List Int} {n : Int} {d : DType} {init empty : Label}
    {f : Label → Label → Label} (h : t.scatterReduce target n d init empty f = .ok y) : y.dtype = d := by
  unfold Tensor.scatterReduce at h
  split at h
  · cases h
  · split at h
    · cases h
    · split at h
      · cases h
      · split at h
        · cases h
        · obtain rfl := Except.ok.inj h
          rfl

/-- Every builtin sigma folds messages into a domain of its own or into theirs. -/
theorem sigma_gathers {key : Bytes} {op : Sigma} (h : Builtin.sigma.resolve key = .ok op) :
    ∃ dtype init empty f, op = Builtin.gather dtype init empty f ∧ ∀ d', dtype.getD d' = sigmaDomain key d' := by
  have hevery : Builtin.sigma.Every fun name _ op => ∃ dtype init empty f, op = Builtin.gather dtype init empty f ∧
      ∀ d' : DType, dtype.getD d' = if ["or", "uor", "and"].any fun known => Bytes.ofString known == name then .bool else d' := by
    refine Builtin.sigma_every ?_ ?_
    · intro name hname arg init empty f
      refine ⟨some .bool, init, empty, f, rfl, fun d' => ?_⟩
      rw [if_pos]
      · rfl
      · exact List.any_eq_true.mpr ⟨name, hname, beq_self_eq_true _⟩
    · intro name hname arg init empty f
      refine ⟨none, init, empty, f, rfl, fun d' => ?_⟩
      simp only [List.mem_cons, List.not_mem_nil, or_false] at hname
      rcases hname with rfl | rfl | rfl <;> rfl
  exact hevery.resolve h

/-- Every builtin sigma gathers messages into the domain that is known in advance. -/
theorem sigma_gives {key : Bytes} {sigma : Sigma} (h : Builtin.sigma.resolve key = .ok sigma) {m y : Tensor} {targets : List Int}
    {n : Int} {x : Labels} (hy : sigma.aggregate (some m) targets n x = .ok (some y)) : y.dtype = sigmaDomain key m.dtype := by
  obtain ⟨dtype, init, empty, f, rfl, hdomain⟩ := sigma_gathers h
  obtain ⟨m', hm, hy⟩ := bind_ok hy
  obtain rfl : m = m' := Except.ok.inj hm
  obtain ⟨u, hu, huy⟩ := map_ok hy
  rw [← hdomain, ← Option.some.inj huy]
  exact dtype_scatterReduce hu

/-- Every builtin phi makes messages of the domain that is known in advance. -/
theorem phi_gives {key : Bytes} {phi : Phi} (h : Builtin.phi.resolve key = .ok phi) {edge d : DType} {source target m : Tensor}
    {e : Labels} (hsource : source.dtype = d) (htarget : target.dtype = d) (he : ∀ t, e = some t → t.dtype = edge)
    (hm : phi.messages (some source) e (some target) = .ok (some m)) : m.dtype = phiDomain edge d (some key) := by
  have hevery : Builtin.phi.Every fun name _ phi => phi.messages (some source) e (some target) = .ok (some m) →
      m.dtype = if name == Bytes.ofString "z" then .bool else if name == Bytes.ofString "edge" then edge else d := by
    refine Builtin.phi_every (fun _ hm => ?_) (fun _ hm => ?_) (fun _ hm => ?_) fun _ hm => ?_
    · obtain ⟨-, -, -, -, -, rfl⟩ := Builtin.zeroEdge_ok (e := e) (x := target) (y := m) hm
      rfl
    · obtain rfl := Option.some.inj (Except.ok.inj hm)
      exact hsource
    · obtain rfl := Option.some.inj (Except.ok.inj hm)
      exact htarget
    · cases e with
      | none => cases hm
      | some t =>
        obtain rfl := Option.some.inj (Except.ok.inj hm)
        exact he _ rfl
  exact hevery.resolve h hm

end ModalGraph
