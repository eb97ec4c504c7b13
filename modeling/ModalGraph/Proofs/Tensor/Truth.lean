import Mathlib.Data.Finset.Card
import Mathlib.Logic.Function.Iterate
import ModalGraph.Proofs.Tensor.Rows

/-!
# Tensors of truth values

A tensor of truth values has every label equal to 0 or to 1 (`Tensor.IsTruth`); its domain may be any. Such tensors of one shape are
ordered label by label (`Tensor.AtMost`). Applying a monotone function to such a tensor again and again, from one that the function
moves up, moves it up every time, or else the function stands still on it. A tensor has finitely many labels that can still go up, so
it stands still after at most as many steps (`exists_settled`). The same holds downwards; `Tensor.Toward` has both directions.
-/

namespace ModalGraph

/-- A function that takes some room whenever it does not stand still stands still after at most as many applications as there is
room. -/
theorem exists_standing {α : Type} {f : α → α} {P : α → Prop} (same : α → α → Prop) (room : α → Nat) (hstep : ∀ x, P x → P (f x))
    (hroom : ∀ x, P x → ¬same (f x) x → room (f x) < room x) {x : α} (hx : P x) :
    ∃ k ≤ room x, (∀ i < k, ¬same (f^[i + 1] x) (f^[i] x)) ∧ same (f^[k + 1] x) (f^[k] x) := by
  induction hr : room x using Nat.strong_induction_on generalizing x with
  | _ r ih =>
    by_cases heq : same (f x) x
    · exact ⟨0, Nat.zero_le _, fun i hi => absurd hi (Nat.not_lt_zero i), heq⟩
    · have hlt := hroom x hx heq
      obtain ⟨k, hk, hbefore, hat⟩ := ih _ (hr ▸ hlt) (hstep x hx) rfl
      refine ⟨k + 1, by omega, fun i hi => ?_, hat⟩
      cases i with
      | zero => exact heq
      | succ i => exact hbefore i (Nat.lt_of_succ_lt_succ hi)

namespace Label

/-- A label is 0 or 1. -/
def IsTruth (v : Label) : Prop :=
  v.isZero = true ∨ v = one

theorem isTruth_ofBool (b : Bool) : (ofBool b).IsTruth := by
  cases b
  · exact .inl (by decide)
  · exact .inr rfl

@[simp] theorem isZero_ofBool (b : Bool) : (ofBool b).isZero = !b := by
  cases b <;> decide

@[simp] theorem isZero_zero : zero.isZero = true := by decide

@[simp] theorem isZero_one : one.isZero = false := by decide

theorem isNaN_of_isZero {v : Label} (h : v.isZero = true) : v.isNaN = false := by
  have hm : v.magnitude = 0 := by simpa [isZero] using h
  rw [isNaN, hm]
  decide

theorem rank_of_isZero {v : Label} (h : v.isZero = true) : v.rank = 0 := by
  have hm : v.magnitude = 0 := by simpa [isZero] using h
  rw [rank, hm]
  split <;> rfl

/-- Truth values are in order unless the first is 1 and the second is 0. -/
theorem less_eq_false {a b : Label} (ha : a.IsTruth) (hb : b.IsTruth) : b.less a = false ↔ (b.isZero = true → a.isZero = true) := by
  have hone : one.isNaN = false ∧ ¬(one.rank < one.rank) ∧ ¬(one.rank < 0) ∧ 0 < one.rank := by decide
  rcases ha with ha | rfl
  · simp only [less, isNaN_of_isZero ha, rank_of_isZero ha, ha, implies_true, iff_true]
    rcases hb with hb | rfl
    · simp [rank_of_isZero hb]
    · simp [hone]
  · rcases hb with hb | rfl
    · simp [less, isNaN_of_isZero hb, rank_of_isZero hb, hb, hone]
    · simp [less, hone]

/-- Truth values are equal if both are 0 or neither is. -/
theorem same_iff {a b : Label} (ha : a.IsTruth) (hb : b.IsTruth) : a.same b = true ↔ a.isZero = b.isZero := by
  have hone : one.isNaN = false ∧ one.rank ≠ 0 ∧ 0 ≠ one.rank := by decide
  rcases ha with ha | rfl
  · rcases hb with hb | rfl
    · simp [same, isNaN_of_isZero, rank_of_isZero, ha, hb]
    · simp [same, isNaN_of_isZero, rank_of_isZero, ha, hone]
  · rcases hb with hb | rfl
    · simp [same, isNaN_of_isZero, rank_of_isZero, hb, hone]
    · simp [same, hone]

end Label

namespace Tensor

/-- A tensor of `n` rows and `w` columns with every label 0 or 1. -/
structure IsTruth (n w : Nat) (x : Tensor) : Prop extends Shaped n w x where
  labels : ∀ v ∈ x.data, v.IsTruth

/-- Every label is at most the one at the same place in the other tensor. -/
def AtMost (x y : Tensor) : Prop :=
  ∀ (k : Nat) (a b : Label), x.data[k]? = some a → y.data[k]? = some b → b.less a = false

/-- The second tensor is at least the first one on the way up, at most the first one on the way down. -/
def Toward (up : Bool) (x y : Tensor) : Prop :=
  if up then x.AtMost y else y.AtMost x

/-- Whether the label at a place is not 0. -/
def truth (x : Tensor) (k : Nat) : Bool :=
  !(x.data[k]?.getD Label.zero).isZero

section

variable {n w : Nat} {x y z : Tensor}

theorem IsTruth.getElem?_isTruth (hx : x.IsTruth n w) {k : Nat} {a : Label} (ha : x.data[k]? = some a) : a.IsTruth :=
  hx.labels a (Array.mem_of_getElem? ha)

theorem IsTruth.getElem?_some (hx : x.IsTruth n w) {k : Nat} (hk : k < n * w) : ∃ a, x.data[k]? = some a ∧ x.truth k = !a.isZero := by
  have hk' : k < x.data.size := hx.size_eq ▸ hk
  refine ⟨x.data[k], Array.getElem?_eq_getElem hk', ?_⟩
  rw [truth, Array.getElem?_eq_getElem hk', Option.getD_some]

theorem IsTruth.atMost_iff (hx : x.IsTruth n w) (hy : y.IsTruth n w) :
    x.AtMost y ↔ ∀ k < n * w, x.truth k = true → y.truth k = true := by
  constructor
  · intro h k hk
    obtain ⟨a, ha, hxa⟩ := hx.getElem?_some hk
    obtain ⟨b, hb, hyb⟩ := hy.getElem?_some hk
    have := (Label.less_eq_false (hx.getElem?_isTruth ha) (hy.getElem?_isTruth hb)).mp (h k a b ha hb)
    rw [hxa, hyb]
    grind
  · intro h k a b ha hb
    have hk : k < n * w := hx.size_eq ▸ (Array.getElem?_eq_some_iff.mp ha).1
    have hxy := h k hk
    rw [truth, truth, ha, hb, Option.getD_some, Option.getD_some] at hxy
    refine (Label.less_eq_false (hx.getElem?_isTruth ha) (hy.getElem?_isTruth hb)).mpr ?_
    grind

/-- On the way up, what is true stays true; on the way down, what is false stays false. -/
theorem IsTruth.toward_iff {up : Bool} (hx : x.IsTruth n w) (hy : y.IsTruth n w) :
    x.Toward up y ↔ ∀ k < n * w, x.truth k = up → y.truth k = up := by
  cases up with
  | true => exact hx.atMost_iff hy
  | false =>
    refine (hy.atMost_iff hx).trans (forall₂_congr fun k _ => ?_)
    cases x.truth k <;> cases y.truth k <;> simp

theorem IsTruth.equal_iff (hx : x.IsTruth n w) (hy : y.IsTruth n w) : x.equal y = true ↔ ∀ k < n * w, x.truth k = y.truth k := by
  have hsize : x.data.size = y.data.size := hx.size_eq.trans hy.size_eq.symm
  have hall : x.equal y = true ↔ ∀ (k : Nat) (a b : Label), x.data[k]? = some a → y.data[k]? = some b → a.same b = true := by
    simp only [equal, hx.rows_eq, hy.rows_eq, hx.cols_eq, hy.cols_eq, hsize, beq_self_eq_true, Bool.true_and, List.all_eq_true]
    constructor
    · intro h k a b ha hb
      refine h (a, b) (List.mem_iff_getElem?.mpr ⟨k, ?_⟩)
      rw [List.getElem?_zip_eq_some]
      simpa using ⟨ha, hb⟩
    · rintro h ⟨a, b⟩ hab
      obtain ⟨k, hk⟩ := List.mem_iff_getElem?.mp hab
      rw [List.getElem?_zip_eq_some] at hk
      exact h k a b (by simpa using hk.1) (by simpa using hk.2)
  rw [hall]
  constructor
  · intro h k hk
    obtain ⟨a, ha, hxa⟩ := hx.getElem?_some hk
    obtain ⟨b, hb, hyb⟩ := hy.getElem?_some hk
    rw [hxa, hyb, (Label.same_iff (hx.getElem?_isTruth ha) (hy.getElem?_isTruth hb)).mp (h k a b ha hb)]
  · intro h k a b ha hb
    have hk : k < n * w := hx.size_eq ▸ (Array.getElem?_eq_some_iff.mp ha).1
    have hxy := h k hk
    rw [truth, truth, ha, hb, Option.getD_some, Option.getD_some] at hxy
    exact (Label.same_iff (hx.getElem?_isTruth ha) (hy.getElem?_isTruth hb)).mpr (by simpa using hxy)

/-! ## Steps in one direction -/

/-- How many labels of a tensor can still change in a direction. -/
def room (up : Bool) (size : Nat) (x : Tensor) : Nat :=
  ((Finset.range size).filter fun k => x.truth k ≠ up).card

theorem room_le (up : Bool) (size : Nat) (x : Tensor) : x.room up size ≤ size := by
  refine (Finset.card_filter_le _ _).trans ?_
  rw [Finset.card_range]

/-- A step that changes something leaves less room. -/
theorem IsTruth.room_lt {up : Bool} (hx : x.IsTruth n w) (hy : y.IsTruth n w) (h : x.Toward up y) (hne : y.equal x ≠ true) :
    y.room up (n * w) < x.room up (n * w) := by
  rw [hx.toward_iff hy] at h
  rw [Ne, hy.equal_iff hx] at hne
  push Not at hne
  obtain ⟨k, hk, hyx⟩ := hne
  refine Finset.card_lt_card (Finset.ssubset_iff_of_subset ?_ |>.mpr ⟨k, ?_, ?_⟩)
  · intro i hi
    rw [Finset.mem_filter, Finset.mem_range] at hi ⊢
    exact ⟨hi.1, fun hxi => hi.2 (h i hi.1 hxi)⟩
  · rw [Finset.mem_filter, Finset.mem_range]
    exact ⟨hk, fun hxk => hyx ((h k hk hxk).trans hxk.symm)⟩
  · rw [Finset.mem_filter, not_and, not_not]
    intro _
    have := h k hk
    cases up <;> grind

theorem IsTruth.toward_trans {up : Bool} (hx : x.IsTruth n w) (hy : y.IsTruth n w) (hz : z.IsTruth n w) (hxy : x.Toward up y)
    (hyz : y.Toward up z) : x.Toward up z := by
  rw [hx.toward_iff hy] at hxy
  rw [hy.toward_iff hz] at hyz
  exact (hx.toward_iff hz).mpr fun k hk h => hyz k hk (hxy k hk h)

theorem IsTruth.toward_of_equal {up : Bool} (hx : x.IsTruth n w) (hy : y.IsTruth n w) (h : x.equal y = true) : x.Toward up y := by
  rw [hx.equal_iff hy] at h
  exact (hx.toward_iff hy).mpr fun k hk hk' => (h k hk).symm.trans hk'

end

/-- A function on tensors of truth values that keeps their order. -/
structure Ascends (n w : Nat) (f : Tensor → Tensor) : Prop where
  isTruth : ∀ x, x.IsTruth n w → (f x).IsTruth n w
  monotone : ∀ x y, x.IsTruth n w → y.IsTruth n w → x.AtMost y → (f x).AtMost (f y)

section

variable {n w : Nat} {f : Tensor → Tensor} {up : Bool} {x : Tensor}

theorem Ascends.toward (hf : Ascends n w f) {y : Tensor} (hx : x.IsTruth n w) (hy : y.IsTruth n w) (h : x.Toward up y) :
    (f x).Toward up (f y) := by
  cases up with
  | true => exact hf.monotone x y hx hy h
  | false => exact hf.monotone y x hy hx h

theorem Ascends.iterate_isTruth (hf : Ascends n w f) (hx : x.IsTruth n w) (i : Nat) : (f^[i] x).IsTruth n w := by
  induction i with
  | zero => exact hx
  | succ i ih =>
    rw [Function.iterate_succ_apply']
    exact hf.isTruth _ ih

/-- Every application goes on in the direction of the first one. -/
theorem Ascends.iterate_toward (hf : Ascends n w f) (hx : x.IsTruth n w) (h : x.Toward up (f x)) (i : Nat) :
    (f^[i] x).Toward up (f^[i + 1] x) := by
  induction i with
  | zero => exact h
  | succ i ih =>
    rw [Function.iterate_succ_apply', Function.iterate_succ_apply' f (i + 1)]
    exact hf.toward (hf.iterate_isTruth hx i) (hf.iterate_isTruth hx (i + 1)) ih

/-- No application goes beyond a tensor that the function moves back or not at all. -/
theorem Ascends.iterate_bounded (hf : Ascends n w f) (hx : x.IsTruth n w) {y : Tensor} (hy : y.IsTruth n w) (hxy : x.Toward up y)
    (h : (f y).Toward up y) (i : Nat) : (f^[i] x).Toward up y := by
  induction i with
  | zero => exact hxy
  | succ i ih =>
    rw [Function.iterate_succ_apply']
    have hi := hf.iterate_isTruth hx i
    exact (hf.isTruth _ hi).toward_trans (hf.isTruth y hy) hy (hf.toward hi hy ih) h

/-- The function stands still after at most as many applications as there is room. -/
theorem Ascends.exists_settled (hf : Ascends n w f) (hx : x.IsTruth n w) (h : x.Toward up (f x)) :
    ∃ k ≤ x.room up (n * w), (∀ i < k, (f^[i + 1] x).equal (f^[i] x) = false) ∧ (f^[k + 1] x).equal (f^[k] x) = true := by
  have hsteps : ∀ y, y.IsTruth n w ∧ y.Toward up (f y) → (f y).IsTruth n w ∧ (f y).Toward up (f (f y)) :=
    fun y hy => ⟨hf.isTruth y hy.1, hf.toward hy.1 (hf.isTruth y hy.1) hy.2⟩
  have hroom : ∀ y, y.IsTruth n w ∧ y.Toward up (f y) → ¬(f y).equal y = true → (f y).room up (n * w) < y.room up (n * w) :=
    fun y hy hne => hy.1.room_lt (hf.isTruth y hy.1) hy.2 hne
  obtain ⟨k, hk, hbefore, hat⟩ := exists_standing (fun y z => y.equal z = true) (room up (n * w)) hsteps hroom ⟨hx, h⟩
  exact ⟨k, hk, fun i hi => (Bool.not_eq_true _).mp (hbefore i hi), hat⟩

end

end Tensor

end ModalGraph
