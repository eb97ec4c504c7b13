import Mathlib.Data.Fintype.Prod
import Mathlib.Data.List.OfFn
import Mathlib.Order.CompletePartialOrder
import ModalGraph.Proofs.Evaluator.Room
import ModalGraph.Proofs.Operator.Truth

/-!
# Positive formulas compute their sets

On truth values, a positive formula gives a tensor that shows the sets it stands for, or else some widths do not fit. Inside a
fixpoint the assignments of the iteration show the families that the body makes of nothing, or of all nodes, step by step. These grow,
or shrink, so that they stand still before the default limit is reached, at the least or the greatest family that the body brings
back to itself.
-/

namespace ModalGraph

open Formula

section

variable {n : Nat}

theorem Agrees.imp {M M' : Prop} {y : Except Failure Tensor} {ss : Features n} (h : Agrees M y ss) (hM : M' → M) : Agrees M' y ss :=
  h.imp_right (And.imp_left (mt hM))

theorem Agrees.bind {M : Prop} {y : Except Failure Tensor} {ss ss' : Features n} {f : Tensor → Except Failure Tensor}
    (h : Agrees M y ss) (hf : ∀ x, Shows x ss → Agrees M (f x) ss') : Agrees M (y >>= f) ss' := by
  rcases h with ⟨x, rfl, hx⟩ | ⟨hM, e, rfl, he⟩
  · exact hf x hx
  · exact .inr ⟨hM, e, rfl, he⟩

/-! ## Fixpoints -/

namespace LogicAux

/-- A label by its place, and the set it belongs to. -/
theorem Shows.truth_iff {x : Tensor} {ss : Features n} (h : Shows x ss) (v : Fin n) {j : Nat} {S : Set (Fin n)}
    (hS : ss[j]? = some S) : x.truth (v * ss.length + j) = true ↔ v ∈ S := by
  have hj : j < ss.length := (List.getElem?_eq_some_iff.mp hS).1
  have hlen : j < (x.row v).length := by rwa [Tensor.length_row h.shaped v.isLt]
  have ha := List.getElem?_eq_getElem hlen
  rw [Tensor.truth, ← Tensor.getElem?_row h.shaped hj, ha, Option.getD_some, Bool.not_eq_true']
  exact (TruthAux.marks_getElem? (h.rows v) ha hS).2

/-- Tensors that show sets of the same number are equal if the sets are. -/
theorem Shows.equal_iff {x y : Tensor} {ss ss' : Features n} (hx : Shows x ss) (hy : Shows y ss') (hlen : ss.length = ss'.length) :
    x.equal y = true ↔ ss = ss' := by
  have hyt : y.IsTruth n ss.length := hlen ▸ hy.isTruth
  rw [hx.isTruth.equal_iff hyt]
  constructor
  · intro h
    refine List.ext_getElem hlen fun j hj hj' => Set.ext fun v => ?_
    rw [← Shows.truth_iff hx v (List.getElem?_eq_getElem hj), ← Shows.truth_iff hy v (List.getElem?_eq_getElem hj'), ← hlen, h]
    calc v * ss.length + j < v * ss.length + ss.length := by omega
      _ = (v + 1) * ss.length := by ring
      _ ≤ n * ss.length := Nat.mul_le_mul_right _ v.isLt
  · rintro rfl k hk
    have hpos : 0 < ss.length := Nat.pos_of_mul_pos_left (Nat.zero_lt_of_lt hk)
    have hmod := Nat.mod_lt k hpos
    have hdiv : k / ss.length < n := Nat.div_lt_of_lt_mul (by rwa [Nat.mul_comm])
    have hplace : (⟨k / ss.length, hdiv⟩ : Fin n) * ss.length + k % ss.length = k := Nat.div_add_mod' k ss.length
    have hget := List.getElem?_eq_getElem hmod
    have hxk := Shows.truth_iff hx ⟨k / ss.length, hdiv⟩ hget
    have hyk := Shows.truth_iff hy ⟨k / ss.length, hdiv⟩ hget
    rw [hplace] at hxk hyk
    rw [Bool.eq_iff_iff, hxk, hyk]

/-- The family that a fixpoint starts from. -/
def startFamily (n w : Nat) (least : Bool) : Fin w → Set (Fin n) :=
  if least then ⊥ else ⊤

theorem truthStart_shows (w : Nat) (least : Bool) : Shows (truthStart n w least) (List.ofFn (startFamily n w least)) := by
  have hcast : DType.cast .bool (Label.ofBool !least) = Label.ofBool !least := by
    rw [DType.cast, Label.isZero_ofBool, Bool.not_not]
  have hrow : ∀ v : Fin n, List.Forall₂ (Marks v) (List.replicate w (Label.ofBool !least)) (List.ofFn (startFamily n w least)) := by
    intro v
    refine List.forall₂_iff_zip.mpr ⟨by rw [List.length_replicate, List.length_ofFn], fun {a S} hzip => ?_⟩
    obtain ⟨ha, hS⟩ := List.of_mem_zip hzip
    obtain rfl := List.eq_of_mem_replicate ha
    obtain ⟨j, rfl⟩ := List.mem_ofFn.mp hS
    refine ⟨Label.isTruth_ofBool _, ?_⟩
    rw [Label.isZero_ofBool]
    cases least <;> simp [startFamily]
  have hlen : (List.ofFn (startFamily n w least)).length = (List.replicate w (Label.ofBool !least)).length := by
    rw [List.length_replicate, List.length_ofFn]
  rw [truthStart, Tensor.full_eq, List.map_replicate, hcast, ← hlen]
  exact shows_ofRows (fun _ => List.replicate w (Label.ofBool !least)) hrow

variable {w : Nat} {F : (Fin w → Set (Fin n)) → Fin w → Set (Fin n)} {least : Bool}

/-- Families one after the other in a direction. -/
def familyToward (up : Bool) (T T' : Fin w → Set (Fin n)) : Prop :=
  if up then T ≤ T' else T' ≤ T

theorem familyToward_start (T : Fin w → Set (Fin n)) : familyToward least (startFamily n w least) T := by
  cases least with
  | true => exact bot_le
  | false => exact le_top

theorem familyToward_map (hF : Monotone F) {T T' : Fin w → Set (Fin n)} (h : familyToward least T T') :
    familyToward least (F T) (F T') := by
  cases least with
  | true => exact hF h
  | false => exact hF h

open Classical in
/-- How many places of a family can still change in a direction. -/
noncomputable def familyRoom (up : Bool) (T : Fin w → Set (Fin n)) : Nat :=
  (Finset.univ.filter fun p : Fin n × Fin w => ¬(p.1 ∈ T p.2 ↔ up = true)).card

theorem familyRoom_le (up : Bool) (T : Fin w → Set (Fin n)) : familyRoom up T ≤ n * w := by
  classical
  refine (Finset.card_le_univ _).trans ?_
  rw [Fintype.card_prod, Fintype.card_fin, Fintype.card_fin]

theorem familyRoom_lt {up : Bool} {T T' : Fin w → Set (Fin n)} (h : familyToward up T T') (hne : T' ≠ T) :
    familyRoom up T' < familyRoom up T := by
  classical
  have hplace : ∀ v j, (v ∈ T j ↔ up = true) → (v ∈ T' j ↔ up = true) := by
    intro v j
    cases up with
    | true => simpa using @h j v
    | false =>
      have := @h j v
      simp only [Bool.false_eq_true, iff_false]
      exact fun hv hv' => hv (this hv')
  obtain ⟨j, v, hv⟩ : ∃ j v, ¬(v ∈ T' j ↔ v ∈ T j) := by
    by_contra hall
    push Not at hall
    exact hne (funext fun j => Set.ext fun v => hall j v)
  refine Finset.card_lt_card (Finset.ssubset_iff_of_subset (fun p hp => ?_) |>.mpr ⟨(v, j), ?_, ?_⟩)
  · rw [Finset.mem_filter] at hp ⊢
    exact ⟨hp.1, fun hT => hp.2 (hplace p.1 p.2 hT)⟩
  · rw [Finset.mem_filter]
    refine ⟨Finset.mem_univ _, fun hT => hv ?_⟩
    rw [hT, hplace v j hT]
  · rw [Finset.mem_filter, not_and, not_not]
    intro _
    by_cases hT : v ∈ T j ↔ up = true
    · exact hplace v j hT
    · grind

/-- A family that a monotone function stands still at, after some steps from the start, is the least or the greatest one. -/
theorem iterate_eq_extremal (hF : Monotone F) {k : Nat}
    (hk : F^[k + 1] (startFamily n w least) = F^[k] (startFamily n w least)) :
    F^[k] (startFamily n w least) = extremal least F := by
  rw [Function.iterate_succ_apply'] at hk
  cases least with
  | true =>
    refine le_antisymm (le_sInf fun T hT => ?_) (sInf_le hk.le)
    have hbound : ∀ i, F^[i] (startFamily n w true) ≤ T := by
      intro i
      induction i with
      | zero => exact bot_le
      | succ i ih =>
        rw [Function.iterate_succ_apply']
        exact (hF ih).trans hT
    exact hbound k
  | false =>
    refine le_antisymm (le_sSup hk.ge) (sSup_le fun T hT => ?_)
    have hbound : ∀ i, T ≤ F^[i] (startFamily n w false) := by
      intro i
      induction i with
      | zero => exact le_top
      | succ i ih =>
        rw [Function.iterate_succ_apply']
        exact le_trans hT (hF ih)
    exact hbound k

/-- From the start, a monotone function stands still after at most as many steps as there are places. -/
theorem exists_still (hF : Monotone F) (least : Bool) : ∃ k ≤ n * w,
    (∀ i < k, F^[i + 1] (startFamily n w least) ≠ F^[i] (startFamily n w least)) ∧
      F^[k + 1] (startFamily n w least) = F^[k] (startFamily n w least) := by
  have hsteps : ∀ T, familyToward least T (F T) → familyToward least (F T) (F (F T)) := fun T hT => familyToward_map hF hT
  have hroom : ∀ T, familyToward least T (F T) → ¬F T = T → familyRoom least (F T) < familyRoom least T :=
    fun T hT hne => familyRoom_lt hT hne
  obtain ⟨k, hk, hbefore, hat⟩ := exists_standing (· = ·) (familyRoom least) hsteps hroom (familyToward_start (F (startFamily n w least)))
  exact ⟨k, hk.trans (familyRoom_le _ _), hbefore, hat⟩

/-- An iteration that shows the families of a monotone function ends at the family where it stands still. -/
theorem settle_agrees {M : Prop} {body : Tensor → Except Failure Tensor}
    (hbody : ∀ A (T : Fin w → Set (Fin n)), Shows A (List.ofFn T) → Agrees M (body A) (List.ofFn (F T))) {start : Fin w → Set (Fin n)}
    {k : Nat} (hbefore : ∀ i < k, F^[i + 1] start ≠ F^[i] start) (hat : F^[k + 1] start = F^[k] start) (limit : Nat) :
    ∀ (remaining i : Nat) (A : Tensor), i ≤ k → k - i < remaining → Shows A (List.ofFn (F^[i] start)) →
      Agrees M (settle limit body remaining A) (List.ofFn (F^[k] start)) := by
  intro remaining
  induction remaining with
  | zero => exact fun i A _ hlt _ => absurd hlt (Nat.not_lt_zero _)
  | succ remaining ih =>
    intro i A hi hlt hA
    rw [settle]
    refine (hbody A _ hA).bind fun next hnext => ?_
    rw [← Function.iterate_succ_apply' F] at hnext
    have hequal : next.equal A = true ↔ F^[i + 1] start = F^[i] start := by
      rw [Shows.equal_iff hnext hA (by rw [List.length_ofFn, List.length_ofFn]), List.ofFn_inj]
    by_cases hik : i = k
    · subst hik
      rw [if_pos (hequal.mpr hat)]
      exact .inl ⟨A, rfl, hA⟩
    · have hne := hbefore i (Nat.lt_of_le_of_ne hi hik)
      rw [if_neg fun h => hne (hequal.mp h)]
      exact ih (i + 1) next (by omega) (by omega) hnext

/-- What a body gives is refused if it has another number of features than its base. -/
theorem assigned_agrees {s : Scene} (hnodes : s.nodes = n) {M : Prop} {body : Tensor → Except Failure Tensor} {A : Tensor}
    {ss : Features n} (h : Agrees M (body A) ss) (hM : M → ss.length = w) : Agrees M (s.assigned w body A) (List.ofFn (family w ss)) := by
  rw [Scene.assigned]
  refine h.bind fun out hout => ?_
  rw [hout.shaped.rows_eq, hout.shaped.cols_eq, hnodes]
  by_cases hw : ss.length = w
  · subst hw
    have hfamily : List.ofFn (family ss.length ss) = ss := by
      refine List.ext_getElem (by rw [List.length_ofFn]) fun j hj hj' => ?_
      rw [List.getElem_ofFn, family, List.getElem?_eq_getElem hj', Option.getD_some]
    rw [if_pos ⟨rfl, rfl⟩, hfamily]
    exact .inl ⟨out, rfl, hout⟩
  · rw [if_neg (by simpa using hw)]
    exact .inr ⟨mt hM hw, _, rfl, rfl⟩

end LogicAux

open LogicAux

/-- A fixpoint whose body shows what a monotone function makes of families shows the least or the greatest family that the function
brings back to itself. -/
theorem fixpoint_agrees {s : Scene} (hnodes : s.nodes = n) (hlimit : s.maxIterations ≤ 0) {name : Bytes} {b : Base} {w : Nat}
    (hb : s.settings.base? name = some b) (htruth : b.IsTruth w) {least : Bool} {row : List Label} (hrow : b.init least = .ok row)
    (hroom : Tensor.Storable n w) {F : (Fin w → Set (Fin n)) → Fin w → Set (Fin n)} (hF : Monotone F) {M : Prop}
    {body : Tensor → Except Failure Tensor}
    (hbody : ∀ A (T : Fin w → Set (Fin n)), Shows A (List.ofFn T) → Agrees M (s.assigned w body A) (List.ofFn (F T))) :
    Agrees M (s.fixpoint least name body) (List.ofFn (extremal least F)) := by
  have hlen : row.length = w := by rw [htruth.init_eq hrow, List.length_replicate]
  have hstart : Tensor.full? s.nodes row b.dtype = some (truthStart n w least) := by
    rw [hnodes, Tensor.full?_eq (by rw [hlen]; exact hroom), htruth.init_eq hrow, htruth.dtype_eq, truthStart]
  have hturns : n * w < s.limit w := by
    rw [Scene.limit, if_neg (by omega), hnodes, Tensor.word_succ hroom]
    exact Nat.lt_of_lt_of_le (Nat.lt_succ_self _) (Nat.le_max_right _ _)
  obtain ⟨k, hk, hbefore, hat⟩ := exists_still hF least
  rw [Scene.fixpoint_eq_settle hb hrow hstart, hlen, ← iterate_eq_extremal hF hat]
  exact settle_agrees hbody hbefore hat _ _ 0 _ (Nat.zero_le _) (by omega) (truthStart_shows w least)

end

/-! ## As many sets as the labels are wide -/

section

variable {n : Nat}

/-- The widths of the variables. -/
def widths (ρ : List (Bytes × Features n)) : List (Bytes × Nat) :=
  ρ.map fun p => (p.1, p.2.length)

theorem lookup_widths (ρ : List (Bytes × Features n)) (name : Bytes) :
    ((widths ρ).lookup name).getD 0 = ((ρ.lookup name).getD []).length := by
  induction ρ with
  | nil => rfl
  | cons p ρ ih =>
    rw [widths, List.map_cons, List.lookup_cons, List.lookup_cons]
    split
    · rfl
    · exact ih

theorem Connective.length_sets (s : Scene) (op : Operand n) (c : Connective) :
    (c.sets s op).length = (c.psi.width (op.truth s).length).toNat := by
  cases c with
  | same => rfl
  | all | any | constant => rfl
  | bit k => exact Operand.length_bit s k op
  | not => exact List.length_map _

theorem phiWidth_of_carried {phi : Option Bytes} (h : (carried? phi).isSome = true) (edge w : Nat) : phiWidth edge w phi = w := by
  cases phi with
  | none => rfl
  | some key =>
    by_cases hkey : key ∈ [Bytes.ofString "src", Bytes.ofString "tgt", Bytes.ofString "z"]
    · simp only [List.mem_cons, List.not_mem_nil, or_false] at hkey
      rcases hkey with rfl | rfl | rfl <;> rfl
    · simp only [List.mem_cons, List.not_mem_nil, or_false, not_or] at hkey
      rw [carried?, if_neg hkey.1, if_neg hkey.2.1, if_neg hkey.2.2] at h
      cases h

mutual

/-- A positive formula stands for as many sets as its labels are wide. -/
theorem length_sets {s : Scene} (hops : s.ops = Builtin.registries) : ∀ (e : Expr) {scope : List Bytes} {levels : List Nat}
    (ρ : List (Bytes × Features n)) (op : Operand n), e.Positive s scope levels →
      (e.sets s ρ op).length = e.width s.ops s.settings (widths ρ) (op.truth s).length
  | .atom _ name arg, _, _, ρ, op, hpos => by
    obtain ⟨c, hc, _⟩ := hpos
    rw [Expr.sets, Expr.width, hc, hops]
    dsimp only
    rw [show Builtin.registries.psi.get name arg = .ok c.psi from get_connective hc]
    exact c.length_sets s op
  | .seq _ left right, _, _, ρ, op, hpos => by
    rw [Expr.sets, Expr.width, length_sets hops right ρ _ hpos.2, ← length_sets hops left ρ op hpos.1]
    rfl
  | .par _ children, _, _, ρ, op, hpos => by
    rw [Expr.sets, Expr.width]
    exact length_allSets hops children ρ op hpos
  | .diamond _ direction phi sigma, _, _, ρ, op, hpos => by
    obtain ⟨c, hc⟩ := Option.isSome_iff_exists.mp hpos.1
    obtain ⟨b, hb⟩ := Option.isSome_iff_exists.mp hpos.2
    rw [Expr.width, phiWidth_of_carried hpos.1, Expr.sets, hc, hb, List.length_mapIdx]
  | .fix _ least v base body, _, _, ρ, op, _ => by
    rw [Expr.sets, Expr.width, List.length_ofFn]
  | .var _ name, _, _, ρ, op, _ => by
    rw [Expr.sets, Expr.width, lookup_widths]
  | .hole, _, _, ρ, op, _ => rfl

/-- Several positive formulas stand for as many sets as their labels are wide side by side. -/
theorem length_allSets {s : Scene} (hops : s.ops = Builtin.registries) : ∀ (es : List Expr) {scope : List Bytes}
    {levels : List Nat} (ρ : List (Bytes × Features n)) (op : Operand n), Expr.AllPositive s scope levels es →
      (Expr.allSets s ρ op es).length = Expr.totalWidth s.ops s.settings (widths ρ) (op.truth s).length es
  | [], _, _, _, _, _ => rfl
  | e :: es, _, _, ρ, op, hpos => by
    rw [Expr.allSets, Expr.totalWidth, List.length_append, length_sets hops e ρ op hpos.1, length_allSets hops es ρ op hpos.2]

end

end

/-! ## Formulas -/

open LogicAux

mutual

/-- A formula that only tests its input: it applies nothing to it but tests of bits, negation, the two connectives and constants. -/
def Formula.Expr.TestsInput : Expr → Prop
  | .atom _ name arg => connective? name arg ≠ some .same
  | .seq _ left _ => left.TestsInput
  | .par _ children => Expr.AllTestInput children
  | .diamond .. => False
  | .fix _ _ _ _ body => body.TestsInput
  | .var .. => True
  | .hole => True

/-- Several formulas that only test their input. -/
def Formula.Expr.AllTestInput : List Expr → Prop
  | [] => True
  | e :: es => e.TestsInput ∧ Expr.AllTestInput es

end

mutual

/-- The widths in a formula match: a body is as wide as its base, and edge labels go with the labels of nodes. -/
def Formula.Expr.WidthsMatch (s : Scene) (ρ : List (Bytes × Nat)) (w : Nat) : Expr → Prop
  | .atom .. => True
  | .seq _ left right => left.WidthsMatch s ρ w ∧ right.WidthsMatch s ρ (left.width s.ops s.settings ρ w)
  | .par _ children => Expr.AllWidthsMatch s ρ w children
  | .diamond _ _ phi _ => s.EdgesMatch phi w
  | .fix _ _ v base body =>
    body.width s.ops s.settings ((v, s.settings.baseWidth base) :: ρ) w = s.settings.baseWidth base ∧
      body.WidthsMatch s ((v, s.settings.baseWidth base) :: ρ) w
  | .var .. => True
  | .hole => True

/-- The widths in several formulas match. -/
def Formula.Expr.AllWidthsMatch (s : Scene) (ρ : List (Bytes × Nat)) (w : Nat) : List Expr → Prop
  | [] => True
  | e :: es => e.WidthsMatch s ρ w ∧ Expr.AllWidthsMatch s ρ w es

end

/-- A scene in which positive formulas give sets: builtin operators, `n` nodes, edges between nodes with their labels where there are
edges, and the default limit. -/
structure Scene.Logical (s : Scene) (n : Nat) : Prop where
  ops_eq : s.ops = Builtin.registries
  nodes_eq : s.nodes = n
  input : ∃ w, s.input.x.Shaped n w
  edges : s.settings.input.adjacency = true → s.input.Joined n
  edgeLabels : s.settings.input.adjacency = true → ∀ e, s.edgeLabels = some e → ∃ w, e.Shaped s.edges w
  limit : s.maxIterations ≤ 0

section

variable {n : Nat}

/-- The labels that a formula may be applied to, for an operand: those of the input if they are truth values or only tested, and
otherwise labels that agree with the sets. -/
def Fed (s : Scene) (M onlyTested : Prop) (x : Except Failure Tensor) : Operand n → Prop
  | .raw => x = .ok s.input.x ∧ ((∀ a ∈ s.input.x.data, a.IsTruth) ∨ onlyTested)
  | .sets ss => Agrees M x ss

theorem Fed.imp {s : Scene} {M P Q : Prop} {x : Except Failure Tensor} {op : Operand n} (h : Fed s M P x op) (hPQ : P → Q) :
    Fed s M Q x op := by
  cases op with
  | raw => exact ⟨h.1, h.2.imp_right hPQ⟩
  | sets ss => exact h

/-- Operands that are not only tested agree with sets. -/
theorem Fed.agrees {s : Scene} (hs : s.Logical n) {M : Prop} {x : Except Failure Tensor} {op : Operand n} (h : Fed s M False x op) :
    Agrees M x (op.truth s) := by
  cases op with
  | raw =>
    obtain ⟨w, hw⟩ := hs.input
    exact .inl ⟨_, h.1, (raw_reads hw).shows (h.2.resolve_right id)⟩
  | sets ss => exact h

/-- An operator with a connective. -/
theorem Fed.atom {s : Scene} (hs : s.Logical n) {M : Prop} {x : Except Failure Tensor} {op : Operand n} {name : Bytes}
    {arg : Argument} (h : Fed s M (connective? name arg ≠ some .same) x op) {c : Connective} (hc : connective? name arg = some c)
    (hstore : Tensor.Storable n (c.sets s op).length) : Agrees M (x >>= s.atom name arg) (c.sets s op) := by
  cases op with
  | raw =>
    obtain ⟨w, hw⟩ := hs.input
    have hreads : (Operand.raw : Operand n).Reads s s.input.x := raw_reads hw
    have hsame : c = .same → Shows s.input.x ((Operand.raw : Operand n).truth s) := by
      rintro rfl
      exact hreads.shows (h.2.resolve_right fun hne => hne hc)
    rw [h.1]
    exact .inl (atom_shows hs.ops_eq hs.nodes_eq hc hreads hstore hsame)
  | sets ss => exact h.bind fun y hy => .inl (atom_shows hs.ops_eq hs.nodes_eq hc (hy.reads s) hstore fun _ => hy)

/-- Variables whose labels show their sets. -/
def Bound (ρ : Assignment) (σ : List (Bytes × Features n)) : Prop :=
  List.Forall₂ (fun p q => p.1 = q.1 ∧ Shows p.2 q.2) ρ σ

theorem Bound.lookup {ρ : Assignment} {σ : List (Bytes × Features n)} (h : Bound ρ σ) {name : Bytes} (hname : name ∈ σ.map Prod.fst) :
    ∃ x, ρ.lookup name = some x ∧ Shows x ((σ.lookup name).getD []) := by
  induction h with
  | nil => cases hname
  | @cons p q ρ σ hpq _ ih =>
    obtain ⟨v, x⟩ := p
    obtain ⟨v', ss⟩ := q
    obtain ⟨rfl, hx⟩ := hpq
    rw [List.lookup_cons, List.lookup_cons]
    by_cases hv : name = v
    · subst hv
      rw [beq_self_eq_true]
      exact ⟨x, rfl, hx⟩
    · rw [beq_eq_false_iff_ne.mpr hv]
      exact ih ((List.mem_cons.mp hname).resolve_left hv)

mutual

/-- A positive formula gives labels that show its sets, or fails because of shapes where widths do not match, if its labels can be
stored. Where it makes use of its operand, that must be fed to it. -/
theorem meaning_agrees {s : Scene} (hs : s.Logical n) {M : Prop} : ∀ (e : Expr) {levels : List Nat} {ρ : Assignment}
    {σ : List (Bytes × Features n)} {x : Except Failure Tensor} {op : Operand n} {P : Prop}, e.WellFormed (σ.map Prod.fst) →
      e.Accepted s.ops s.settings → e.Positive s (σ.map Prod.fst) levels → (∀ l ∈ levels, l < σ.length) →
        e.Fits n s.edges s.ops s.settings (widths σ) (op.truth s).length P →
          (M → e.WidthsMatch s (widths σ) (op.truth s).length) → Bound ρ σ → (P → Fed s M e.TestsInput x op) →
            Agrees M (meaning s ρ x e) (e.sets s σ op)
  | .atom pos name arg, _, _, σ, _, op, _, _, _, hpos, _, hfits, _, _, hx => by
    have hlen := length_sets hs.ops_eq (.atom pos name arg) σ op hpos
    have hstore := hfits.2.mono (le_psiRows _ _ _)
    obtain ⟨c, hc, _⟩ := hpos
    rw [← hlen, Expr.sets, hc] at hstore
    rw [meaning, Expr.sets, hc]
    exact (hx hfits.1).atom hs hc hstore
  | .seq _ left right, _, ρ, σ, x, op, _, hwf, hacc, hpos, hlevels, hfits, hM, hρ, hx => by
    have hM' : M → right.WidthsMatch s (widths σ) _ := fun h => (hM h).2
    rw [Expr.Fits, ← length_sets hs.ops_eq left σ op hpos.1] at hfits
    rw [← length_sets hs.ops_eq left σ op hpos.1] at hM'
    rw [meaning, Expr.sets]
    refine meaning_agrees hs right hwf.2 hacc.2 hpos.2 (levels_below left hlevels) hfits hM' hρ
      fun hleft => ?_
    exact meaning_agrees hs left hwf.1 hacc.1 hpos.1 hlevels hleft (fun h => (hM h).1) hρ hx
  | .par _ children, _, ρ, σ, x, op, _, hwf, hacc, hpos, hlevels, hfits, hM, hρ, hx => by
    obtain ⟨hstore, hwidth, hfits⟩ := hfits
    obtain ⟨sss, hflat, hall⟩ := meanings_agree hs children hwf.2 hacc hpos hlevels hfits hM hρ hx
    rw [meaning, Expr.sets]
    rcases hall with ⟨xs, hxs, hlen, hshows⟩ | ⟨hmatch, f, hf, hkind⟩
    · rw [← length_allSets hs.ops_eq children σ op hpos, hflat] at hstore hwidth
      have hne : xs ≠ [] := by
        rintro rfl
        have := hwf.1
        rw [List.length_nil] at hlen
        omega
      rw [hxs, hflat]
      exact .inl (concat_shows hshows hne hstore hwidth)
    · rw [hf]
      exact .inr ⟨hmatch, f, rfl, hkind⟩
  | .diamond _ direction phi sigma, _, ρ, σ, x, op, _, _, hacc, hpos, _, hfits, hM, _, hx => by
    obtain ⟨c, hc⟩ := Option.isSome_iff_exists.mp hpos.1
    obtain ⟨b, hb⟩ := Option.isSome_iff_exists.mp hpos.2
    obtain ⟨hoperand, hroom⟩ := hfits
    rw [Expr.width, phiWidth_of_carried hpos.1] at hroom
    rw [meaning, Expr.sets, hc, hb]
    refine ((hx hoperand).agrees hs).bind fun y hy => ?_
    exact (diamond_shows hs.ops_eq hs.nodes_eq (hs.edges hacc.1) hy hroom (hs.edgeLabels hacc.1) direction hc hb).imp hM
  | .fix _ least v base body, levels, ρ, σ, x, op, _, hwf, hacc, hpos, hlevels, hfits, hM, hρ, hx => by
    obtain ⟨⟨b, row, hb, hrow⟩, hbody⟩ := hacc
    obtain ⟨⟨b', hb', htruth⟩, hposBody⟩ := hpos
    obtain rfl : b = b' := Option.some.inj (hb.symm.trans hb')
    rw [meaning, Expr.sets]
    refine fixpoint_agrees hs.nodes_eq hs.limit hb htruth hrow hfits.1 (body_monotone s hposBody hlevels) fun A T hA => ?_
    have hwidths : widths ((v, List.ofFn T) :: σ) = (v, s.settings.baseWidth base) :: widths σ := by
      rw [widths, List.map_cons, List.length_ofFn, widths]
    refine assigned_agrees hs.nodes_eq (meaning_agrees hs body (σ := (v, List.ofFn T) :: σ) hwf.2.2 hbody hposBody
      (fun l hl => Nat.lt_succ_of_lt (hlevels l hl)) (hwidths ▸ hfits.2) (fun h => hwidths ▸ (hM h).2) (.cons ⟨rfl, hA⟩ hρ) hx)
      fun h => ?_
    rw [length_sets hs.ops_eq body _ op hposBody, hwidths]
    exact (hM h).1
  | .var _ name, _, ρ, σ, _, _, _, hwf, _, _, _, _, _, hρ, _ => by
    obtain ⟨y, hy, hshows⟩ := hρ.lookup hwf
    rw [meaning, hy, Expr.sets]
    exact .inl ⟨y, rfl, hshows⟩
  | .hole, _, _, _, _, _, _, hwf, _, _, _, _, _, _, _ => hwf.elim

/-- Several positive formulas give labels that show their sets, or one of them fails because of shapes where widths do not match. -/
theorem meanings_agree {s : Scene} (hs : s.Logical n) {M : Prop} : ∀ (es : List Expr) {levels : List Nat} {ρ : Assignment}
    {σ : List (Bytes × Features n)} {x : Except Failure Tensor} {op : Operand n} {P : Prop}, Expr.AllWellFormed (σ.map Prod.fst) es →
      Expr.AllAccepted s.ops s.settings es → Expr.AllPositive s (σ.map Prod.fst) levels es → (∀ l ∈ levels, l < σ.length) →
        Expr.AllFit n s.edges s.ops s.settings (widths σ) (op.truth s).length P es →
          (M → Expr.AllWidthsMatch s (widths σ) (op.truth s).length es) → Bound ρ σ → (P → Fed s M (Expr.AllTestInput es) x op) →
            ∃ sss : List (Features n), Expr.allSets s σ op es = sss.flatten ∧
              ((∃ xs, meanings s ρ x es = .ok xs ∧ xs.length = es.length ∧ List.Forall₂ Shows xs sss) ∨
                ¬M ∧ ShapeFails (meanings s ρ x es))
  | [], _, _, _, _, _, _, _, _, _, _, _, _, _, _ => ⟨[], rfl, .inl ⟨[], rfl, rfl, .nil⟩⟩
  | e :: es, _, ρ, σ, x, op, _, hwf, hacc, hpos, hlevels, hfits, hM, hρ, hx => by
    have he := meaning_agrees hs e hwf.1 hacc.1 hpos.1 hlevels hfits.1 (fun h => (hM h).1) hρ fun h => (hx h).imp And.left
    obtain ⟨sss, hflat, hes⟩ := meanings_agree hs es hwf.2 hacc.2 hpos.2 hlevels hfits.2 (fun h => (hM h).2) hρ
      fun h => (hx h).imp And.right
    refine ⟨e.sets s σ op :: sss, by rw [Expr.allSets, hflat, List.flatten_cons], ?_⟩
    rw [meanings]
    rcases he with ⟨y, hy, hyshows⟩ | ⟨hmatch, f, hf, hkind⟩
    · rcases hes with ⟨xs, hxs, hlen, hshows⟩ | ⟨hmatch, f, hf, hkind⟩
      · rw [hy, hxs]
        exact .inl ⟨y :: xs, rfl, congrArg Nat.succ hlen, .cons hyshows hshows⟩
      · rw [hy, hf]
        exact .inr ⟨hmatch, f, rfl, hkind⟩
    · rw [hf]
      exact .inr ⟨hmatch, f, rfl, hkind⟩

end

end

/-- A scene with an input that a model admits, and with labels that are as many as they claim to be. -/
theorem logical_of_admits {s : Scene} (hops : s.ops = Builtin.registries) (hadmits : s.settings.input.Admits s.input) {n w : Nat}
    (hx : s.input.x.Shaped n w) (hlabels : ∀ t ∈ s.input.e, t.WellFormed) (hdefault : s.maxIterations ≤ 0) : s.Logical n := by
  have hsound := Scene.Sound.of_admits hops hadmits (show s.nodes = n from hx.rows_eq) hlabels
  exact ⟨hops, hsound.nodes_eq, ⟨w, hx⟩, hsound.joined, fun ha e he => ⟨_, hsound.edgeLabels ha e he⟩, hdefault⟩

/-- Under the default limit, a model of a positive formula evaluates to labels that show the sets of the formula, on truth values or
on any labels that the formula only tests, if there is room for all labels that come up. It fails only where widths do not match, and
then because of shapes. On a graph with a node whose own labels can be stored, there are no labels where there is no room. -/
theorem evaluate_shows_sets {s : Scene} (hops : s.ops = Builtin.registries) {c : Compiler}
    (hc : Compiler.Reachable s.ops s.settings c) {e : Expr} {m : Model} (hm : c.Returns e m)
    (hinput : m.spec.check (some s.input) = .ok s.input) {n w : Nat} (hx : s.input.x.Shaped n w)
    (hedges : ∀ t ∈ s.input.e, t.WellFormed) (hdefault : s.maxIterations ≤ 0) (hpos : e.Positive s [] [])
    (hlabels : (∀ a ∈ s.input.x.data, a.IsTruth) ∨ e.TestsInput) :
    (e.Fits n s.edges s.ops s.settings [] w True →
      (∃ out, (Evaluator.evaluate s.maxIterations true m (some s.input)).result = .ok out ∧
          Shows out (e.sets s [] (Operand.raw : Operand n))) ∨
        ¬e.WidthsMatch s [] w ∧ ShapeFails (Evaluator.evaluate s.maxIterations true m (some s.input)).result) ∧
    (0 < n → Tensor.Storable n w → ∀ out, (Evaluator.evaluate s.maxIterations true m (some s.input)).result = .ok out →
      e.Fits n s.edges s.ops s.settings [] w True) := by
  have hcalm : s.ops.Calm := hops ▸ Builtin.registries_calm
  obtain ⟨_, hplays, _, _, _, _, hacc⟩ := RefinementAux.returns_plays hc hcalm hm s.input s.maxIterations
  have hadmits : s.settings.input.Admits s.input := hplays.spec_eq ▸ (check_eq_ok.mp hinput).2
  have hs := logical_of_admits hops hadmits hx hedges hdefault
  refine ⟨fun hfits => ?_, fun hn hstore out hout =>
    (evaluate_fits (.of_admits hops hadmits hs.nodes_eq hedges) hn ⟨hx, hstore⟩ hc hm hinput hout).1⟩
  have hwidth : ((Operand.raw : Operand n).truth s).length = w := by
    rw [Operand.truth, List.length_map, List.length_range, hx.cols_eq, Int.toNat_natCast]
  have hagrees : Agrees (e.WidthsMatch s [] w) (meaning s [] (.ok s.input.x) e) (e.sets s [] (Operand.raw : Operand n)) := by
    refine meaning_agrees hs e (σ := []) (P := True) (RefinementAux.returns_compileAs hm).1 hacc hpos
      (fun _ hl => absurd hl List.not_mem_nil) ?_ ?_ .nil fun _ => ⟨rfl, hlabels⟩
    · rw [hwidth]
      exact hfits
    · rw [hwidth]
      exact id
  have houtcome := evaluate_outcome hc hcalm hm hinput s.maxIterations
  rcases hagrees with ⟨out, hout, hshows⟩ | ⟨hmatch, f, hf, hkind⟩
  · rw [hout] at houtcome
    exact .inl ⟨out, outcome_eq_ok.mp houtcome, hshows⟩
  · rw [hf, outcome_error, hkind] at houtcome
    exact .inr ⟨hmatch, outcome_eq_error.mp houtcome⟩

namespace Sample

/-- The sample input under the default limit. -/
def scene : Scene :=
  ⟨Builtin.registries, settings, input, 0⟩

/-- The sample formula is positive, only tests its input, and has widths that match. -/
theorem expr_positive : expr.Positive scene [] [] ∧ expr.TestsInput ∧ expr.WidthsMatch scene [] 1 := by
  have hwidth : scene.settings.baseWidth (Bytes.ofString "r") = 1 := base_width
  have ha : connective? (Bytes.ofString "a") none = some (.bit 0) := rfl
  have hor : connective? (Bytes.ofString "or") none = some .any := rfl
  exact ⟨⟨⟨_, base_bool, hwidth.symm ▸ Base.bool_isTruth 1⟩, ⟨⟨_, ha, nofun⟩, ⟨trivial, rfl, rfl⟩, trivial⟩, _, hor, nofun⟩,
    ⟨(nomatch ha.symm.trans ·), trivial, trivial⟩, ⟨hwidth.symm, ⟨trivial, ⟨trivial, nofun⟩, trivial⟩, trivial⟩⟩

end Sample

/-- The sample formula shows the nodes that a true node reaches. -/
theorem evaluate_shows_sets_sample : ∃ m, Sample.compiler.Returns Sample.expr m ∧
    (Evaluator.evaluate 0 true m (some Sample.input)).result = .ok Sample.labels ∧
      Shows Sample.labels (Sample.expr.sets Sample.scene [] (Operand.raw : Operand 2)) := by
  obtain ⟨m, hm, hcheck, hres⟩ := Sample.evaluated
  obtain ⟨hpos, htests, hmatch⟩ := Sample.expr_positive
  have hfits : Sample.expr.Fits 2 1 Builtin.registries Sample.settings [] 1 True := Sample.expr_fits (by decide) (by decide)
  have hshaped : Sample.input.x.Shaped 2 1 := ⟨rfl, rfl, rfl⟩
  rcases (evaluate_shows_sets (s := Sample.scene) rfl Sample.reachable hm hcheck hshaped nofun (le_refl 0) hpos (.inr htests)).1 hfits
    with ⟨out, hout, hshows⟩ | ⟨hne, _⟩
  · obtain rfl := Except.ok.inj (hres.symm.trans hout)
    exact ⟨m, hm, hres, hshows⟩
  · exact absurd hmatch hne

namespace Sample

/-- The nodes that there is no room for, under the default limit. -/
def wideScene : Scene :=
  ⟨Builtin.registries, wideSettings, manyNodes, 0⟩

/-- The least fixpoint of a variable is positive and has widths that match. -/
theorem loop_positive : loopExpr.Positive wideScene [] [] ∧ loopExpr.WidthsMatch wideScene [] 1 := by
  have hwidth : wideScene.settings.baseWidth (Bytes.ofString "r") = 100000000 := by
    rw [Settings.baseWidth, show wideScene.settings.base? (Bytes.ofString "r") = _ from wide_base]
    rfl
  refine ⟨⟨⟨_, wide_base, hwidth.symm ▸ Base.bool_isTruth 100000000⟩, trivial⟩, ?_, trivial⟩
  rw [Expr.width, List.lookup_cons, beq_self_eq_true]
  rfl

end Sample

/-- With 351844 nodes and a base of 100000000 truth values there are no labels to show the sets of a formula, although it is positive,
all labels are truth values and all widths match. -/
theorem evaluate_shows_sets_no_room : Compiler.Reachable Builtin.registries Sample.wideSettings Sample.wideCompiler ∧
    Sample.wideCompiler.Returns Sample.loopExpr Sample.wideModel ∧
    Sample.wideModel.spec.check (some Sample.manyNodes) = .ok Sample.manyNodes ∧ Sample.manyNodes.x.Shaped 351844 1 ∧
    Sample.loopExpr.Positive Sample.wideScene [] [] ∧ (∀ a ∈ Sample.manyNodes.x.data, a.IsTruth) ∧
    Sample.loopExpr.WidthsMatch Sample.wideScene [] 1 ∧
    ∀ out, (Evaluator.evaluate 0 true Sample.wideModel (some Sample.manyNodes)).result ≠ .ok out := by
  obtain ⟨hreturns, hcheck, f, hf, -⟩ := Sample.wide_breaks
  refine ⟨Sample.wide_reachable, hreturns, hcheck, ⟨rfl, rfl, Array.size_replicate⟩, Sample.loop_positive.1, fun a ha => ?_,
    Sample.loop_positive.2, fun out hout => ?_⟩
  · obtain ⟨-, rfl⟩ := Array.mem_replicate.mp ha
    exact .inl rfl
  · cases hf.symm.trans hout

end ModalGraph
