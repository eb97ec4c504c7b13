import ModalGraph.Proofs.Formula.Sets
import ModalGraph.Proofs.Operator.Messages
import ModalGraph.Proofs.Operator.Registry

/-!
# Builtin operators on truth values

A tensor shows sets of nodes, one per feature, if the label of a node in a feature is 1 where the node belongs to the set and 0 where
it does not (`Shows`). On tensors that show sets, the builtin operators give tensors that show what the connectives and the diamonds
make of these sets; the tests of bits, the negation and the two connectives also read labels that are no truth values.
-/

namespace ModalGraph

open Formula

section

variable {n : Nat}

/-- A label says whether a node belongs to a set. -/
def Marks (v : Fin n) (a : Label) (S : Set (Fin n)) : Prop :=
  a.IsTruth ∧ (a.isZero = false ↔ v ∈ S)

/-- A tensor shows one set of nodes per feature. -/
structure Shows (x : Tensor) (ss : Features n) : Prop where
  shaped : x.Shaped n ss.length
  rows : ∀ v : Fin n, List.Forall₂ (Marks v) (x.row v) ss

/-- A truth value says that a node belongs to a set. -/
theorem marks_ofBool {v : Fin n} {S : Set (Fin n)} {b : Bool} (h : b = true ↔ v ∈ S) :
    Marks v (DType.cast .bool (Label.ofBool b)) S := by
  rw [DType.cast, Label.isZero_ofBool, Bool.not_not]
  refine ⟨Label.isTruth_ofBool b, ?_⟩
  rw [Label.isZero_ofBool, Bool.not_eq_false', h]

theorem shows_ofRows {ss : Features n} {dtype : DType} (row : Nat → List Label)
    (h : ∀ v : Fin n, List.Forall₂ (Marks v) (row v) ss) : Shows (Tensor.ofRows ss.length dtype ((List.range n).map row)) ss := by
  have hlen : ∀ i < n, (row i).length = ss.length := fun i hi => (h ⟨i, hi⟩).length_eq
  refine ⟨Tensor.ofRows_range_shaped hlen, fun v => ?_⟩
  rw [Tensor.row_ofRows_range hlen v.isLt]
  exact h v

/-- One column of truth values shows one set. -/
theorem shows_column {S : Set (Fin n)} {b : Nat → Bool} (h : ∀ v : Fin n, b v = true ↔ v ∈ S) :
    Shows (Tensor.ofRows (1 : Nat) .bool ((List.range n).map fun i => [DType.cast .bool (Label.ofBool (b i))])) [S] := by
  exact shows_ofRows (fun i => [DType.cast .bool (Label.ofBool (b i))]) fun v => .cons (marks_ofBool (h v)) .nil

/-- A tensor that shows sets has truth values only. -/
theorem Shows.isTruth {x : Tensor} {ss : Features n} (h : Shows x ss) : x.IsTruth n ss.length := by
  refine ⟨h.shaped, fun a ha => ?_⟩
  have ha' : a ∈ x.rowList.flatten := by
    rw [Tensor.flatten_rowList h.shaped]
    exact Array.mem_toList_iff.mpr ha
  obtain ⟨r, hr, har⟩ := List.mem_flatten.mp ha'
  rw [Tensor.rowList_eq h.shaped] at hr
  obtain ⟨i, hi, rfl⟩ := List.mem_map.mp hr
  exact ((List.forall₂_and_left _ _).mp (h.rows ⟨i, List.mem_range.mp hi⟩)).1 a har

/-! ## Operands -/

/-- A tensor read as an operand: which labels are not zero, and which have a bit set. -/
structure Operand.Reads (s : Scene) (x : Tensor) (op : Operand n) : Prop where
  shaped : x.Shaped n (op.truth s).length
  truth : ∀ v : Fin n, List.Forall₂ (fun a S => a.isZero = false ↔ v ∈ S) (x.row v) (op.truth s)
  bit : ∀ k, ∀ v : Fin n, List.Forall₂ (fun a S => Builtin.hasBit k a = true ↔ v ∈ S) (x.row v) (op.bit s k)

theorem Operand.length_bit (s : Scene) (k : Nat) (op : Operand n) : (op.bit s k).length = (op.truth s).length := by
  cases op with
  | raw => rw [Operand.bit, Operand.truth, List.length_map, List.length_map]
  | sets ss => rw [Operand.bit, Operand.truth, List.length_map]

namespace TruthAux

theorem hasBit_of_isZero {v : Label} (h : v.isZero = true) (k : Nat) : Builtin.hasBit k v = false := by
  have hm : v.magnitude = 0 := by simpa [Label.isZero] using h
  have hwhole : v.wholePart = 0 := by
    simp [Label.wholePart, Label.mantissa, Label.exponentField, hm]
  have hsigned : v.toSigned 64 = 0 := by
    simp [Label.toSigned, Label.isNaN_of_isZero h, Label.isInfinite, hm, Label.infiniteMagnitude, hwhole]
  simp [Builtin.hasBit, hsigned]

theorem hasBit_one (k : Nat) : Builtin.hasBit k Label.one = decide (k = 0) := by
  have hsigned : Label.one.toSigned 64 = 1 := by decide
  rw [Builtin.hasBit, hsigned]
  rcases Nat.eq_zero_or_pos k with rfl | hk
  · decide
  · have hlt : 1 < 2 ^ k := Nat.one_lt_two_pow (Nat.ne_of_gt hk)
    have hdiv : (1 : Int) / ((Nat.pow 2 k : Nat) : Int) = 0 := Int.ediv_eq_zero_of_lt (by omega) (by exact_mod_cast hlt)
    rw [hdiv]
    simp [Nat.ne_of_gt hk]

/-- Bit 0 of a truth value is the truth value, and no other bit is set. -/
theorem hasBit_marks {v : Fin n} {a : Label} {S : Set (Fin n)} (h : Marks v a S) (k : Nat) :
    Builtin.hasBit k a = true ↔ v ∈ if k = 0 then S else ∅ := by
  obtain ⟨ha | rfl, hmem⟩ := h
  · rw [ha] at hmem
    rw [hasBit_of_isZero ha]
    split
    · simpa using hmem
    · simp
  · rw [hasBit_one]
    split
    · rename_i hk
      simpa [hk] using hmem
    · rename_i hk
      simp [hk]

theorem forall₂_map_range {w : Nat} {r : List Label} (hlen : r.length = w) {P : Label → Set (Fin n) → Prop}
    {f : Nat → Set (Fin n)} (h : ∀ j a, r[j]? = some a → P a (f j)) : List.Forall₂ P r ((List.range w).map f) := by
  subst hlen
  induction r generalizing f with
  | nil => exact .nil
  | cons a r ih =>
    rw [List.length_cons, List.range_succ_eq_map, List.map_cons, List.map_map]
    exact .cons (h 0 a rfl) (ih fun j b hb => h (j + 1) b hb)

end TruthAux

open TruthAux

/-- A tensor that shows sets reads as these sets. -/
theorem Shows.reads {x : Tensor} {ss : Features n} (h : Shows x ss) (s : Scene) : (Operand.sets ss).Reads s x := by
  refine ⟨h.shaped, fun v => (h.rows v).imp fun a S hm => hm.2, fun k v => ?_⟩
  rw [Operand.bit, List.forall₂_map_right_iff]
  exact (h.rows v).imp fun a S hm => hasBit_marks hm k

/-- The labels of the input read as they are. -/
theorem raw_reads {s : Scene} {w : Nat} (h : s.input.x.Shaped n w) : (Operand.raw : Operand n).Reads s s.input.x := by
  have hw : s.input.x.cols.toNat = w := by rw [h.cols_eq, Int.toNat_natCast]
  have hlabel : ∀ (v : Fin n) j a, (s.input.x.row v)[j]? = some a → s.input.x.label v j = a := by
    intro v j a ha
    rw [Tensor.label, ha, Option.getD_some]
  refine ⟨?_, fun v => ?_, fun k v => ?_⟩
  · rw [Operand.truth, List.length_map, List.length_range, hw]
    exact h
  · refine forall₂_map_range (by rw [hw]; exact Tensor.length_row h v.isLt) fun j a ha => ?_
    rw [Set.mem_ofPred_eq, hlabel v j a ha]
  · refine forall₂_map_range (by rw [hw]; exact Tensor.length_row h v.isLt) fun j a ha => ?_
    rw [Set.mem_ofPred_eq, hlabel v j a ha]

/-- Labels that are truth values show the sets that they read as. -/
theorem Operand.Reads.shows {s : Scene} {x : Tensor} {op : Operand n} (h : op.Reads s x) (hx : ∀ a ∈ x.data, a.IsTruth) :
    Shows x (op.truth s) := by
  refine ⟨h.shaped, fun v => ?_⟩
  have hmem : ∀ a ∈ x.row v, a.IsTruth := by
    intro a ha
    rw [Tensor.row_eq h.shaped] at ha
    exact hx a (Array.mem_toList_iff.mp (List.mem_of_mem_drop (List.mem_of_mem_take ha)))
  exact (List.forall₂_and_left _ _).mpr ⟨hmem, h.truth v⟩

/-! ## Connectives -/

/-- The operator of a connective. -/
def Connective.psi : Connective → Psi
  | .same => Builtin.identity
  | .all => Builtin.conjunction
  | .any => Builtin.disjunction
  | .constant b => Builtin.constant .bool (Label.ofBool b)
  | .bit k => Builtin.bit k
  | .not => Builtin.negation

theorem makeBit_eq {arg : Argument} {k : Nat} (h : bitPlace? arg = some k) : Builtin.makeBit arg = .ok (Builtin.bit k) := by
  cases arg with
  | none => cases h
  | some text =>
    rw [bitPlace?] at h
    rw [Builtin.makeBit]
    cases hplace : Numeral.int64? (Bytes.toText (Text.trim text)).toList with
    | none =>
      rw [hplace] at h
      cases h
    | some place =>
      rw [hplace] at h
      change (if 0 ≤ place ∧ place ≤ 62 then some place.toNat else none) = some k at h
      show (if 0 ≤ place ∧ place ≤ 62 then Except.ok (Builtin.bit place.toNat) else _) = _
      split at h
      · rename_i hrange
        rw [if_pos hrange, Option.some.inj h]
      · cases h

/-- The builtin operator of a name that has a connective. -/
theorem get_connective {name : Bytes} {arg : Argument} {c : Connective} (h : connective? name arg = some c) :
    Builtin.psi.get name arg = .ok c.psi := by
  unfold connective? at h
  iterate 8
    rcases ite_eq_iff.mp h with ⟨rfl, h⟩ | ⟨-, h⟩
    · obtain rfl := Option.some.inj h
      rfl
  rcases ite_eq_iff.mp h with ⟨rfl, h⟩ | ⟨-, h⟩
  · obtain ⟨k, hk, rfl⟩ := Option.map_eq_some_iff.mp h
    show inPlace _ (Builtin.makeBit arg) = _
    rw [makeBit_eq hk]
    rfl
  rcases ite_eq_iff.mp h with ⟨rfl, h⟩ | ⟨-, h⟩
  · obtain rfl := Option.some.inj h
    rfl
  · cases h

/-- A pointwise operator does the same on one graph and on a batch. -/
theorem pointwise_run (s : Scene) (width : Int → Int) (f : Labels → Except Failure Labels) (x : Labels) :
    (if s.input.isBatched then (Psi.pointwise width f).multiple x s.input.index else (Psi.pointwise width f).single x) = f x := by
  by_cases h : s.input.isBatched = true
  · rw [if_pos h]
    have hsome : s.input.index.isNone = false := by
      rw [Input.isBatched] at h
      simpa using h
    show (if s.input.index.isNone then _ else f x) = f x
    rw [hsome]
    rfl
  · rw [if_neg h]
    rfl

/-- Whether some feature is true, of labels that need not be truth values. -/
theorem disjunction_shows {x : Tensor} {w : Nat} (hx : x.Shaped n w) {ss : Features n}
    (hrows : ∀ v : Fin n, List.Forall₂ (fun a S => a.isZero = false ↔ v ∈ S) (x.row v) ss) :
    Shows (x.reduceRows .bool fun r => Label.ofBool (r.any fun v => !v.isZero)) [{v | ∃ S ∈ ss, v ∈ S}] := by
  rw [Tensor.reduceRows_eq hx]
  refine shows_column fun v => ?_
  rw [List.any_eq_true, Set.mem_ofPred_eq]
  have hrow := hrows v
  generalize x.row v = r at hrow
  clear hrows
  induction hrow with
  | nil => simp
  | cons hiff _ ih =>
    rw [List.exists_mem_cons_iff, List.exists_mem_cons_iff, ← hiff, Bool.not_eq_true']
    exact or_congr Iff.rfl ih

/-- A pointwise operator whose result there is room for. -/
theorem stored_run (s : Scene) (width : Int → Int) {f : Tensor → Option Tensor} {x y : Tensor} (h : f x = some y) :
    (if s.input.isBatched then (Psi.stored width f).multiple (some x) s.input.index else (Psi.stored width f).single (some x)) =
      .ok (some y) := by
  rw [Psi.stored, pointwise_run]
  show (some <$> orAborted (f x)) = _
  rw [h]
  rfl

/-- What a connective gives, before the rows are counted. -/
theorem connective_total {s : Scene} {x : Tensor} {op : Operand n} (h : op.Reads s x) {c : Connective}
    (hstore : Tensor.Storable n (c.sets s op).length) (hsame : c = .same → Shows x (op.truth s)) :
    ∃ out, (if s.input.isBatched then c.psi.multiple (some x) s.input.index else c.psi.single (some x)) = .ok (some out) ∧
      Shows out (c.sets s op) := by
  cases c with
  | same => exact ⟨x, pointwise_run s _ _ _, hsame rfl⟩
  | all =>
    refine ⟨_, stored_run s _ (Tensor.reduceRows?_eq h.shaped (Nat.mul_one n ▸ hstore) _ _), ?_⟩
    rw [Tensor.reduceRows_eq h.shaped]
    refine shows_column fun v => ?_
    rw [List.all_eq_true, Set.mem_ofPred_eq]
    have hrow := h.truth v
    generalize x.row v = r at hrow
    generalize op.truth s = ss at hrow
    induction hrow with
    | nil => simp
    | cons hiff _ ih =>
      rw [List.forall_mem_cons, List.forall_mem_cons, ← hiff, Bool.not_eq_true']
      exact and_congr Iff.rfl ih
  | any =>
    exact ⟨_, stored_run s _ (Tensor.reduceRows?_eq h.shaped (Nat.mul_one n ▸ hstore) _ _), disjunction_shows h.shaped h.truth⟩
  | constant b =>
    refine ⟨_, stored_run s _ (by rw [h.shaped.rows_eq]; exact Tensor.full?_eq hstore), ?_⟩
    rw [Tensor.full_eq]
    exact shows_column fun v => Iff.rfl
  | bit k =>
    refine ⟨_, pointwise_run s _ _ _, ?_, fun v => ?_⟩
    · rw [Connective.sets, Operand.length_bit]
      exact Tensor.map_shaped h.shaped _ _
    · rw [Tensor.row_map h.shaped, List.forall₂_map_left_iff]
      exact (h.bit k v).imp fun a S hS => marks_ofBool hS
  | not =>
    refine ⟨_, pointwise_run s _ _ _, ?_, fun v => ?_⟩
    · rw [Connective.sets, List.length_map]
      exact Tensor.map_shaped h.shaped _ _
    · rw [Tensor.row_map h.shaped, Connective.sets, List.forall₂_map_left_iff, List.forall₂_map_right_iff]
      refine (h.truth v).imp fun a S hS => marks_ofBool ?_
      rw [Set.mem_compl_iff, ← hS, Bool.not_eq_false]

/-- An operator with a connective, on labels that read as an operand. -/
theorem atom_shows {s : Scene} (hops : s.ops = Builtin.registries) (hnodes : s.nodes = n) {name : Bytes} {arg : Argument}
    {c : Connective} (hc : connective? name arg = some c) {x : Tensor} {op : Operand n} (h : op.Reads s x)
    (hstore : Tensor.Storable n (c.sets s op).length) (hsame : c = .same → Shows x (op.truth s)) :
    ∃ out, s.atom name arg x = .ok out ∧ Shows out (c.sets s op) := by
  obtain ⟨out, hrun, hout⟩ := connective_total h hstore hsame
  refine ⟨out, ?_, hout⟩
  have hget : s.ops.psi.get name arg = .ok c.psi := by
    rw [hops]
    exact get_connective hc
  rw [Scene.atom, hget]
  show ((if s.input.isBatched then c.psi.multiple (some x) s.input.index else c.psi.single (some x)) >>= s.rowPerNode) = _
  rw [hrun]
  show s.rowPerNode (some out) = _
  rw [Scene.rowPerNode, if_pos (hout.shaped.rows_eq.trans hnodes.symm)]

/-! ## Side by side -/

/-- Tensors that show sets, side by side. -/
theorem concat_shows {xs : List Tensor} {sss : List (Features n)} (h : List.Forall₂ Shows xs sss) (hne : xs ≠ [])
    (hstore : Tensor.Storable n sss.flatten.length) (hwidth : sss.flatten.length < 2 ^ 63) :
    ∃ out, Tensor.concat xs = .ok out ∧ Shows out sss.flatten := by
  have hshaped : ∀ x ∈ xs, ∃ w, x.Shaped n w := by
    clear hne hstore hwidth
    induction h with
    | nil => simp
    | cons hx _ ih => exact List.forall_mem_cons.mpr ⟨⟨_, hx.shaped⟩, ih⟩
  have htotal : Tensor.totalWidth xs = sss.flatten.length := by
    clear hne hstore hwidth hshaped
    induction h with
    | nil => rfl
    | cons hx _ ih =>
      rw [Tensor.totalWidth, List.map_cons, List.sum_cons, hx.shaped.cols_eq, Int.toNat_natCast, List.flatten_cons,
        List.length_append, ← ih, Tensor.totalWidth]
  have hmarks : ∀ v : Fin n, List.Forall₂ (Marks v) (xs.map fun x => x.row v).flatten sss.flatten := by
    intro v
    clear hne hstore hwidth hshaped htotal
    induction h with
    | nil => exact .nil
    | cons hx _ ih =>
      rw [List.map_cons, List.flatten_cons, List.flatten_cons]
      exact List.rel_append (hx.rows v) ih
  cases xs with
  | nil => exact absurd rfl hne
  | cons x rest =>
    rw [← htotal] at hstore hwidth
    refine ⟨_, Tensor.concat_eq hshaped hstore hwidth, ?_⟩
    rw [htotal]
    exact shows_ofRows _ hmarks

/-! ## Messages -/

/-- A failure that is about shapes. -/
def ShapeFails {α : Type} (x : Except Failure α) : Prop :=
  ∃ f, x = .error f ∧ f.kind = .shape

/-- Messages in which a label of an edge is not zero exactly if the edge carries a true message in that feature. -/
structure Tells (s : Scene) (direction : Direction) (c : Carried) (ss : Features n) (m : Tensor) : Prop where
  shaped : m.Shaped s.edges ss.length
  holds : ∀ k u v, s.Joins direction k u v → ∀ j a S, (m.row k)[j]? = some a → ss[j]? = some S →
    (a.isZero = false ↔ c.holds s S k j u v)

namespace TruthAux

theorem marks_getElem? {v : Fin n} {r : List Label} {ss : Features n} (h : List.Forall₂ (Marks v) r ss) {j : Nat} {a : Label}
    {S : Set (Fin n)} (ha : r[j]? = some a) (hS : ss[j]? = some S) : Marks v a S :=
  List.forall₂_zip h (List.mem_iff_getElem?.mpr ⟨j, List.getElem?_zip_eq_some.mpr ⟨ha, hS⟩⟩)

/-- The rows of nodes at the ends of edges. -/
theorem gathered {x : Tensor} {ss : Features n} (hx : Shows x ss) (hfit : n * ss.length ≤ Tensor.capacity) {idx : List Int}
    (hidx : ∀ i ∈ idx, 0 ≤ i ∧ i < n) (hsize : idx.length * ss.length ≤ Tensor.capacity) :
    ∃ m, x.gather idx = .ok m ∧ m.Shaped idx.length ss.length ∧ ∀ k (u : Fin n), idx[k]? = some (u : Int) → m.row k = x.row u := by
  refine ⟨_, Tensor.gather_eq hx.shaped hfit hidx hsize, Tensor.gather_shaped hx.shaped hidx, fun k u hu => ?_⟩
  refine Tensor.row_ofRows (fun r hr => ?_) ?_
  · obtain ⟨i, hi, rfl⟩ := List.mem_map.mp hr
    have := hidx i hi
    exact Tensor.length_row hx.shaped (by omega)
  · rw [List.getElem?_map, hu, Option.map_some, Int.toNat_natCast]

end TruthAux

/-- Edge labels, where a phi asks for them, are there and have width one or the width of the labels. -/
def Scene.EdgesMatch (s : Scene) (phi : Option Bytes) (w : Nat) : Prop :=
  phi = some (Bytes.ofString "z") → ∃ e, s.edgeLabels = some e ∧ (e.cols = 1 ∨ e.cols = w)

/-- Messages at edges with label zero, unless the widths do not match. -/
theorem zeroEdge_tells {s : Scene} (hedges : s.input.Joined n) {direction : Direction} {ss : Features n} {m : Tensor}
    (hm : Tells s direction .target ss m) (hfit : Tensor.Storable s.edges ss.length)
    (hlabels : ∀ e, s.edgeLabels = some e → ∃ w, e.Shaped s.edges w) :
    (∃ m', Builtin.zeroEdge s.edgeLabels (some m) = .ok (some m') ∧ Tells s direction .targetIfZero ss m') ∨
      ¬s.EdgesMatch (some (Bytes.ofString "z")) ss.length ∧ ShapeFails (Builtin.zeroEdge s.edgeLabels (some m)) := by
  cases hsome : s.edgeLabels with
  | none =>
    refine .inr ⟨fun hmatch => ?_, _, rfl, rfl⟩
    obtain ⟨e, he, _⟩ := hmatch rfl
    rw [hsome] at he
    cases he
  | some e =>
    obtain ⟨w', he⟩ := hlabels e hsome
    by_cases hw : w' = 1 ∨ w' = ss.length
    · have hwidth : ∀ i < s.edges, ((m.row i).zipIdx.map (zeroEdgeLabel e i)).length = ss.length := by
        intro i hi
        rw [List.length_map, List.length_zipIdx, Tensor.length_row hm.shaped hi]
      refine .inl ⟨_, zeroEdge_eq he hm.shaped hw hfit, Tensor.ofRows_range_shaped hwidth, fun k u v hjoins j a S ha hS => ?_⟩
      have hk : k < s.edges := Scene.edge_lt hedges hjoins.2
      rw [Tensor.row_ofRows_range hwidth hk, List.getElem?_map, List.getElem?_zipIdx] at ha
      obtain ⟨b, hb, rfl⟩ : ∃ b, (m.row k)[j]? = some b ∧ zeroEdgeLabel e k (b, j) = a := by
        simpa using ha
      have hzero : s.EdgeZero k j ↔ (e.label k (edgeColumn e j)).isZero = true := by
        rw [Scene.EdgeZero, hsome]
        exact ⟨fun ⟨e', he', h⟩ => Option.some.inj he' ▸ h, fun h => ⟨e, rfl, h⟩⟩
      have htarget := hm.holds k u v hjoins j b S hb hS
      rw [Carried.holds, hzero, zeroEdgeLabel]
      cases hbz : b.isZero with
      | true =>
        have hv : v ∉ S := by simpa [hbz, Carried.holds] using htarget
        simp [hv]
      | false =>
        have hv : v ∈ S := by simpa [hbz, Carried.holds] using htarget
        simp [hv]
    · refine .inr ⟨fun hmatch => hw ?_, zeroEdge_fails he hm.shaped hw⟩
      obtain ⟨e', he', hcols⟩ := hmatch rfl
      obtain rfl := Option.some.inj (hsome.symm.trans he')
      rw [he.cols_eq] at hcols
      omega

/-- What the messages of a diamond tell, unless the widths do not match. -/
theorem messages_tell {s : Scene} (hops : s.ops = Builtin.registries) (hedges : s.input.Joined n) {x : Tensor} {ss : Features n}
    (hx : Shows x ss) (hfit : Tensor.Storable n ss.length) (hfit' : Tensor.Storable s.edges ss.length)
    (hlabels : ∀ e, s.edgeLabels = some e → ∃ w, e.Shaped s.edges w) (direction : Direction) {phi : Option Bytes} {c : Carried}
    (hc : carried? phi = some c) :
    (∃ m, s.messages direction phi x = .ok m ∧ Tells s direction c ss m) ∨
      ¬s.EdgesMatch phi ss.length ∧ ShapeFails (s.messages direction phi x) := by
  obtain ⟨hoin, holen⟩ := Scene.origins hedges direction
  obtain ⟨hgin, hglen⟩ := Scene.goals hedges direction
  obtain ⟨mo, hmo, hmoshape, hmorow⟩ := gathered hx hfit hoin (by rwa [holen])
  obtain ⟨mg, hmg, hmgshape, hmgrow⟩ := gathered hx hfit hgin (by rwa [hglen])
  rw [holen] at hmoshape
  rw [hglen] at hmgshape
  have horigin : Tells s direction .origin ss mo := by
    refine ⟨hmoshape, fun k u v hjoins j a S ha hS => ?_⟩
    rw [hmorow k u hjoins.1] at ha
    exact (marks_getElem? (hx.rows u) ha hS).2
  have hgoal : Tells s direction .target ss mg := by
    refine ⟨hmgshape, fun k u v hjoins j a S ha hS => ?_⟩
    rw [hmgrow k v hjoins.2] at ha
    exact (marks_getElem? (hx.rows v) ha hS).2
  have hcheck : ∀ m : Tensor, m.Shaped s.edges ss.length →
      Scene.messagePerEdge (s.ends direction).2.length (some m) = .ok m := by
    intro m hm
    rw [Scene.messagePerEdge, hglen, if_pos hm.rows_eq]
  rw [Scene.messages, hmo]
  cases phi with
  | none =>
    obtain rfl := Option.some.inj hc
    exact .inl ⟨mo, rfl, horigin⟩
  | some key =>
    rw [carried?] at hc
    dsimp only [bind, Except.bind]
    rw [hmg, hops]
    dsimp only [bind, Except.bind]
    split at hc
    · rename_i hkey
      obtain rfl := Option.some.inj hc
      subst hkey
      exact .inl ⟨mo, hcheck mo hmoshape, horigin⟩
    · split at hc
      · rename_i hkey
        obtain rfl := Option.some.inj hc
        subst hkey
        exact .inl ⟨mg, hcheck mg hmgshape, hgoal⟩
      · split at hc
        · rename_i hkey
          obtain rfl := Option.some.inj hc
          subst hkey
          rcases zeroEdge_tells hedges hgoal hfit' hlabels with ⟨m, hm, htells⟩ | ⟨hmatch, f, hf, hkind⟩
          · refine .inl ⟨m, ?_, htells⟩
            show (Builtin.zeroEdge s.edgeLabels (some mg) >>= _) = _
            rw [hm]
            exact hcheck m htells.shaped
          · refine .inr ⟨hmatch, f, ?_, hkind⟩
            show (Builtin.zeroEdge s.edgeLabels (some mg) >>= _) = _
            rw [hf]
            rfl
        · cases hc

/-! ## Aggregation -/

namespace TruthAux

theorem foldl_anyTrue (labels : List Label) (acc : Label) :
    (labels.foldl Builtin.anyTrue acc).isZero = false ↔ acc.isZero = false ∨ ∃ a ∈ labels, a.isZero = false := by
  induction labels generalizing acc with
  | nil => simp
  | cons a labels ih =>
    rw [List.foldl_cons, ih, Builtin.anyTrue, List.exists_mem_cons_iff]
    cases ha : a.isZero <;> simp

theorem foldl_allTrue (labels : List Label) (acc : Label) :
    (labels.foldl Builtin.allTrue acc).isZero = false ↔ acc.isZero = false ∧ ∀ a ∈ labels, a.isZero = false := by
  induction labels generalizing acc with
  | nil => simp
  | cons a labels ih =>
    rw [List.foldl_cons, ih, Builtin.allTrue, List.forall_mem_cons]
    cases ha : a.isZero <;> simp

/-- The aggregation that asks for some true message, or for every message to be true. -/
def aggregation (b : Bool) : Sigma :=
  if b then Builtin.gather (some .bool) Label.zero Label.zero Builtin.anyTrue
  else Builtin.gather (some .bool) Label.one Label.one Builtin.allTrue

theorem resolve_asksSome {sigma : Bytes} {b : Bool} (h : asksSome? sigma = some b) : Builtin.sigma.resolve sigma = .ok (aggregation b) := by
  rw [asksSome?] at h
  split at h
  · rename_i hname
    obtain rfl := Option.some.inj h
    rcases hname with rfl | rfl <;> rfl
  · split at h
    · rename_i hname
      obtain rfl := Option.some.inj h
      subst hname
      rfl
    · cases h

/-- A sigma that asks for true messages is one of these aggregations, whatever its argument. -/
theorem resolve_truth {key : Bytes} (h : ∃ known ∈ ["or", "uor", "and"], (parseKey key).1 = Bytes.ofString known) :
    ∃ b, Builtin.sigma.resolve key = .ok (aggregation b) ∧ (b = false ↔ (parseKey key).1 = Bytes.ofString "and") := by
  obtain ⟨known, hknown, hkey⟩ := h
  simp only [List.mem_cons, List.not_mem_nil, or_false] at hknown
  rw [Registry.resolve, hkey]
  rcases hknown with rfl | rfl | rfl
  · exact ⟨true, rfl, by decide +kernel⟩
  · exact ⟨true, rfl, by decide +kernel⟩
  · exact ⟨false, rfl, by decide +kernel⟩

/-- The label that messages are folded into, and the fold. -/
def aggregated (b : Bool) (labels : List Label) : Label :=
  if b then labels.foldl Builtin.anyTrue Label.zero else labels.foldl Builtin.allTrue Label.one

theorem aggregated_isZero (b : Bool) (labels : List Label) : (aggregated b labels).isZero = false ↔
    if b then ∃ a ∈ labels, a.isZero = false else ∀ a ∈ labels, a.isZero = false := by
  cases b with
  | true => simp [aggregated, foldl_anyTrue]
  | false => simp [aggregated, foldl_allTrue]

/-- What messages are aggregated into: column by column, over the rows sent to a node. -/
theorem aggregation_eq {k w : Nat} {m : Tensor} (hm : m.Shaped k w) {target : List Int} (hlen : target.length = k)
    (htarget : ∀ d ∈ target, 0 ≤ d ∧ d < n) (hfit : n * w ≤ Tensor.capacity) (hn : (n : Int) ≤ Tensor.seats) (b : Bool) (x : Labels) :
    ∃ row : Nat → List Label, (aggregation b).aggregate (some m) target n x =
        .ok (some (Tensor.ofRows w .bool ((List.range n).map row))) ∧ ∀ i, (row i).length = w ∧ ∀ j < w,
          (row i)[j]? = some (DType.cast .bool (aggregated b ((Tensor.sentTo target m.rowList i).map fun r => r[j]?.getD Label.zero))) := by
  have hwidth : ∀ i, ∀ r ∈ Tensor.sentTo target m.rowList i, r.length = w :=
    fun i r hr => Tensor.width_of_mem_rowList hm r (Tensor.mem_of_mem_sentTo hr)
  have harrival : ∀ (f : Label → Label → Label) (init : Label) (i j : Nat), j < w →
      ((Tensor.arrivalRow f init init w (Tensor.sentTo target m.rowList i)).map (DType.cast .bool))[j]? =
        some (DType.cast .bool (((Tensor.sentTo target m.rowList i).map fun r => r[j]?.getD Label.zero).foldl f init)) := by
    intro f init i j hj
    have hfold : Tensor.arrivalRow f init init w (Tensor.sentTo target m.rowList i) =
        Tensor.foldRows f init w (Tensor.sentTo target m.rowList i) := by
      rw [Tensor.arrivalRow]
      split
      · rename_i hempty
        rw [List.isEmpty_iff.mp hempty]
        rfl
      · rfl
    rw [hfold, List.getElem?_map, Tensor.getElem?_foldRows (hwidth i) hj, Option.map_some]
  have hscatter := fun (f : Label → Label → Label) (init : Label) =>
    Tensor.scatterReduce_eq hm hlen htarget hfit hn .bool init init f
  cases b with
  | true =>
    refine ⟨fun i => (Tensor.arrivalRow Builtin.anyTrue Label.zero Label.zero w (Tensor.sentTo target m.rowList i)).map
      (DType.cast .bool), ?_, fun i => ⟨Tensor.scatterReduce_width hm target .bool _ _ _ i, fun j hj => harrival _ _ i j hj⟩⟩
    show some <$> m.scatterReduce target n .bool Label.zero Label.zero Builtin.anyTrue = _
    rw [hscatter]
    rfl
  | false =>
    refine ⟨fun i => (Tensor.arrivalRow Builtin.allTrue Label.one Label.one w (Tensor.sentTo target m.rowList i)).map
      (DType.cast .bool), ?_, fun i => ⟨Tensor.scatterReduce_width hm target .bool _ _ _ i, fun j hj => harrival _ _ i j hj⟩⟩
    show some <$> m.scatterReduce target n .bool Label.one Label.one Builtin.allTrue = _
    rw [hscatter]
    rfl

/-- Without room for the places nothing is aggregated. -/
theorem aggregation_aborts {k w : Nat} {m : Tensor} (hm : m.Shaped k w) {target : List Int} (hlen : target.length = k)
    (htarget : ∀ d ∈ target, 0 ≤ d ∧ d < n) (hroom : ¬ (n * w ≤ Tensor.capacity ∧ (n : Int) ≤ Tensor.seats)) (b : Bool) (x : Labels) :
    (aggregation b).aggregate (some m) target n x = .error .aborted := by
  cases b with
  | true =>
    show some <$> m.scatterReduce target n .bool Label.zero Label.zero Builtin.anyTrue = _
    rw [Tensor.scatterReduce_aborts hm hlen htarget hroom]
    rfl
  | false =>
    show some <$> m.scatterReduce target n .bool Label.one Label.one Builtin.allTrue = _
    rw [Tensor.scatterReduce_aborts hm hlen htarget hroom]
    rfl

/-- The messages that arrive at a node are those of the edges that go there. -/
theorem mem_arrived {s : Scene} {direction : Direction} (hedges : s.input.Joined n) {c : Carried} {ss : Features n} {m : Tensor}
    (hm : Tells s direction c ss m) {v : Fin n} {j : Nat} {S : Set (Fin n)} (hS : ss[j]? = some S) (b : Bool) :
    (if b then ∃ a ∈ (Tensor.sentTo (s.ends direction).2 m.rowList v).map fun r => r[j]?.getD Label.zero, a.isZero = false
      else ∀ a ∈ (Tensor.sentTo (s.ends direction).2 m.rowList v).map fun r => r[j]?.getD Label.zero, a.isZero = false) ↔
      v ∈ s.diamondSet direction c b j S := by
  have hj : j < ss.length := (List.getElem?_eq_some_iff.mp hS).1
  -- A row sent to `v` is the row of an edge that goes there, and every such edge has one.
  have hrow : ∀ r, r ∈ Tensor.sentTo (s.ends direction).2 m.rowList v ↔ ∃ k u, s.Joins direction k u v ∧ r = m.row k := by
    intro r
    rw [Tensor.mem_sentTo]
    constructor
    · rintro ⟨k, d, hd, hv, hr⟩
      have hdin := (Scene.goals hedges direction).1 d (List.mem_of_getElem? hd)
      have hk : k < s.edges := Scene.edge_lt hedges hd
      have hk' : k < (s.ends direction).1.length := by rwa [(Scene.origins hedges direction).2]
      have hoin := (Scene.origins hedges direction).1 _ (List.getElem_mem hk')
      refine ⟨k, ⟨((s.ends direction).1[k]).toNat, by omega⟩, ⟨?_, ?_⟩, ?_⟩
      · rw [List.getElem?_eq_getElem hk']
        exact congrArg some (Int.toNat_of_nonneg hoin.1).symm
      · rw [hd]
        exact congrArg some (by omega)
      · rw [Tensor.rowList_eq hm.shaped, List.getElem?_map, List.getElem?_range hk] at hr
        exact (Option.some.inj hr).symm
    · rintro ⟨k, u, hjoins, rfl⟩
      have hk : k < s.edges := Scene.edge_lt hedges hjoins.2
      refine ⟨k, v, hjoins.2, Int.toNat_natCast _, ?_⟩
      rw [Tensor.rowList_eq hm.shaped, List.getElem?_map, List.getElem?_range hk]
      rfl
  have hlabel : ∀ k u, s.Joins direction k u v →
      (((m.row k)[j]?.getD Label.zero).isZero = false ↔ c.holds s S k j u v) := by
    intro k u hjoins
    have hk : k < s.edges := Scene.edge_lt hedges hjoins.2
    have hlt : j < (m.row k).length := by rwa [Tensor.length_row hm.shaped hk]
    have hget := List.getElem?_eq_getElem hlt
    rw [hget, Option.getD_some]
    exact hm.holds k u v hjoins j _ S hget hS
  cases b with
  | true =>
    simp only [if_true, List.mem_map, Scene.diamondSet, Set.mem_ofPred_eq]
    constructor
    · rintro ⟨a, ⟨r, hr, rfl⟩, ha⟩
      obtain ⟨k, u, hjoins, rfl⟩ := (hrow r).mp hr
      exact ⟨k, u, hjoins, (hlabel k u hjoins).mp ha⟩
    · rintro ⟨k, u, hjoins, hv⟩
      exact ⟨_, ⟨m.row k, (hrow _).mpr ⟨k, u, hjoins, rfl⟩, rfl⟩, (hlabel k u hjoins).mpr hv⟩
  | false =>
    simp only [Bool.false_eq_true, if_false, List.mem_map, Scene.diamondSet, Set.mem_ofPred_eq]
    constructor
    · intro h k u hjoins
      exact (hlabel k u hjoins).mp (h _ ⟨m.row k, (hrow _).mpr ⟨k, u, hjoins, rfl⟩, rfl⟩)
    · rintro h a ⟨r, hr, rfl⟩
      obtain ⟨k, u, hjoins, rfl⟩ := (hrow r).mp hr
      exact (hlabel k u hjoins).mpr (h k u hjoins)

end TruthAux

/-- A result that shows sets, or a failure about shapes where widths do not match. -/
def Agrees (Matches : Prop) (y : Except Failure Tensor) (ss : Features n) : Prop :=
  (∃ out, y = .ok out ∧ Shows out ss) ∨ ¬Matches ∧ ShapeFails y

/-- One step of message passing on a tensor that shows sets. -/
theorem diamond_shows {s : Scene} (hops : s.ops = Builtin.registries) (hnodes : s.nodes = n) (hedges : s.input.Joined n) {x : Tensor}
    {ss : Features n} (hx : Shows x ss) (hroom : Tensor.Sendable n s.edges ss.length ss.length)
    (hlabels : ∀ e, s.edgeLabels = some e → ∃ w, e.Shaped s.edges w) (direction : Direction) {phi : Option Bytes} {c : Carried}
    (hc : carried? phi = some c) {sigma : Bytes} {b : Bool} (hb : asksSome? sigma = some b) :
    Agrees (s.EdgesMatch phi ss.length) (s.diamond direction phi sigma x)
      (ss.mapIdx fun j S => s.diamondSet direction c b j S) := by
  have hsigma : s.ops.sigma.resolve sigma = .ok (aggregation b) := by
    rw [hops]
    exact resolve_asksSome hb
  rw [Scene.diamond, hsigma]
  dsimp only [bind, Except.bind]
  rcases messages_tell hops hedges hx hroom.operand hroom.ends hlabels direction hc with ⟨m, hm, htells⟩ | ⟨hmatch, f, hf, hkind⟩
  · left
    obtain ⟨hgin, hglen⟩ := Scene.goals hedges direction
    obtain ⟨row, hrun, hrow⟩ := aggregation_eq htells.shaped hglen hgin hroom.result hroom.places b (some x)
    rw [hm, hnodes]
    dsimp only
    rw [hrun]
    dsimp only
    have hlen : (ss.mapIdx fun j S => s.diamondSet direction c b j S).length = ss.length := List.length_mapIdx
    rw [← hlen]
    have hmarks : ∀ v : Fin n, List.Forall₂ (Marks v) (row v) (ss.mapIdx fun j S => s.diamondSet direction c b j S) := by
      intro v
      refine List.forall₂_iff_zip.mpr ⟨by rw [(hrow v).1, hlen], fun {a T} hzip => ?_⟩
      obtain ⟨j, hj⟩ := List.mem_iff_getElem?.mp hzip
      obtain ⟨ha, hT⟩ := List.getElem?_zip_eq_some.mp hj
      rw [List.getElem?_mapIdx] at hT
      obtain ⟨S, hS, rfl⟩ := Option.map_eq_some_iff.mp hT
      rw [(hrow v).2 j (List.getElem?_eq_some_iff.mp hS).1] at ha
      obtain rfl := Option.some.inj ha
      have hmem := (aggregated_isZero b _).trans (mem_arrived hedges htells (v := v) hS b)
      refine ⟨Label.isTruth_ofBool _, ?_⟩
      rw [← hmem, DType.cast, Label.isZero_ofBool, Bool.not_not]
    have hshows : Shows (Tensor.ofRows _ .bool ((List.range n).map row)) _ := shows_ofRows row hmarks
    refine ⟨_, ?_, hshows⟩
    rw [Scene.rowPerNode, if_pos (hshows.shaped.rows_eq.trans hnodes.symm)]
  · refine .inr ⟨hmatch, ?_⟩
    rw [hf]
    exact ⟨f, rfl, hkind⟩

end

end ModalGraph
