import ModalGraph.Proofs.Formula.Translation
import ModalGraph.Proofs.Operator.Key
import ModalGraph.Proofs.Operator.Truth
import ModalGraph.Proofs.Tensor.Complement

/-!
# Dual operators

The complement turns each connective into its dual: it exchanges the conjunction with the disjunction and the two constants, and leaves
the identity and the negation as they are. It exchanges the sigma that ask for some true message with the one that asks for every
message to be true, also where no message arrives. So an operator applied to a complement gives the complement of what its dual gives.
-/

namespace ModalGraph

open Formula

/-- The name of the dual of a connective. -/
def dualPsi (name : Bytes) : Bytes :=
  if name = Bytes.ofString "and" then Bytes.ofString "or"
  else if name = Bytes.ofString "or" then Bytes.ofString "and"
  else if name = Bytes.ofString "true" then Bytes.ofString "false"
  else if name = Bytes.ofString "false" then Bytes.ofString "true"
  else name

/-- The key of the dual of a sigma that asks for true messages, with the same argument. -/
def dualSigma (key : Bytes) : Bytes :=
  if (parseKey key).1 = Bytes.ofString "and" then bracketed (Bytes.ofString "or") (parseKey key).2
  else bracketed (Bytes.ofString "and") (parseKey key).2

/-- The psi that are connectives. -/
def connectives : List String :=
  ["id", "and", "or", "not", "true", "false"]

/-- Exchanging what is dual: the connectives, the sigma, and the two kinds of fixpoints. -/
def dualization : Translation where
  psi := dualPsi
  sigma := dualSigma
  least := not

/-- A base of truth values from which fixpoints of both kinds start. -/
structure Base.Boolean (b : Base) : Prop where
  isTruth : ∃ w : Nat, b.IsTruth w
  starts : ∀ least, ∃ row, b.init least = .ok row

/-- Formulas about truth values: connectives, diamonds whose messages are the labels at one end of an edge and which ask for some or
every one of them to be true, and fixpoints over truth values. -/
def booleanVocabulary (settings : Settings) : Vocabulary where
  Psi name _ := ∃ known ∈ connectives, name = Bytes.ofString known
  Phi phi := ∀ key ∈ phi, (parseKey key).1 = Bytes.ofString "src" ∨ (parseKey key).1 = Bytes.ofString "tgt"
  Sigma key := ∃ known ∈ ["or", "uor", "and"], (parseKey key).1 = Bytes.ofString known
  Base name := ∀ b, settings.base? name = some b → b.Boolean

open KeyAux

/-- Duals have names that text can spell. -/
theorem dualization_spells (settings : Settings) : dualization.Spells (booleanVocabulary settings) where
  psiName := by
    rintro name arg ⟨known, hknown, rfl⟩ h
    simp only [connectives, List.mem_cons, List.not_mem_nil, or_false] at hknown
    rcases hknown with rfl | rfl | rfl | rfl | rfl | rfl
    all_goals exact clean_of_check (by decide +kernel) h.argBytes
  sigmaName := by
    rintro key - ⟨name, arg, h, rfl⟩
    show IsName (dualSigma (bracketed name arg))
    rw [dualSigma, parseKey_bracketed h]
    split
    · exact ⟨_, arg, clean_of_check (by decide +kernel) h.argBytes, rfl⟩
    · exact ⟨_, arg, clean_of_check (by decide +kernel) h.argBytes, rfl⟩

/-! ## Psi -/

/-- What a psi makes of labels that are there, on one graph and on a batch, if there is room for it. -/
def Psi.Makes (psi : Psi) (f : Tensor → Option Tensor) : Prop :=
  ∀ x, psi.single (some x) = some <$> orAborted (f x) ∧ ∀ index, psi.multiple (some x) (some index) = some <$> orAborted (f x)

theorem Psi.stored_makes (width : Int → Int) (f : Tensor → Option Tensor) : (Psi.stored width f).Makes f :=
  fun _ => ⟨rfl, fun _ => rfl⟩

/-- Functions that the complement turns into each other, and that give truth values for truth values. -/
structure DualMaps (f f' : Tensor → Option Tensor) : Prop where
  complement : ∀ x : Tensor, 0 ≤ x.rows → f' x.complement = (f x).map Tensor.complement
  truthful : ∀ x : Tensor, 0 ≤ x.rows → x.Truthful → ∀ y ∈ f x, y.Truthful

/-- Foldings of rows that the complement turns into each other. -/
theorem dualMaps_reduceRows {f g : List Label → Bool} (hfg : ∀ r : List Label, g (r.map Label.complement) = !f r) :
    DualMaps (fun x => x.reduceRows? .bool fun r => Label.ofBool (f r)) fun x => x.reduceRows? .bool fun r => Label.ofBool (g r) where
  complement x _ := by
    have hdual : ∀ r : List Label, Label.ofBool (g (r.map Label.complement)) = (Label.ofBool (f r)).complement := by
      intro r
      rw [hfg, Label.complement_ofBool]
    rw [Tensor.reduceRows?, Tensor.reduceRows?, Tensor.complement_rows, Tensor.complement_rowsReach, Tensor.reduceRows_complement hdual]
    by_cases hroom : 0 ≤ x.rows ∧ x.rows ≤ Tensor.capacity ∧ x.rowsReach = true
    · rw [if_pos hroom, if_pos hroom, Option.map_some]
    · rw [if_neg hroom, if_neg hroom, Option.map_none]
  truthful x _ _ y hy := by
    obtain ⟨-, rfl⟩ := Tensor.reduceRows?_some hy
    exact x.truthful_reduceRows _

theorem dualMaps_conjunction : DualMaps (fun x => x.reduceRows? .bool fun r => Label.ofBool (r.all fun v => !v.isZero))
    fun x => x.reduceRows? .bool fun r => Label.ofBool (r.any fun v => !v.isZero) := by
  refine dualMaps_reduceRows fun r => ?_
  rw [List.any_map, List.not_all_eq_any_not]
  simp [Function.comp_def]

theorem dualMaps_disjunction : DualMaps (fun x => x.reduceRows? .bool fun r => Label.ofBool (r.any fun v => !v.isZero))
    fun x => x.reduceRows? .bool fun r => Label.ofBool (r.all fun v => !v.isZero) := by
  refine dualMaps_reduceRows fun r => ?_
  rw [List.all_map, List.not_any_eq_all_not]
  simp [Function.comp_def]

theorem dualMaps_constant (b : Bool) : DualMaps (fun x => Tensor.full? x.rows [Label.ofBool b] .bool)
    fun x => Tensor.full? x.rows [Label.ofBool !b] .bool where
  complement x hx := by
    have hdual : [Label.ofBool !b] = [Label.ofBool b].map Label.complement := by rw [List.map_singleton, Label.complement_ofBool]
    obtain ⟨n, hn⟩ := Int.eq_ofNat_of_zero_le hx
    rw [hdual, Tensor.complement_rows, hn]
    exact Tensor.full?_complement _ _ _ fun v _ => Label.complement_cast v
  truthful x hx _ y hy := by
    obtain ⟨rfl, -⟩ := Tensor.full?_some hy
    obtain ⟨n, hn⟩ := Int.eq_ofNat_of_zero_le hx
    rw [hn, Tensor.full_natCast]
    refine Tensor.truthful_ofRows fun r hr v hv => ?_
    obtain rfl := (List.mem_replicate.mp hr).2
    exact List.mem_singleton.mp hv ▸ Label.isTruth_ofBool _

/-- Every connective and its dual are functions that the complement turns into each other. -/
theorem psi_dual {name : Bytes} (h : ∃ known ∈ connectives, name = Bytes.ofString known) (arg : Argument) :
    ∃ op op' f f', Builtin.psi.get name arg = .ok op ∧ Builtin.psi.get (dualPsi name) arg = .ok op' ∧ op.width = op'.width ∧
      op.Makes f ∧ op'.Makes f' ∧ DualMaps f f' := by
  obtain ⟨known, hknown, rfl⟩ := h
  simp only [connectives, List.mem_cons, List.not_mem_nil, or_false] at hknown
  rcases hknown with rfl | rfl | rfl | rfl | rfl | rfl
  · exact ⟨Builtin.identity, Builtin.identity, some, some, rfl, rfl, rfl, fun x => ⟨rfl, fun _ => rfl⟩, fun x => ⟨rfl, fun _ => rfl⟩,
      fun _ _ => rfl, fun _ _ hx _ hy => Option.some.inj hy ▸ hx⟩
  · exact ⟨Builtin.conjunction, Builtin.disjunction, _, _, rfl, rfl, rfl, Psi.stored_makes _ _, Psi.stored_makes _ _,
      dualMaps_conjunction⟩
  · exact ⟨Builtin.disjunction, Builtin.conjunction, _, _, rfl, rfl, rfl, Psi.stored_makes _ _, Psi.stored_makes _ _,
      dualMaps_disjunction⟩
  · exact ⟨Builtin.negation, Builtin.negation, fun x => some x.complement, fun x => some x.complement, rfl, rfl, rfl,
      fun x => ⟨rfl, fun _ => rfl⟩, fun x => ⟨rfl, fun _ => rfl⟩, fun _ _ => rfl,
      fun x _ _ y hy => Option.some.inj hy ▸ x.truthful_complement⟩
  · exact ⟨Builtin.constant .bool Label.one, Builtin.constant .bool Label.zero, _, _, rfl, rfl, rfl, Psi.stored_makes _ _,
      Psi.stored_makes _ _, dualMaps_constant true⟩
  · exact ⟨Builtin.constant .bool Label.zero, Builtin.constant .bool Label.one, _, _, rfl, rfl, rfl, Psi.stored_makes _ _,
      Psi.stored_makes _ _, dualMaps_constant false⟩

/-! ## Sigma and phi -/

open TruthAux in
/-- A sigma that asks for true messages, and its dual. -/
theorem sigma_dual {key : Bytes} (h : ∃ known ∈ ["or", "uor", "and"], (parseKey key).1 = Bytes.ofString known) :
    ∃ b, Builtin.sigma.resolve key = .ok (aggregation b) ∧ Builtin.sigma.resolve (dualSigma key) = .ok (aggregation !b) := by
  obtain ⟨b, hop, hand⟩ := resolve_truth h
  refine ⟨b, hop, ?_⟩
  rw [dualSigma]
  cases b with
  | false =>
    rw [if_pos (hand.mp rfl), Registry.resolve, parseKey_fst (show Bytes.ascii '[' ∉ Bytes.ofString "or" by decide +kernel)]
    rfl
  | true =>
    rw [if_neg (fun h => Bool.noConfusion (hand.mpr h)), Registry.resolve,
      parseKey_fst (show Bytes.ascii '[' ∉ Bytes.ofString "and" by decide +kernel)]
    rfl

open TruthAux in
/-- What the dual of a sigma makes of complements of messages. -/
theorem aggregation_complement (b : Bool) (m : Tensor) (targets : List Int) (n : Int) (current current' : Labels) :
    (aggregation !b).aggregate (some m.complement) targets n current' =
      Option.map Tensor.complement <$> (aggregation b).aggregate (some m) targets n current := by
  have hor : ∀ a v : Label, Builtin.allTrue a.complement v.complement = (Builtin.anyTrue a v).complement := by
    intro a v
    rw [Builtin.allTrue, Builtin.anyTrue, Label.isZero_complement]
    cases v.isZero <;> simp
  have hand : ∀ a v : Label, Builtin.anyTrue a.complement v.complement = (Builtin.allTrue a v).complement := by
    intro a v
    rw [Builtin.allTrue, Builtin.anyTrue, Label.isZero_complement]
    cases v.isZero <;> simp
  have hmap : ∀ y : Except Failure Tensor, some <$> Tensor.complement <$> y = Option.map Tensor.complement <$> some <$> y := by
    intro y
    cases y <;> rfl
  -- a node without messages keeps the row the reduction starts from, so that row has to be complemented too
  cases b with
  | true =>
    refine (congrArg (some <$> ·) ?_).trans (hmap _)
    exact Tensor.scatterReduce_complement hor Label.zero Label.zero m targets n
  | false =>
    refine (congrArg (some <$> ·) ?_).trans (hmap _)
    exact Tensor.scatterReduce_complement hand Label.one Label.one m targets n

open TruthAux in
theorem truthful_aggregation (b : Bool) (m : Tensor) (targets : List Int) (n : Int) (current : Labels) :
    EndsIn (fun y : Labels => ∃ t, y = some t ∧ t.Truthful) (fun _ => True) ((aggregation b).aggregate (some m) targets n current) := by
  cases b with
  | true => exact (Tensor.truthful_scatterReduce m targets n _ _ _).map fun y hy => ⟨y, rfl, hy⟩
  | false => exact (Tensor.truthful_scatterReduce m targets n _ _ _).map fun y hy => ⟨y, rfl, hy⟩

end ModalGraph
