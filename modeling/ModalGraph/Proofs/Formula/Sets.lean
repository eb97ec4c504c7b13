import Mathlib.Data.Set.Lattice
import Mathlib.Order.CompletePartialOrder
import ModalGraph.Proofs.Evaluator.Fixpoint
import ModalGraph.Proofs.Formula.Width

/-!
# Formulas as sets of nodes

Over truth values a formula stands for one set of nodes per feature. The connectives act on these sets, a diamond asks for some or for
every edge with a true message, and a fixpoint is the least or the greatest of the families of sets that its body brings back to
themselves: the meet of all families that the body makes no larger, or the join of all that it makes no smaller (`Expr.sets`). A
formula is positive (`Expr.Positive`) if it negates only what depends on no bound variable. The sets of a positive formula grow with
those of its variables (`sets_mono`).
-/

namespace ModalGraph

open Formula

/-- One set of nodes per feature. -/
abbrev Features (n : Nat) := List (Set (Fin n))

/-- What a formula is applied to: the labels of the input, or sets of nodes. -/
inductive Operand (n : Nat) where
  | raw
  | sets (ss : Features n)

/-! ## Names with a meaning in sets -/

/-- What a psi does to truth values. -/
inductive Connective where
  | same
  | all
  | any
  | constant (b : Bool)
  | bit (k : Nat)
  | not

/-- The place that the argument of a bit test names, from 0 to 62. -/
def bitPlace? : Argument → Option Nat
  | none => none
  | some text =>
    match Numeral.int64? (Bytes.toText (Text.trim text)).toList with
    | some k => if 0 ≤ k ∧ k ≤ 62 then some k.toNat else none
    | none => none

/-- The connective of a name. -/
def connective? (name : Bytes) (arg : Argument) : Option Connective :=
  if name = Bytes.ofString "id" then some .same
  else if name = Bytes.ofString "and" then some .all
  else if name = Bytes.ofString "or" then some .any
  else if name = Bytes.ofString "true" then some (.constant true)
  else if name = Bytes.ofString "false" then some (.constant false)
  else if name = Bytes.ofString "a" then some (.bit 0)
  else if name = Bytes.ofString "b" then some (.bit 1)
  else if name = Bytes.ofString "c" then some (.bit 2)
  else if name = Bytes.ofString "bit" then (bitPlace? arg).map .bit
  else if name = Bytes.ofString "not" then some .not
  else none

/-- What a message says: the label where the edge starts, the label where it goes, or the latter at edges with label zero. -/
inductive Carried where
  | origin
  | target
  | targetIfZero

/-- What the messages of a phi say. -/
def carried? : Option Bytes → Option Carried
  | none => some .origin
  | some key =>
    if key = Bytes.ofString "src" then some .origin
    else if key = Bytes.ofString "tgt" then some .target
    else if key = Bytes.ofString "z" then some .targetIfZero
    else none

/-- Whether a sigma asks for some true message, or for every message to be true. -/
def asksSome? (sigma : Bytes) : Option Bool :=
  if sigma = Bytes.ofString "or" ∨ sigma = Bytes.ofString "uor" then some true
  else if sigma = Bytes.ofString "and" then some false
  else none

/-! ## Sets of nodes -/

section

variable {n : Nat}

/-- The nodes with a label that is not zero, feature by feature. -/
def Operand.truth (s : Scene) : Operand n → Features n
  | .raw => (List.range s.input.x.cols.toNat).map fun j => {v | (s.input.x.label v j).isZero = false}
  | .sets ss => ss

/-- The nodes with a label whose bit `k` is set, feature by feature. -/
def Operand.bit (s : Scene) (k : Nat) : Operand n → Features n
  | .raw => (List.range s.input.x.cols.toNat).map fun j => {v | Builtin.hasBit k (s.input.x.label v j) = true}
  | .sets ss => ss.map fun S => if k = 0 then S else ∅

/-- What a connective makes of an operand. -/
def Connective.sets (s : Scene) (op : Operand n) : Connective → Features n
  | .same => op.truth s
  | .all => [{v | ∀ S ∈ op.truth s, v ∈ S}]
  | .any => [{v | ∃ S ∈ op.truth s, v ∈ S}]
  | .constant b => [{_v | b = true}]
  | .bit k => op.bit s k
  | .not => (op.truth s).map fun S => Sᶜ

/-- Edge number `k` carries messages from `u` to `v`. -/
def Scene.Joins (s : Scene) (direction : Direction) (k : Nat) (u v : Fin n) : Prop :=
  (s.ends direction).1[k]? = some (u : Int) ∧ (s.ends direction).2[k]? = some (v : Int)

/-- The label of an edge is zero; labels of width one go for every feature. -/
def Scene.EdgeZero (s : Scene) (k j : Nat) : Prop :=
  ∃ e, s.edgeLabels = some e ∧ (e.label k (if 1 < e.cols then j else 0)).isZero = true

/-- The message of an edge is true in a feature with a set of true nodes. -/
def Carried.holds (s : Scene) (S : Set (Fin n)) (k j : Nat) (u v : Fin n) : Carried → Prop
  | .origin => u ∈ S
  | .target => v ∈ S
  | .targetIfZero => v ∈ S ∧ s.EdgeZero k j

/-- The nodes that some edge brings a true message to, or every edge. Without edges there is no true message, and none that is not. -/
def Scene.diamondSet (s : Scene) (direction : Direction) (c : Carried) (asksSome : Bool) (j : Nat) (S : Set (Fin n)) : Set (Fin n) :=
  if asksSome then {v | ∃ k u, s.Joins direction k u v ∧ c.holds s S k j u v}
  else {v | ∀ k u, s.Joins direction k u v → c.holds s S k j u v}

/-- Sets as a family. -/
def family (w : Nat) (ss : Features n) (j : Fin w) : Set (Fin n) :=
  ss[j.val]?.getD ∅

/-- The least or the greatest family that a function brings back to itself. -/
def extremal {w : Nat} (least : Bool) (f : (Fin w → Set (Fin n)) → Fin w → Set (Fin n)) : Fin w → Set (Fin n) :=
  if least then sInf {T | f T ≤ T} else sSup {T | T ≤ f T}

mutual

/-- The sets that a formula stands for on an operand, given those of its variables. -/
def Formula.Expr.sets (s : Scene) (ρ : List (Bytes × Features n)) (op : Operand n) : Expr → Features n
  | .atom _ name arg =>
    match connective? name arg with
    | some c => c.sets s op
    | none => []
  | .seq _ left right => right.sets s ρ (.sets (left.sets s ρ op))
  | .par _ children => Expr.allSets s ρ op children
  | .diamond _ direction phi sigma =>
    match carried? phi, asksSome? sigma with
    | some c, some b => (op.truth s).mapIdx fun j S => s.diamondSet direction c b j S
    | _, _ => []
  | .fix _ least v base body =>
    List.ofFn (extremal least fun T : Fin (s.settings.baseWidth base) → Set (Fin n) =>
      family (s.settings.baseWidth base) (body.sets s ((v, List.ofFn T) :: ρ) op))
  | .var _ name => (ρ.lookup name).getD []
  | .hole => []

/-- The sets of several formulas, those of the first one first. -/
def Formula.Expr.allSets (s : Scene) (ρ : List (Bytes × Features n)) (op : Operand n) : List Expr → Features n
  | [] => []
  | e :: es => e.sets s ρ op ++ Expr.allSets s ρ op es

end

end

/-! ## Positive formulas -/

/-- The level of the binder of a name: how many binders are further out. -/
def level : List Bytes → Bytes → Option Nat
  | [], _ => none
  | v :: scope, name => if v == name then some scope.length else level scope name

mutual

/-- The levels of the binders that a formula depends on, below binders of `scope`, if its operand depends on those of `levels`. -/
def Formula.Expr.levels (scope : List Bytes) (levels : List Nat) : Expr → List Nat
  | .atom _ name arg =>
    match connective? name arg with
    | some (.constant _) => []
    | _ => levels
  | .seq _ left right => right.levels scope (left.levels scope levels)
  | .par _ children => Expr.allLevels scope levels children
  | .diamond .. => levels
  | .fix _ _ v _ body => (body.levels (v :: scope) levels).filter fun l => l != scope.length
  | .var _ name => (level scope name).toList
  | .hole => []

/-- The levels of the binders that one of several formulas depends on. -/
def Formula.Expr.allLevels (scope : List Bytes) (levels : List Nat) : List Expr → List Nat
  | [] => []
  | e :: es => e.levels scope levels ++ Expr.allLevels scope levels es

end

mutual

/-- A formula over truth values that negates only what depends on no binder. -/
def Formula.Expr.Positive (s : Scene) (scope : List Bytes) (levels : List Nat) : Expr → Prop
  | .atom _ name arg => ∃ c, connective? name arg = some c ∧ (c = .not → levels = [])
  | .seq _ left right => left.Positive s scope levels ∧ right.Positive s scope (left.levels scope levels)
  | .par _ children => Expr.AllPositive s scope levels children
  | .diamond _ _ phi sigma => (carried? phi).isSome = true ∧ (asksSome? sigma).isSome = true
  | .fix _ _ v base body =>
    (∃ b, s.settings.base? base = some b ∧ b.IsTruth (s.settings.baseWidth base)) ∧ body.Positive s (v :: scope) levels
  | .var .. => True
  | .hole => True

/-- Several formulas over truth values that negate only what depends on no binder. -/
def Formula.Expr.AllPositive (s : Scene) (scope : List Bytes) (levels : List Nat) : List Expr → Prop
  | [] => True
  | e :: es => e.Positive s scope levels ∧ Expr.AllPositive s scope levels es

end

theorem level_lt {scope : List Bytes} {name : Bytes} {l : Nat} (h : level scope name = some l) : l < scope.length := by
  induction scope with
  | nil => cases h
  | cons v scope ih =>
    rw [level] at h
    split at h
    · obtain rfl := Option.some.inj h
      exact Nat.lt_succ_self _
    · exact Nat.lt_succ_of_lt (ih h)

mutual

/-- Levels are those of binders in scope. -/
theorem levels_lt : ∀ (e : Expr) {scope : List Bytes} {levels : List Nat}, (∀ l ∈ levels, l < scope.length) →
    ∀ l ∈ e.levels scope levels, l < scope.length
  | .atom _ name arg, scope, levels, h => by
    rw [Expr.levels]
    split
    · simp
    · exact h
  | .seq _ left right, _, _, h => levels_lt right (levels_lt left h)
  | .par _ children, _, _, h => allLevels_lt children h
  | .diamond .., _, _, h => h
  | .fix _ _ v _ body, scope, levels, h => by
    intro l hl
    obtain ⟨hl, hne⟩ := List.mem_filter.mp hl
    have hlevels : ∀ l ∈ levels, l < (v :: scope).length := fun l hl => Nat.lt_succ_of_lt (h l hl)
    have hlt := levels_lt body hlevels l hl
    exact Nat.lt_of_le_of_ne (Nat.lt_succ_iff.mp hlt) (by simpa using hne)
  | .var _ name, scope, _, _ => by
    intro l hl
    rw [Expr.levels, Option.mem_toList] at hl
    exact level_lt hl
  | .hole, _, _, _ => by simp [Expr.levels]

/-- Levels of several formulas are those of binders in scope. -/
theorem allLevels_lt : ∀ (es : List Expr) {scope : List Bytes} {levels : List Nat}, (∀ l ∈ levels, l < scope.length) →
    ∀ l ∈ Expr.allLevels scope levels es, l < scope.length
  | [], _, _, _ => by simp [Expr.allLevels]
  | e :: es, _, _, h => by
    intro l hl
    rcases List.mem_append.mp hl with hl | hl
    · exact levels_lt e h l hl
    · exact allLevels_lt es h l hl

end

/-- Levels are those of variables with sets. -/
theorem levels_below {α : Type} {ρ : List (Bytes × α)} (e : Expr) {levels : List Nat} (h : ∀ l ∈ levels, l < ρ.length) :
    ∀ l ∈ e.levels (ρ.map Prod.fst) levels, l < ρ.length := by
  have hlevels : ∀ l ∈ levels, l < (ρ.map Prod.fst).length := by rwa [List.length_map]
  have hlt := levels_lt e hlevels
  rwa [List.length_map] at hlt

/-! ## Sets that grow with those of the variables -/

section

variable {n : Nat}

/-- As many features, each of them with more nodes. -/
def Features.Le (ss ss' : Features n) : Prop :=
  List.Forall₂ (· ⊆ ·) ss ss'

theorem Features.Le.refl (ss : Features n) : ss.Le ss :=
  List.forall₂_refl _

/-- The same labels, or sets with more nodes. -/
def Operand.Le : Operand n → Operand n → Prop
  | .raw, .raw => True
  | .sets ss, .sets ss' => ss.Le ss'
  | _, _ => False

theorem Operand.Le.refl (op : Operand n) : op.Le op := by
  cases op with
  | raw => trivial
  | sets ss => exact Features.Le.refl ss

theorem Operand.Le.truth {op op' : Operand n} (h : op.Le op') (s : Scene) : (op.truth s).Le (op'.truth s) := by
  cases op <;> cases op'
  · exact Features.Le.refl _
  · exact h.elim
  · exact h.elim
  · exact h

theorem Operand.Le.bit {op op' : Operand n} (h : op.Le op') (s : Scene) (k : Nat) : (op.bit s k).Le (op'.bit s k) := by
  cases op <;> cases op'
  · exact Features.Le.refl _
  · exact h.elim
  · exact h.elim
  · rw [Features.Le, Operand.bit, Operand.bit, List.forall₂_map_left_iff, List.forall₂_map_right_iff]
    refine List.Forall₂.imp (fun S S' hS => ?_) h
    split
    · exact hS
    · exact subset_rfl

namespace SetsAux

theorem exists_left {ss ss' : Features n} (h : ss.Le ss') : ∀ S' ∈ ss', ∃ S ∈ ss, S ⊆ S' := by
  induction h with
  | nil => simp
  | cons hS _ ih =>
    intro T hT
    rcases List.mem_cons.mp hT with rfl | hT
    · exact ⟨_, List.mem_cons_self, hS⟩
    · obtain ⟨S, hS, hsub⟩ := ih T hT
      exact ⟨S, List.mem_cons_of_mem _ hS, hsub⟩

theorem exists_right {ss ss' : Features n} (h : ss.Le ss') : ∀ S ∈ ss, ∃ S' ∈ ss', S ⊆ S' := by
  induction h with
  | nil => simp
  | cons hS _ ih =>
    intro T hT
    rcases List.mem_cons.mp hT with rfl | hT
    · exact ⟨_, List.mem_cons_self, hS⟩
    · obtain ⟨S', hS', hsub⟩ := ih T hT
      exact ⟨S', List.mem_cons_of_mem _ hS', hsub⟩

theorem mapIdx_le {ss ss' : Features n} (h : ss.Le ss') {f : Nat → Set (Fin n) → Set (Fin n)}
    (hf : ∀ j S S', S ⊆ S' → f j S ⊆ f j S') : Features.Le (ss.mapIdx f) (ss'.mapIdx f) := by
  induction h generalizing f with
  | nil => exact List.Forall₂.nil
  | cons hS _ ih =>
    rw [List.mapIdx_cons, List.mapIdx_cons]
    exact List.Forall₂.cons (hf 0 _ _ hS) (ih fun j => hf (j + 1))

theorem ofFn_le {w : Nat} {T T' : Fin w → Set (Fin n)} (h : T ≤ T') : Features.Le (List.ofFn T) (List.ofFn T') := by
  induction w with
  | zero => simp [Features.Le]
  | succ w ih =>
    rw [List.ofFn_succ, List.ofFn_succ]
    exact List.Forall₂.cons (h 0) (ih fun j => h j.succ)

theorem family_le {w : Nat} {ss ss' : Features n} (h : ss.Le ss') : family w ss ≤ family w ss' := by
  intro j
  have hplace : ∀ k : Nat, ss[k]?.getD ∅ ⊆ ss'[k]?.getD ∅ := by
    induction h with
    | nil => exact fun k => subset_rfl
    | cons hS _ ih =>
      intro k
      cases k with
      | zero => exact hS
      | succ k => exact ih k
  exact hplace j

theorem extremal_le {w : Nat} {least : Bool} {f g : (Fin w → Set (Fin n)) → Fin w → Set (Fin n)} (h : ∀ T, f T ≤ g T) :
    extremal least f ≤ extremal least g := by
  cases least with
  | true => exact sInf_le_sInf fun T hT => (h T).trans hT
  | false => exact sSup_le_sSup fun T hT => le_trans hT (h T)

theorem diamondSet_subset (s : Scene) (direction : Direction) (c : Carried) (b : Bool) (j : Nat) {S S' : Set (Fin n)} (h : S ⊆ S') :
    s.diamondSet direction c b j S ⊆ s.diamondSet direction c b j S' := by
  have hholds : ∀ k u v, c.holds s S k j u v → c.holds s S' k j u v := by
    intro k u v hv
    cases c with
    | origin => exact h hv
    | target => exact h hv
    | targetIfZero => exact ⟨h hv.1, hv.2⟩
  cases b with
  | true =>
    rintro v ⟨k, u, hjoins, hv⟩
    exact ⟨k, u, hjoins, hholds k u v hv⟩
  | false => exact fun v hv k u hjoins => hholds k u v (hv k u hjoins)

/-- A connective other than negation keeps the order of operands. -/
theorem connective_le (s : Scene) {op op' : Operand n} (h : op.Le op') {c : Connective} (hc : c = .not → op = op') :
    (c.sets s op).Le (c.sets s op') := by
  cases c with
  | same => exact h.truth s
  | all =>
    refine List.Forall₂.cons (fun v hv S' hS' => ?_) List.Forall₂.nil
    obtain ⟨S, hS, hsub⟩ := exists_left (h.truth s) S' hS'
    exact hsub (hv S hS)
  | any =>
    refine List.Forall₂.cons ?_ List.Forall₂.nil
    rintro v ⟨S, hS, hv⟩
    obtain ⟨S', hS', hsub⟩ := exists_right (h.truth s) S hS
    exact ⟨S', hS', hsub hv⟩
  | constant b => exact Features.Le.refl _
  | bit k => exact h.bit s k
  | not =>
    rw [hc rfl]
    exact Features.Le.refl _

end SetsAux

open SetsAux

/-- Sets of variables that grow, and stay the same at the levels in `Same`. -/
inductive Grows (Same : Nat → Prop) : List (Bytes × Features n) → List (Bytes × Features n) → Prop where
  | nil : Grows Same [] []
  | cons {ρ ρ' : List (Bytes × Features n)} {v : Bytes} {ss ss' : Features n} :
      Grows Same ρ ρ' → ss.Le ss' → (Same ρ.length → ss = ss') → Grows Same ((v, ss) :: ρ) ((v, ss') :: ρ')

theorem Grows.refl (Same : Nat → Prop) (ρ : List (Bytes × Features n)) : Grows Same ρ ρ := by
  induction ρ with
  | nil => exact .nil
  | cons p ρ ih => exact .cons ih (Features.Le.refl _) fun _ => rfl

theorem Grows.mono {Same Same' : Nat → Prop} {ρ ρ' : List (Bytes × Features n)} (h : Grows Same ρ ρ')
    (hsame : ∀ l < ρ.length, Same' l → Same l) : Grows Same' ρ ρ' := by
  induction h with
  | nil => exact .nil
  | @cons ρ ρ' v ss ss' _ hss heq ih =>
    exact .cons (ih fun l hl => hsame l (Nat.lt_succ_of_lt hl)) hss fun hl => heq (hsame ρ.length (Nat.lt_succ_self _) hl)

/-- The sets of a variable grow, and stay the same if the level of its binder is in `Same`. -/
theorem Grows.lookup {Same : Nat → Prop} {ρ ρ' : List (Bytes × Features n)} (h : Grows Same ρ ρ') (name : Bytes) :
    Features.Le ((ρ.lookup name).getD []) ((ρ'.lookup name).getD []) ∧
      ((∀ l ∈ (level (ρ.map Prod.fst) name).toList, Same l) → ρ.lookup name = ρ'.lookup name) := by
  induction h with
  | nil => exact ⟨Features.Le.refl _, fun _ => rfl⟩
  | @cons ρ ρ' v ss ss' _ hss heq ih =>
    rw [List.lookup_cons, List.lookup_cons, List.map_cons, level]
    by_cases hname : v = name
    · subst hname
      simp only [beq_self_eq_true, if_true, Option.getD_some, List.length_map, Option.toList_some, List.mem_singleton, forall_eq]
      exact ⟨hss, fun hl => by rw [heq hl]⟩
    · have hne : (name == v) = false := by simpa using Ne.symm hname
      simp only [hne, beq_iff_eq, hname, if_false]
      exact ih

mutual

/-- The sets of a positive formula grow with those of its variables and of its operand, and stay the same if these do. -/
theorem sets_mono (s : Scene) : ∀ (e : Expr) {levels : List Nat} {ρ ρ' : List (Bytes × Features n)} {op op' : Operand n}
    {Same : Nat → Prop}, e.Positive s (ρ.map Prod.fst) levels → (∀ l ∈ levels, l < ρ.length) → Grows Same ρ ρ' → op.Le op' →
      ((∀ l ∈ levels, Same l) → op = op') → (e.sets s ρ op).Le (e.sets s ρ' op') ∧
        ((∀ l ∈ e.levels (ρ.map Prod.fst) levels, Same l) → e.sets s ρ op = e.sets s ρ' op')
  | .atom _ name arg, levels, ρ, ρ', op, op', Same, hpos, _, _, hop, heq => by
    obtain ⟨c, hc, hnot⟩ := hpos
    rw [Expr.sets, Expr.sets, Expr.levels, hc]
    have hc' : c = .not → op = op' := fun h => heq (by rw [hnot h]; simp)
    refine ⟨connective_le s hop hc', fun hsame => ?_⟩
    cases c with
    | constant b => rfl
    | same | all | any | bit | not => rw [heq hsame]
  | .seq _ left right, levels, ρ, ρ', op, op', Same, hpos, hlevels, hρ, hop, heq => by
    have hl := sets_mono s left hpos.1 hlevels hρ hop heq
    exact sets_mono s right hpos.2 (levels_below left hlevels) hρ hl.1 fun hsame => by rw [hl.2 hsame]
  | .par _ children, levels, ρ, ρ', op, op', Same, hpos, hlevels, hρ, hop, heq => by
    rw [Expr.sets, Expr.sets, Expr.levels]
    exact allSets_mono s children hpos hlevels hρ hop heq
  | .diamond _ direction phi sigma, levels, ρ, ρ', op, op', Same, hpos, _, _, hop, heq => by
    obtain ⟨c, hc⟩ := Option.isSome_iff_exists.mp hpos.1
    obtain ⟨b, hb⟩ := Option.isSome_iff_exists.mp hpos.2
    simp only [Expr.sets, Expr.levels, hc, hb]
    exact ⟨mapIdx_le (hop.truth s) fun j S S' h => diamondSet_subset s direction c b j h, fun hsame => by rw [heq hsame]⟩
  | .fix _ least v base body, levels, ρ, ρ', op, op', Same, hpos, hlevels, hρ, hop, heq => by
    -- Inside the body the fixpoint's own variable has the same sets on both sides.
    have hbody : ∀ T : Fin (s.settings.baseWidth base) → Set (Fin n),
        Features.Le (body.sets s ((v, List.ofFn T) :: ρ) op) (body.sets s ((v, List.ofFn T) :: ρ') op') ∧
          ((∀ l ∈ body.levels (v :: ρ.map Prod.fst) levels, Same l ∨ l = ρ.length) →
            body.sets s ((v, List.ofFn T) :: ρ) op = body.sets s ((v, List.ofFn T) :: ρ') op') := by
      intro T
      refine sets_mono s body (ρ := (v, List.ofFn T) :: ρ) hpos.2 (fun l hl => Nat.lt_succ_of_lt (hlevels l hl)) (.cons ?_ ?_ ?_)
        hop ?_
      · exact hρ.mono fun l hl hl' => hl'.resolve_right (Nat.ne_of_lt hl)
      · exact Features.Le.refl _
      · exact fun _ => rfl
      · exact fun hsame => heq fun l hl => (hsame l hl).resolve_right (Nat.ne_of_lt (hlevels l hl))
    rw [Expr.sets, Expr.sets, Expr.levels]
    refine ⟨ofFn_le (extremal_le fun T => family_le (hbody T).1), fun hsame => ?_⟩
    congr 2
    funext T
    rw [(hbody T).2]
    intro l hl
    by_cases hown : l = ρ.length
    · exact .inr hown
    · exact .inl (hsame l (List.mem_filter.mpr ⟨hl, by simpa using hown⟩))
  | .var _ name, levels, ρ, ρ', op, op', Same, _, _, hρ, _, _ => by
    rw [Expr.sets, Expr.sets, Expr.levels]
    exact ⟨(hρ.lookup name).1, fun hsame => by rw [(hρ.lookup name).2 hsame]⟩
  | .hole, _, _, _, _, _, _, _, _, _, _, _ => ⟨Features.Le.refl _, fun _ => rfl⟩

/-- The sets of several positive formulas grow with those of their variables and of their operand. -/
theorem allSets_mono (s : Scene) : ∀ (es : List Expr) {levels : List Nat} {ρ ρ' : List (Bytes × Features n)} {op op' : Operand n}
    {Same : Nat → Prop}, Expr.AllPositive s (ρ.map Prod.fst) levels es → (∀ l ∈ levels, l < ρ.length) → Grows Same ρ ρ' →
      op.Le op' → ((∀ l ∈ levels, Same l) → op = op') → (Expr.allSets s ρ op es).Le (Expr.allSets s ρ' op' es) ∧
        ((∀ l ∈ Expr.allLevels (ρ.map Prod.fst) levels es, Same l) → Expr.allSets s ρ op es = Expr.allSets s ρ' op' es)
  | [], _, _, _, _, _, _, _, _, _, _, _ => ⟨Features.Le.refl _, fun _ => rfl⟩
  | e :: es, levels, ρ, ρ', op, op', Same, hpos, hlevels, hρ, hop, heq => by
    have he := sets_mono s e hpos.1 hlevels hρ hop heq
    have hes := allSets_mono s es hpos.2 hlevels hρ hop heq
    rw [Expr.allSets, Expr.allSets, Expr.allLevels]
    refine ⟨List.rel_append he.1 hes.1, fun hsame => ?_⟩
    rw [he.2 fun l hl => hsame l (List.mem_append_left _ hl), hes.2 fun l hl => hsame l (List.mem_append_right _ hl)]

end

/-- The body of a fixpoint makes larger families of larger families. -/
theorem body_monotone (s : Scene) {body : Expr} {v base : Bytes} {levels : List Nat} {ρ : List (Bytes × Features n)}
    {op : Operand n} (hpos : body.Positive s (v :: ρ.map Prod.fst) levels) (hlevels : ∀ l ∈ levels, l < ρ.length) :
    Monotone fun T : Fin (s.settings.baseWidth base) → Set (Fin n) =>
      family (s.settings.baseWidth base) (body.sets s ((v, List.ofFn T) :: ρ) op) := by
  intro T T' hT
  have hgrows : Grows (fun l => l < ρ.length) ((v, List.ofFn T) :: ρ) ((v, List.ofFn T') :: ρ) :=
    .cons (.refl _ ρ) (ofFn_le hT) fun h => absurd h (Nat.lt_irrefl _)
  exact family_le (sets_mono s body (ρ := (v, List.ofFn T) :: ρ) hpos (fun l hl => Nat.lt_succ_of_lt (hlevels l hl)) hgrows
    (.refl op) fun _ => rfl).1

end

end ModalGraph
