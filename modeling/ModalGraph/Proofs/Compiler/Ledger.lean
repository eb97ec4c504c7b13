import Mathlib.Data.List.Basic
import ModalGraph.Proofs.Compiler.Term
import ModalGraph.Proofs.Step

/-!
# What the store of a compiler holds

A ledger lists the nodes of a store, each with the term that its key spells. It starts with the input, and every further node is
what its constructor makes out of nodes listed before it (`Made`), under a key that is new (`Ledger`). Since keys can be read back
in one way only, a term has one node. The operators of a listed node can be resolved, and its width is that of its term
(`Ledger.width`).
-/

namespace ModalGraph

open Formula

/-! ## The term of a formula -/

namespace Formula.Expr

/-- The variable of a name, below binders of variables over bases, the innermost one first. -/
def boundTerm : List (Bytes × Bytes) → Bytes → Option Term
  | [], _ => none
  | (v, base) :: scope, name => if v == name then some (.var scope.length base) else boundTerm scope name

mutual

/-- The computation that a formula stands for on an operand, below binders of variables over bases, the innermost one first. A
variable ignores the operand. -/
def term (scope : List (Bytes × Bytes)) (operand : Term) : Expr → Option Term
  | .atom _ name arg => some (.psi name arg operand)
  | .seq _ left right => do
    let l ← left.term scope operand
    right.term scope l
  | .par _ children => do
    let ts ← terms scope operand children
    return .concat ts
  | .diamond _ direction phi sigma => some (.diamond direction phi sigma operand)
  | .var _ name => boundTerm scope name
  | .fix _ least v base body => do
    let t ← body.term ((v, base) :: scope) operand
    return .fix least scope.length base t
  | .hole => none

/-- The computations that several formulas stand for on one operand. -/
def terms (scope : List (Bytes × Bytes)) (operand : Term) : List Expr → Option (List Term)
  | [] => some []
  | e :: es => do
    let t ← e.term scope operand
    let ts ← terms scope operand es
    return t :: ts

end

mutual

/-- A formula in which everything can be resolved: its operators, the bases of its fixpoints with the rows they start from, and
edges where it passes messages. -/
def Accepted (ops : Registries) (settings : Settings) : Expr → Prop
  | .atom _ name arg => ∃ psi, ops.psi.get name arg = .ok psi
  | .seq _ left right => left.Accepted ops settings ∧ right.Accepted ops settings
  | .par _ children => AllAccepted ops settings children
  | .diamond _ _ phi sigma =>
    settings.input.adjacency = true ∧ (∃ op, ops.sigma.resolve sigma = .ok op) ∧ ∀ key ∈ phi, ∃ op, ops.phi.resolve key = .ok op
  | .fix _ least _ base body =>
    (∃ b row, settings.base? base = some b ∧ b.init least = .ok row) ∧ body.Accepted ops settings
  | .var .. => True
  | .hole => False

/-- Several formulas in which everything can be resolved. -/
def AllAccepted (ops : Registries) (settings : Settings) : List Expr → Prop
  | [] => True
  | e :: es => e.Accepted ops settings ∧ AllAccepted ops settings es

end

end Formula.Expr

/-! ## What a fixpoint starts from -/

namespace Base

variable {base : Base} {least : Bool} {row : List Label} {f : Failure}

theorem init_eq_ok : base.init least = .ok row ↔ base.initFault? least = none ∧ base.rowOf ((base.start least).getD []) = row := by
  unfold init
  cases base.initFault? least <;> simp

theorem init_eq_error : base.init least = .error f ↔ base.initFault? least = some f := by
  unfold init
  cases base.initFault? least <;> simp

/-- A fixpoint can start from a value of the width of its base, and from one label if there is room for it at every feature. -/
theorem initFault?_eq_none : base.initFault? least = none ↔ ∃ vs, base.start least = some vs ∧
    ((vs.length : Int) = base.width ∨ vs.length = 1 ∧ 0 ≤ base.width ∧ base.width ≤ Tensor.capacity) := by
  unfold initFault?
  cases base.start least with
  | none => simp
  | some vs =>
    simp only [Option.some.injEq, exists_eq_left']
    by_cases hlen : (vs.length : Int) = base.width
    · simp [hlen]
    · rw [if_neg hlen]
      match vs with
      | [] => simpa using hlen
      | [_] =>
        simp only [ite_eq_right_iff, reduceCtorEq, imp_false, not_or, Int.not_lt, List.length_singleton, true_and]
        exact ⟨.inr, fun h => h.resolve_left (by simpa using hlen)⟩
      | _ :: _ :: _ => simpa using hlen

/-- The labels of a row are those of its value, in the domain of the base. -/
theorem mem_rowOf {vs : List Label} {v : Label} (h : v ∈ base.rowOf vs) : ∃ u ∈ vs, base.dtype.cast u = v := by
  unfold rowOf at h
  split at h
  · exact ⟨_, List.mem_singleton_self _, (List.eq_of_mem_replicate h).symm⟩
  · exact List.mem_map.mp h

/-- The row that a fixpoint starts from has the width of its base. -/
theorem length_init (h : base.init least = .ok row) : (row.length : Int) = base.width := by
  obtain ⟨hnone, rfl⟩ := init_eq_ok.mp h
  obtain ⟨vs, hvs, hlen⟩ := initFault?_eq_none.mp hnone
  rw [hvs, Option.getD_some, rowOf.eq_def]
  split
  · rw [List.length_replicate]
    rw [List.length_singleton] at hlen
    omega
  · rename_i hmany
    rw [List.length_map]
    refine hlen.resolve_right fun hone => ?_
    obtain ⟨v, rfl⟩ := List.length_eq_one_iff.mp hone.1
    exact hmany v rfl

end Base

namespace Compiler

/-- A node with the term that its key spells. -/
structure Entry where
  node : Node
  term : Term

/-- The nodes of a ledger by number. -/
def table (es : List Entry) : NodeTable :=
  fun i => es[i]?.map Entry.node

/-- A compiler that has not compiled anything. -/
def fresh (ops : Registries) (settings : Settings) : Compiler :=
  ⟨ops, settings, .start settings.input⟩

/-- Settings without faults make a compiler. -/
theorem new_of_faultless {ops : Registries} {settings : Settings} (h : settings.faults = []) :
    Compiler.new ops settings = .ok (fresh ops settings) := by
  rw [Compiler.new, Settings.validate, h]
  rfl

/-- What the constructor of a term makes out of the nodes of some entries. A fixpoint keeps an operand that its term does not
mention. -/
inductive Made (ops : Registries) (settings : Settings) (es : List Entry) : Term → Node → Prop where
  | psi {m : Entry} {name : Bytes} {arg : Argument} {n : Node} :
      m ∈ es → (fresh ops settings).atomNode name arg m.node = .ok n → Made ops settings es (.psi name arg m.term) n
  | concat {ms : List Entry} :
      (∀ m ∈ ms, m ∈ es) → Made ops settings es (.concat (ms.map Entry.term)) (concatNode (ms.map Entry.node))
  | diamond {m : Entry} {direction : Direction} {phi : Option Bytes} {sigma : Bytes} {n : Node} :
      m ∈ es → settings.input.adjacency = true → (fresh ops settings).diamondNode direction phi sigma m.node = .ok n →
        Made ops settings es (.diamond direction phi sigma m.term) n
  | var {b : Binding} {depth : Nat} (name : Bytes) :
      b.key = variableKey depth b.baseName → settings.base? b.baseName = some b.base →
        Made ops settings es (.var depth b.baseName) (variableNode b name)
  | fix {b : Binding} {depth : Nat} {least : Bool} {init : List Label} {operand body : Entry} :
      operand ∈ es → body ∈ es → b.key = variableKey depth b.baseName →
        (fresh ops settings).fixpointBase least b.baseName = .ok (b.base, init) → checkBodyWidth b body.node = .ok () →
        Made ops settings es (.fix least depth b.baseName body.term) (fixpointNode b least init operand.node body.node)

/-- The nodes of a store with their terms. -/
inductive Ledger (ops : Registries) (settings : Settings) : List Entry → Prop where
  | start : Ledger ops settings [⟨Store.inputNode settings.input, .input⟩]
  | push {es : List Entry} {t : Term} {n : Node} :
      Ledger ops settings es → Made ops settings es t n → t.Clean → (∀ m ∈ es, m.node.key ≠ t.key) →
        Ledger ops settings (es ++ [⟨{ n with id := es.length, key := t.key }, t⟩])

section

variable {ops : Registries} {settings : Settings} {es : List Entry}

/-- The key of a listed node spells its term, and the names in it are such as formula text can spell. -/
theorem Ledger.key (h : Ledger ops settings es) : ∀ m ∈ es, m.node.key = m.term.key ∧ m.term.Clean := by
  induction h with
  | start =>
    intro m hm
    obtain rfl := List.mem_singleton.mp hm
    exact ⟨rfl, trivial⟩
  | push _ _ hc _ ih =>
    intro m hm
    rcases List.mem_append.mp hm with hm | hm
    · exact ih m hm
    · obtain rfl := List.mem_singleton.mp hm
      exact ⟨rfl, hc⟩

/-- The number of a listed node is its place. -/
theorem Ledger.id (h : Ledger ops settings es) {i : Nat} {m : Entry} (hi : es[i]? = some m) : m.node.id = i := by
  induction h generalizing i m with
  | start =>
    obtain ⟨rfl, rfl⟩ : i = 0 ∧ _ = m := by
      cases i with
      | zero => exact ⟨rfl, Option.some.inj hi⟩
      | succ i => cases hi
    rfl
  | @push es t n _ _ _ _ ih =>
    rcases Nat.lt_or_ge i es.length with hlt | hge
    · rw [List.getElem?_append_left hlt] at hi
      exact ih hi
    · rw [List.getElem?_append_right hge] at hi
      have h0 : i - es.length = 0 := by
        have := (List.getElem?_eq_some_iff.mp hi).1
        simpa using this
      rw [h0] at hi
      obtain rfl := Option.some.inj hi
      show es.length = i
      omega

/-- A listed node other than the input was made out of nodes listed before it. -/
theorem Ledger.made (h : Ledger ops settings es) {i : Nat} {m : Entry} (hi : es[i]? = some m) :
    m = ⟨Store.inputNode settings.input, .input⟩ ∨
      ∃ n, Made ops settings (es.take i) m.term n ∧ m.node = { n with id := i, key := m.term.key } := by
  induction h generalizing i m with
  | start =>
    left
    have hm := List.mem_of_getElem? hi
    exact List.mem_singleton.mp hm
  | @push es t n _ hmade _ _ ih =>
    rcases Nat.lt_or_ge i es.length with hlt | hge
    · rw [List.getElem?_append_left hlt] at hi
      rw [List.take_append_of_le_length hlt.le]
      exact ih hi
    · right
      rw [List.getElem?_append_right hge] at hi
      have h0 : i - es.length = 0 := by
        have := (List.getElem?_eq_some_iff.mp hi).1
        simpa using this
      have hlen : i = es.length := by omega
      rw [h0] at hi
      obtain rfl := Option.some.inj hi
      subst hlen
      exact ⟨n, by rw [List.take_left]; exact hmade, rfl⟩

/-- A term has one node. -/
theorem Ledger.unique (h : Ledger ops settings es) {m m' : Entry} (hm : m ∈ es) (hm' : m' ∈ es) (hk : m.node.key = m'.node.key) :
    m = m' := by
  induction h with
  | start => rw [List.mem_singleton.mp hm, List.mem_singleton.mp hm']
  | push _ _ _ hnew ih =>
    rcases List.mem_append.mp hm with hm | hm <;> rcases List.mem_append.mp hm' with hm' | hm'
    · exact ih hm hm'
    · obtain rfl := List.mem_singleton.mp hm'
      exact absurd hk (hnew m hm)
    · obtain rfl := List.mem_singleton.mp hm
      exact absurd hk.symm (hnew m' hm')
    · rw [List.mem_singleton.mp hm, List.mem_singleton.mp hm']

end

/-- The base of a fixpoint is the one that the settings give. -/
theorem base?_of_fixpointBase {c : Compiler} {least : Bool} {name : Bytes} {base : Base} {init : List Label}
    (h : c.fixpointBase least name = .ok (base, init)) :
    c.settings.base? name = some base ∧ base.init least = .ok init := by
  unfold fixpointBase at h
  split at h
  · cases h
  · rename_i base' hbase
    obtain ⟨row, hrow, h⟩ := bind_ok h
    cases h
    exact ⟨hbase, inPlace_ok hrow⟩

/-- A fixpoint that has no start: its base is not there, or has no row to start from. -/
theorem fixpointBase_error {c : Compiler} {least : Bool} {name : Bytes} {f : Failure} (h : c.fixpointBase least name = .error f) :
    f = .unknownOperator "fixpoint" name ∨ ∃ base g, c.settings.base? name = some base ∧ base.init least = .error g ∧
      f = .within s!"fixpoint {name.toText}" g := by
  unfold fixpointBase at h
  split at h
  · cases h
    exact .inl rfl
  · rename_i base hbase
    rcases bind_error h with hinit | ⟨row, -, h⟩
    · cases hrow : base.init least with
      | ok row =>
        rw [hrow] at hinit
        cases hinit
      | error g =>
        rw [hrow] at hinit
        cases hinit
        exact .inr ⟨base, g, hbase, hrow, rfl⟩
    · cases h

/-- The terms of listed entries have names such as formula text can spell. -/
theorem Ledger.allClean {ops : Registries} {settings : Settings} {es ms : List Entry} (h : Ledger ops settings es)
    (hms : ∀ m ∈ ms, m ∈ es) : Term.AllClean (ms.map Entry.term) := by
  induction ms with
  | nil => exact trivial
  | cons m ms ih =>
    exact ⟨(h.key m (hms m List.mem_cons_self)).2, ih fun x hx => hms x (List.mem_cons_of_mem _ hx)⟩

/-- The key of a concatenation of listed entries. -/
theorem Ledger.concatKey_eq {ops : Registries} {settings : Settings} {es ms : List Entry} (h : Ledger ops settings es)
    (hms : ∀ m ∈ ms, m ∈ es) : concatKey ((ms.map Entry.node).map Node.key) = (Term.concat (ms.map Entry.term)).key := by
  rw [Term.key, Term.keys_eq_map, List.map_map, List.map_map]
  congr 1
  exact List.map_congr_left fun m hm => (h.key m (hms m hm)).1

/-- The operator of a listed term can be resolved. -/
theorem Ledger.psi {ops : Registries} {settings : Settings} {es : List Entry} (h : Ledger ops settings es) {m : Entry} (hm : m ∈ es)
    {name : Bytes} {arg : Argument} {t : Term} (ht : m.term = .psi name arg t) : ∃ psi, ops.psi.get name arg = .ok psi := by
  obtain ⟨i, hi⟩ := List.getElem?_of_mem hm
  rcases h.made hi with rfl | ⟨n, hmade, _⟩
  · cases ht
  rw [ht] at hmade
  cases hmade with
  | psi _ hn =>
    obtain ⟨psi, hpsi, _⟩ := bind_ok hn
    exact ⟨psi, hpsi⟩

/-- The operators of a listed diamond can be resolved, and there are edges. -/
theorem Ledger.diamond {ops : Registries} {settings : Settings} {es : List Entry} (h : Ledger ops settings es) {m : Entry}
    (hm : m ∈ es) {direction : Direction} {phi : Option Bytes} {sigma : Bytes} {t : Term}
    (ht : m.term = .diamond direction phi sigma t) :
    settings.input.adjacency = true ∧ (∃ op, ops.sigma.resolve sigma = .ok op) ∧ ∀ key ∈ phi, ∃ op, ops.phi.resolve key = .ok op := by
  obtain ⟨i, hi⟩ := List.getElem?_of_mem hm
  rcases h.made hi with rfl | ⟨n, hmade, _⟩
  · cases ht
  rw [ht] at hmade
  cases hmade with
  | diamond _ hadj hn =>
    obtain ⟨op, hop, hn⟩ := bind_ok hn
    obtain ⟨phi', hphi, _⟩ := bind_ok hn
    refine ⟨hadj, ⟨op, hop⟩, ?_⟩
    rintro key rfl
    cases hres : ops.phi.resolve key with
    | error f =>
      rw [phi?, show (fresh ops settings).ops = ops from rfl, hres] at hphi
      cases hphi
    | ok op => exact ⟨op, rfl⟩

end Compiler

/-! ## Widths -/

/-- Widths side by side: their sum, counted in 64 bits, unknown if one of them is. -/
def Width.total (ws : List Int) : Int :=
  ws.foldl (fun w v => if w = unknownWidth ∨ v = unknownWidth then unknownWidth else Tensor.word (w + v)) 0

/-- The width that the settings declare for a base. -/
def Settings.declaredWidth (settings : Settings) (base : Bytes) : Int :=
  ((settings.base? base).map Base.width).getD unknownWidth

namespace Term

mutual

/-- The width of the labels of a term, as far as it is known in advance. -/
def width (ops : Registries) (settings : Settings) : Term → Int
  | .input => settings.input.node.width
  | .psi name arg t =>
    match ops.psi.get name arg with
    | .ok op => Width.result op.width (t.width ops settings)
    | .error _ => unknownWidth
  | .concat ts => Width.total (widths ops settings ts)
  | .diamond _ phi sigma t =>
    match ops.sigma.resolve sigma, (Compiler.fresh ops settings).phi? phi with
    | .ok sigma, .ok none => Width.result sigma.width (t.width ops settings)
    | .ok sigma, .ok (some phi) => Width.result sigma.width (Width.result phi.width (t.width ops settings))
    | _, _ => unknownWidth
  | .var _ base => settings.declaredWidth base
  | .fix _ _ base _ => settings.declaredWidth base

/-- The widths of the labels of several terms. -/
def widths (ops : Registries) (settings : Settings) : List Term → List Int
  | [] => []
  | t :: ts => t.width ops settings :: widths ops settings ts

end

theorem widths_eq_map (ops : Registries) (settings : Settings) (ts : List Term) :
    widths ops settings ts = ts.map (width ops settings) := by
  induction ts with
  | nil => rfl
  | cons t ts ih => rw [widths, ih, List.map_cons]

/-- Whether a term is a fixpoint. -/
def isFix : Term → Bool
  | .fix .. => true
  | _ => false

end Term

namespace Compiler

section

variable {ops : Registries} {settings : Settings} {es : List Entry}

/-- A node that is made has the width of its term, if the nodes it is made of have. -/
theorem Made.width {t : Term} {n : Node} (h : Made ops settings es t n)
    (hes : ∀ m ∈ es, m.node.width = m.term.width ops settings) : n.width = t.width ops settings := by
  cases h with
  | psi hm hn =>
    obtain ⟨psi, hpsi, hn⟩ := bind_ok hn
    cases hn
    rw [Term.width, show ops.psi.get _ _ = .ok psi from hpsi, ← hes _ hm]
  | @concat ms hms =>
    show sumWidths (ms.map Entry.node) = _
    rw [Term.width, Term.widths_eq_map, sumWidths, Width.total, List.foldl_map, List.foldl_map, List.foldl_map]
    refine List.foldl_ext _ _ _ fun w m hm => ?_
    rw [hes m (hms m hm)]
  | diamond hm _ hn =>
    obtain ⟨sigma, hsigma, hn⟩ := bind_ok hn
    obtain ⟨phi, hphi, hn⟩ := bind_ok hn
    cases hn
    rw [Term.width, show ops.sigma.resolve _ = .ok sigma from hsigma, hphi, ← hes _ hm]
    cases phi with
    | none => rfl
    | some phi => rfl
  | var name _ hbase =>
    rw [Term.width, Settings.declaredWidth, hbase]
    rfl
  | fix _ _ _ hbase _ =>
    rw [Term.width, Settings.declaredWidth, show settings.base? _ = _ from (base?_of_fixpointBase hbase).1]
    rfl

/-- A listed node has the width of its term. -/
theorem Ledger.width (h : Ledger ops settings es) : ∀ m ∈ es, m.node.width = m.term.width ops settings := by
  induction h with
  | start =>
    intro m hm
    obtain rfl := List.mem_singleton.mp hm
    rfl
  | push _ hmade _ _ ih =>
    intro m hm
    rcases List.mem_append.mp hm with hm | hm
    · exact ih m hm
    · obtain rfl := List.mem_singleton.mp hm
      exact hmade.width ih

end

end Compiler

end ModalGraph
