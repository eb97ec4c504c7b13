import ModalGraph.Proofs.Compiler.Value
import ModalGraph.Proofs.Model.Reached

/-!
# The nodes of a ledger

A listed node reads from listed nodes with smaller numbers (`Ledger.deps_lt`), so the nodes of a ledger are an ordered table, and its
list of free variables has every variable that its term mentions (`Ledger.free`).
-/

namespace ModalGraph

open Formula Compiler

namespace NodesAux

theorem mem_insertName {name k : Bytes} {vs : List Bytes} : k ∈ insertName name vs ↔ k = name ∨ k ∈ vs := by
  induction vs with
  | nil => simp [insertName]
  | cons v vs ih =>
    rw [insertName]
    by_cases heq : name = v
    · subst heq
      rw [if_pos (beq_self_eq_true _), List.mem_cons]
      exact ⟨.inr, fun h => h.elim .inl id⟩
    · rw [if_neg (by simpa using heq)]
      split
      · rw [List.mem_cons]
      · rw [List.mem_cons, ih, List.mem_cons]
        exact or_left_comm

theorem mem_foldl_insertName {k : Bytes} {names vs : List Bytes} :
    k ∈ names.foldl (fun vs v => insertName v vs) vs ↔ k ∈ vs ∨ k ∈ names := by
  induction names generalizing vs with
  | nil => simp
  | cons v names ih =>
    rw [List.foldl_cons, ih, mem_insertName, List.mem_cons]
    rw [or_comm (a := k = v), or_assoc]

/-- The names that are free in one of some nodes. -/
theorem mem_freeUnion {k : Bytes} {ns : List Node} : k ∈ freeUnion ns ↔ ∃ n ∈ ns, k ∈ n.free := by
  have hfold : ∀ vs : List Bytes, k ∈ ns.foldl (fun vs n => n.free.foldl (fun vs v => insertName v vs) vs) vs ↔
      k ∈ vs ∨ ∃ n ∈ ns, k ∈ n.free := by
    induction ns with
    | nil => simp
    | cons n ns ih =>
      intro vs
      rw [List.foldl_cons, ih, mem_foldl_insertName, List.exists_mem_cons_iff, or_assoc]
  rw [freeUnion, hfold]
  simp

end NodesAux

namespace Compiler

section

variable {ops : Registries} {settings : Settings} {es : List Entry}

/-- The node that is made for an operator. -/
theorem atomNode_ok {c : Compiler} {name : Bytes} {arg : Argument} {input n : Node} (h : c.atomNode name arg input = .ok n) :
    ∃ psi, c.ops.psi.get name arg = .ok psi ∧ n.kind = .psi ∧ n.inputs = [input.id] ∧ n.operators = .psi psi ∧
      n.body = none ∧ n.free = input.free := by
  obtain ⟨psi, hpsi, h⟩ := bind_ok h
  cases h
  exact ⟨psi, hpsi, rfl, rfl, rfl, rfl, rfl⟩

/-- The message operator of a diamond is the one that its key resolves to. -/
theorem phi?_ok {c : Compiler} {phiKey : Option Bytes} {phi : Option Phi} (h : c.phi? phiKey = .ok phi) :
    Option.Rel (fun key op => c.ops.phi.resolve key = .ok op) phiKey phi := by
  cases phiKey with
  | none =>
    cases h
    exact .none
  | some key =>
    obtain ⟨op, hop, rfl⟩ := map_ok h
    exact .some hop

/-- The node that is made for a diamond. -/
theorem diamondNode_ok {c : Compiler} {direction : Direction} {phiKey : Option Bytes} {sigmaKey : Bytes} {input n : Node}
    (h : c.diamondNode direction phiKey sigmaKey input = .ok n) :
    ∃ phi sigma, c.ops.sigma.resolve sigmaKey = .ok sigma ∧ c.phi? phiKey = .ok phi ∧ n.kind = .diamond ∧
      n.inputs = [input.id] ∧ n.operators = .diamond phi sigma ∧ n.direction = .ofDirection direction ∧ n.body = none ∧
      n.free = input.free := by
  obtain ⟨sigma, hsigma, h⟩ := bind_ok h
  obtain ⟨phi, hphi, h⟩ := bind_ok h
  cases h
  exact ⟨phi, sigma, hsigma, hphi, rfl, rfl, rfl, rfl, rfl, rfl⟩

/-- A node that is made reads from nodes that are there. -/
theorem Made.deps {t : Term} {n : Node} (h : Made ops settings es t n) : ∀ d ∈ n.deps, ∃ m ∈ es, m.node.id = d := by
  cases h with
  | psi hm hn =>
    obtain ⟨psi, _, _, hin, _, hbody, _⟩ := atomNode_ok hn
    intro d hd
    rw [Node.deps, hin, hbody] at hd
    exact ⟨_, hm, (List.mem_singleton.mp hd).symm⟩
  | @concat ms hms =>
    intro d hd
    have hd : d ∈ (ms.map Entry.node).map Node.id := by simpa [Node.deps, concatNode] using hd
    obtain ⟨n, hn, rfl⟩ := List.mem_map.mp hd
    obtain ⟨m, hm, rfl⟩ := List.mem_map.mp hn
    exact ⟨m, hms m hm, rfl⟩
  | diamond hm _ hn =>
    obtain ⟨phi, sigma, _, _, _, hin, _, _, hbody, _⟩ := diamondNode_ok hn
    intro d hd
    rw [Node.deps, hin, hbody] at hd
    exact ⟨_, hm, (List.mem_singleton.mp hd).symm⟩
  | var name => exact fun d hd => by cases hd
  | @fix b depth least init operand body hop hbody =>
    intro d hd
    have hd : d = operand.node.id ∨ d = body.node.id := by simpa [Node.deps, fixpointNode] using hd
    rcases hd with rfl | rfl
    · exact ⟨operand, hop, rfl⟩
    · exact ⟨body, hbody, rfl⟩

theorem anyMentions_map {k : Bytes} {ms : List Entry} (h : Term.AnyMentions k (ms.map Entry.term)) : ∃ m ∈ ms, m.term.Mentions k := by
  induction ms with
  | nil => exact h.elim
  | cons m ms ih =>
    rcases h with h | h
    · exact ⟨m, List.mem_cons_self, h⟩
    · obtain ⟨m', hm', h'⟩ := ih h
      exact ⟨m', List.mem_cons_of_mem _ hm', h'⟩

/-- A node that is made lists every variable that its term mentions, if the nodes it is made of do. -/
theorem Made.free {t : Term} {n : Node} (h : Made ops settings es t n) (hes : ∀ m ∈ es, ∀ k, m.term.Mentions k → k ∈ m.node.free) :
    ∀ k, t.Mentions k → k ∈ n.free := by
  cases h with
  | psi hm hn =>
    obtain ⟨psi, _, _, _, _, _, hfree⟩ := atomNode_ok hn
    intro k hk
    rw [hfree]
    exact hes _ hm k hk
  | concat hms =>
    intro k hk
    obtain ⟨m, hm, hk⟩ := anyMentions_map hk
    exact NodesAux.mem_freeUnion.mpr ⟨m.node, List.mem_map_of_mem hm, hes m (hms m hm) k hk⟩
  | diamond hm _ hn =>
    obtain ⟨phi, sigma, _, _, _, _, _, _, _, hfree⟩ := diamondNode_ok hn
    intro k hk
    rw [hfree]
    exact hes _ hm k hk
  | var name hkey _ =>
    rintro k rfl
    exact List.mem_singleton.mpr hkey.symm
  | @fix b depth least init operand body _ hbody hkey =>
    rintro k ⟨hne, hk⟩
    refine List.mem_filter.mpr ⟨NodesAux.mem_freeUnion.mpr ⟨body.node, by simp, hes _ hbody k hk⟩, ?_⟩
    rw [hkey]
    exact bne_iff_ne.mpr hne

theorem Ledger.getElem?_id (h : Ledger ops settings es) {m : Entry} (hm : m ∈ es) : es[m.node.id]? = some m := by
  obtain ⟨i, hi⟩ := List.getElem?_of_mem hm
  rw [h.id hi]
  exact hi

/-- A listed node is known by its number. -/
theorem Ledger.eq_of_id (h : Ledger ops settings es) {m m' : Entry} (hm : m ∈ es) (hm' : m' ∈ es) (hid : m.node.id = m'.node.id) :
    m = m' := by
  have hsame := h.getElem?_id hm
  rw [hid, h.getElem?_id hm'] at hsame
  exact (Option.some.inj hsame).symm

/-- A listed node reads from listed nodes with smaller numbers. -/
theorem Ledger.deps_lt (h : Ledger ops settings es) {i : Nat} {m : Entry} (hi : es[i]? = some m) :
    ∀ d ∈ m.node.deps, d < i ∧ ∃ m' ∈ es, m'.node.id = d := by
  intro d hd
  rcases h.made hi with rfl | ⟨n, hmade, hnode⟩
  · cases hd
  · rw [hnode] at hd
    obtain ⟨m', hm', rfl⟩ := hmade.deps d hd
    obtain ⟨j, hj⟩ := List.getElem?_of_mem hm'
    have hj' := List.getElem?_take.symm.trans hj
    split at hj'
    · rename_i hlt
      rw [h.id hj']
      exact ⟨hlt, m', List.mem_of_mem_take hm', h.id hj'⟩
    · cases hj'

/-- A listed node lists every variable that its term mentions. -/
theorem Ledger.free (h : Ledger ops settings es) : ∀ m ∈ es, ∀ k, m.term.Mentions k → k ∈ m.node.free := by
  induction h with
  | start =>
    intro m hm k hk
    obtain rfl := List.mem_singleton.mp hm
    exact hk.elim
  | push _ hmade _ _ ih =>
    intro m hm k hk
    rcases List.mem_append.mp hm with hm | hm
    · exact ih m hm k hk
    · obtain rfl := List.mem_singleton.mp hm
      exact hmade.free ih k hk

theorem Ledger.ordered (h : Ledger ops settings es) : (table es).Ordered Node.deps fun i => i := by
  have hentry : ∀ {i n}, table es i = some n → ∃ m, es[i]? = some m ∧ m.node = n := fun hn =>
    Option.map_eq_some_iff.mp hn
  refine ⟨?_, ?_, ?_⟩
  · intro i n hn
    obtain ⟨m, hm, rfl⟩ := hentry hn
    exact h.id hm
  · intro i n hn d hd
    obtain ⟨m, hm, rfl⟩ := hentry hn
    exact (h.deps_lt hm d hd).1
  · intro i n hn d hd
    obtain ⟨m, hm, rfl⟩ := hentry hn
    obtain ⟨_, m', hm', rfl⟩ := h.deps_lt hm d hd
    exact ⟨m'.node, by rw [table, h.getElem?_id hm']; rfl⟩

/-- What a model of a ledger finds under a number is the node that is listed there. -/
theorem node_eq_of_holds {m : Model} (hh : m.Holds (table es)) {i : Nat} {e : Entry} (he : es[i]? = some e) {n : Node}
    (hn : m.node? i = some n) : e.node = n := by
  have htable := hh.table_eq hn
  rw [table, he] at htable
  exact Option.some.inj htable

end

end Compiler

end ModalGraph
