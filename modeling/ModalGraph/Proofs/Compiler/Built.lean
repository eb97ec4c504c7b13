import ModalGraph.Proofs.Compiler.Nodes

/-!
# What an evaluation reads of a node

An evaluation looks at the kind of a node, at its operators and their names, and at the nodes that it names. For a node of a ledger
these go with its term (`Built`), one case for each constructor, with the entries that the parts of the term belong to.
-/

namespace ModalGraph

open Formula

namespace Term

/-- The terms that a term is made of. -/
def parts : Term → List Term
  | .input => []
  | .psi _ _ t => [t]
  | .concat ts => ts
  | .diamond _ _ _ t => [t]
  | .var .. => []
  | .fix _ _ _ t => [t]

end Term

namespace Compiler

/-- A node of a term: what an evaluation reads of it, and the entries of the parts of the term. -/
inductive Built (ops : Registries) (settings : Settings) (es : List Entry) : Term → Node → Prop where
  | input {n : Node} : n.kind = .input → Built ops settings es .input n
  | psi {u : Entry} {name : Bytes} {arg : Argument} {op : Psi} {n : Node} :
      u ∈ es → ops.psi.get name arg = .ok op → n.kind = .psi → n.inputs = [u.node.id] → n.operators = .psi op →
        n.opName = bracketed name arg → Built ops settings es (.psi name arg u.term) n
  | concat {us : List Entry} {n : Node} :
      (∀ u ∈ us, u ∈ es) → n.kind = .concat → (n.inputs = us.map fun u => u.node.id) →
        Built ops settings es (.concat (us.map Entry.term)) n
  | diamond {u : Entry} {direction : Direction} {phiKey : Option Bytes} {sigmaKey : Bytes} {phi : Option Phi} {sigma : Sigma}
      {n : Node} :
      u ∈ es → settings.input.adjacency = true → ops.sigma.resolve sigmaKey = .ok sigma →
        (fresh ops settings).phi? phiKey = .ok phi → n.kind = .diamond → n.inputs = [u.node.id] →
        n.operators = .diamond phi sigma → n.direction = .ofDirection direction → n.opName = sigmaKey →
        n.phiName = phiKey.getD [] → Built ops settings es (.diamond direction phiKey sigmaKey u.term) n
  | var {depth : Nat} {name : Bytes} {base : Base} {n : Node} :
      settings.base? name = some base → n.kind = .variable → n.key = variableKey depth name → Built ops settings es (.var depth name) n
  | fix {u : Entry} {least : Bool} {depth : Nat} {name : Bytes} {base : Base} {row : List Label} {b : Binder} {n : Node} :
      u ∈ es → settings.base? name = some base → base.init least = .ok row → n.kind = .fixpoint → n.binder = some b →
        n.body = some u.node.id → b.var = variableKey depth name → b.base = name → b.init = some row → b.dtype = base.dtype →
        (u.node.width = unknownWidth ∨ u.node.width = base.width) → Built ops settings es (.fix least depth name u.term) n

section

variable {ops : Registries} {settings : Settings} {es : List Entry}

/-- What is built out of some entries is built out of more of them. -/
theorem Built.mono {es' : List Entry} {t : Term} {n : Node} (h : Built ops settings es t n) (hsub : es ⊆ es') :
    Built ops settings es' t n := by
  cases h with
  | input hkind => exact .input hkind
  | psi hu hop hkind hin hops hname => exact .psi (hsub hu) hop hkind hin hops hname
  | concat hus hkind hin => exact .concat (fun u hu => hsub (hus u hu)) hkind hin
  | diamond hu hadj hsigma hphi hkind hin hops hdir hname hphiName =>
    exact .diamond (hsub hu) hadj hsigma hphi hkind hin hops hdir hname hphiName
  | var hbase hkind hkey => exact .var hbase hkind hkey
  | fix hu hbase hinit hkind hb hbody hvar hname hrow hdtype hwidth =>
    exact .fix (hsub hu) hbase hinit hkind hb hbody hvar hname hrow hdtype hwidth

/-- A node that is made is built in the way of its term, whatever number it gets, under the key of the term. -/
theorem Made.built {t : Term} {n : Node} (h : Made ops settings es t n) (i : Nat) :
    Built ops settings es t { n with id := i, key := t.key } := by
  cases h with
  | psi hm hn =>
    obtain ⟨op, hop, hn⟩ := bind_ok hn
    cases hn
    exact .psi hm hop rfl rfl rfl rfl
  | @concat ms hms =>
    exact .concat hms rfl List.map_map
  | diamond hm hadj hn =>
    obtain ⟨sigma, hsigma, hn⟩ := bind_ok hn
    obtain ⟨phi, hphi, hn⟩ := bind_ok hn
    cases hn
    exact .diamond hm hadj hsigma hphi rfl rfl rfl rfl rfl rfl
  | var name hkey hbase => exact .var hbase rfl rfl
  | fix _ hbody hkey hbase hwidth =>
    obtain ⟨hsome, hinit⟩ := base?_of_fixpointBase hbase
    refine .fix hbody hsome hinit rfl rfl rfl hkey rfl rfl rfl ?_
    rw [checkBodyWidth] at hwidth
    split at hwidth
    · cases hwidth
    · rename_i hfits
      rwa [not_and_or, not_not, not_not] at hfits

/-- A listed node is built out of listed entries. -/
theorem Ledger.built (h : Ledger ops settings es) {m : Entry} (hm : m ∈ es) : Built ops settings es m.term m.node := by
  rcases h.made (h.getElem?_id hm) with rfl | ⟨n, hmade, hnode⟩
  · exact .input rfl
  · rw [hnode]
    exact (hmade.built m.node.id).mono (List.take_subset _ es)

end

end Compiler

end ModalGraph
