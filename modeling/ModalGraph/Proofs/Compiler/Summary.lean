import ModalGraph.Proofs.Compiler.Performs

/-!
# Models in words

A model can be put into words if it has all nodes that its nodes read from and if each of them is complete: a variable with its binder,
a fixpoint also with its body. A compiler makes no other nodes (`Ledger.describe_isSome`), so all models that it returns can
(`compile_summary`).
-/

namespace ModalGraph

open Formula

theorem mapM_isSome {α β : Type} {f : α → Option β} {l : List α} (h : ∀ a ∈ l, (f a).isSome = true) : (l.mapM f).isSome = true := by
  induction l with
  | nil => rfl
  | cons a l ih =>
    obtain ⟨b, hb⟩ := Option.isSome_iff_exists.mp (h a List.mem_cons_self)
    obtain ⟨bs, hbs⟩ := Option.isSome_iff_exists.mp (ih fun a' ha' => h a' (List.mem_cons_of_mem _ ha'))
    rw [List.mapM_cons, hb, hbs]
    rfl

namespace Compiler

variable {ops : Registries} {settings : Settings} {es : List Entry}

/-- A node that is made can be put into words, whatever number it gets, under any key. -/
theorem Made.describe_isSome {t : Term} {n : Node} (h : Made ops settings es t n) (i : Nat) (key : Bytes) :
    ({ n with id := i, key := key } : Node).describe?.isSome = true := by
  cases h with
  | psi _ hn =>
    obtain ⟨op, -, hn⟩ := bind_ok hn
    cases hn
    rfl
  | concat => rfl
  | diamond _ _ hn =>
    obtain ⟨sigma, -, hn⟩ := bind_ok hn
    obtain ⟨phi, -, hn⟩ := bind_ok hn
    cases hn
    rfl
  | var => rfl
  | fix => rfl

/-- A listed node can be put into words. -/
theorem Ledger.describe_isSome (h : Ledger ops settings es) {m : Entry} (hm : m ∈ es) : m.node.describe?.isSome = true := by
  rcases h.made (h.getElem?_id hm) with rfl | ⟨n, hmade, hnode⟩
  · rfl
  · rw [hnode]
    exact hmade.describe_isSome _ _

/-- A model of listed nodes can be put into words. -/
theorem IsModel.summary_isSome {formula : Bytes} {m : Model} {t : Term} (hm : IsModel settings formula es m t)
    (h : Ledger ops settings es) : m.summary?.isSome = true := by
  obtain ⟨hholds, out, hout, -⟩ := hm.holds h
  have hlt := (List.getElem?_eq_some_iff.mp hout).1
  obtain ⟨htable, -, hdeps⟩ := reached_closed h.ordered hlt.le ⟨out.node, by rw [table, hout]; rfl⟩
  rw [← hm.nodes_eq] at htable hdeps
  have hcomplete : m.isComplete = true := by
    rw [Model.isComplete, Bool.and_eq_true, List.all_eq_true]
    refine ⟨Option.isSome_iff_exists.mpr hholds.output_some, fun n hn => List.all_eq_true.mpr fun d hd => ?_⟩
    exact Option.isSome_iff_exists.mpr (Model.node?_of_mem (hdeps n hn d hd))
  have hlines : ∀ n ∈ m.nodes, (m.line? n).isSome = true := by
    intro n hn
    obtain ⟨entry, hentry, rfl⟩ := Option.map_eq_some_iff.mp (htable n hn)
    rw [Model.line?, Option.isSome_map]
    exact h.describe_isSome (List.mem_of_getElem? hentry)
  obtain ⟨lines, hall⟩ := Option.isSome_iff_exists.mp (mapM_isSome hlines)
  rw [Model.summary?, hcomplete]
  show ((m.nodes.mapM m.line?).bind _).isSome = true
  rw [hall]
  rfl

/-- A model that a compiler returns for a text can be put into words. -/
theorem compile_summary {c : Compiler} (hc : Reachable ops settings c) {canceled : Bool} {text : Bytes} {m : Model}
    (hm : (c.compile canceled text).result = .ok m) : m.summary?.isSome = true := by
  obtain ⟨es, hlisted⟩ := hc.listed
  rw [compile] at hm
  split at hm
  · cases hm
  · rename_i e hparse
    obtain ⟨es', hlisted', -, hmatched⟩ := hlisted.compileAs (parse_wellFormed hparse).named canceled text
    rw [hm] at hmatched
    obtain ⟨t, -, hmodel⟩ := hmatched.of_ok
    exact hmodel.summary_isSome hlisted'.ledger

end Compiler

end ModalGraph
