import Mathlib.Data.Finset.Card
import ModalGraph.Proofs.Model.Reached

/-!
# What a model collects from any finite graph

The nodes of a finite graph may name each other in circles. The walk that collects them enters each of them once, so it comes to its end
whatever they name (`foldl_visit_goes`), and it is told here without fuel, by the numbers that it has seen and those that it is done with
(`Tour.Goes`). It is done with exactly what it has newly seen, and it has seen all that this names (`Tour.Added`).

A number that is seen but not done is under way, and leads to whatever is entered meanwhile. So where a walk is done with a number before
one that it names, the two lead to each other (`Tour.Goes.sorted`), and in a graph without circles every node comes after all that it
names.
-/

namespace ModalGraph

/-- How far a walk has come: the numbers that it has seen, and those that it is done with, the last one first. -/
structure Tour where
  seen : List Nat
  done : List Nat

/-- A walk goes to some numbers, one after the other. It passes those that it has seen. It enters any other one, goes to all that this
one names, and is then done with it. -/
inductive Tour.Goes (succ : Nat → List Nat) : Tour → List Nat → Tour → Prop where
  | nil (t : Tour) : Tour.Goes succ t [] t
  | pass {t t' : Tour} {i : Nat} {is : List Nat} : i ∈ t.seen → Tour.Goes succ t is t' → Tour.Goes succ t (i :: is) t'
  | enter {t t₁ t' : Tour} {i : Nat} {is : List Nat} :
      i ∉ t.seen → Tour.Goes succ ⟨i :: t.seen, t.done⟩ (succ i) t₁ → Tour.Goes succ ⟨t₁.seen, i :: t₁.done⟩ is t' →
        Tour.Goes succ t (i :: is) t'

namespace NodeTable

/-- The numbers that the node of a number names. -/
def links (table : NodeTable) (next : Node → List Nat) (i : Nat) : List Nat :=
  ((table i).map next).getD []

/-- A finite graph: each of its numbers has a node, which stands there and names numbers of the graph. -/
structure Graph (table : NodeTable) (next : Node → List Nat) (ids : Finset Nat) : Prop where
  node : ∀ i ∈ ids, ∃ n, table i = some n ∧ n.id = i
  next_mem : ∀ i ∈ ids, ∀ n, table i = some n → ∀ d ∈ next n, d ∈ ids

/-- Nothing that can be reached from a number leads back to itself. -/
def Acyclic (table : NodeTable) (next : Node → List Nat) (out : Nat) : Prop :=
  ∀ i d, table.Leads next out i → table.Names next i d → ¬table.Leads next d i

/-- Some nodes are all that can be reached from a number, in the order in which a walk is done with them. -/
structure Collects (table : NodeTable) (next : Node → List Nat) (out : Nat) (ns : List Node) : Prop where
  /-- A walk from the number comes to its end with these nodes. -/
  walk : ∃ t, Tour.Goes (table.links next) ⟨[], []⟩ [out] t ∧ ns.map some = t.done.reverse.map table
  /-- No node is among them twice. -/
  nodup : (ns.map Node.id).Nodup
  mem_iff : ∀ n, n ∈ ns ↔ table n.id = some n ∧ table.Leads next out n.id
  getLast : ns.getLast? = table out
  /-- Without circles, every node comes after all that it names. -/
  before : table.Acyclic next out → ∀ front n back, ns = front ++ n :: back → ∀ d ∈ next n, d ∈ front.map Node.id

end NodeTable

namespace CollectedAux

section

variable {succ : Nat → List Nat} {t t' : Tour} {is : List Nat}

/-- The numbers that can be reached from a number. -/
abbrev Leads (succ : Nat → List Nat) : Nat → Nat → Prop :=
  Relation.ReflTransGen fun i d => d ∈ succ i

/-- A walk to some numbers is done with the numbers `new` besides. They are what it has seen besides, and can be reached from there. It
has seen all these numbers, and all that the new ones name. -/
structure Added (succ : Nat → List Nat) (t : Tour) (is : List Nat) (t' : Tour) (new : List Nat) : Prop where
  done_eq : t'.done = new ++ t.done
  seen_perm : t'.seen.Perm (new ++ t.seen)
  nodup : new.Nodup
  fresh : ∀ i ∈ new, i ∉ t.seen
  leads : ∀ d ∈ new, ∃ i ∈ is, Leads succ i d
  mem : ∀ i ∈ is, i ∈ t'.seen
  succ_mem : ∀ i ∈ new, ∀ d ∈ succ i, d ∈ t'.seen

theorem Added.mem_seen {new : List Nat} (h : Added succ t is t' new) {i : Nat} : i ∈ t'.seen ↔ i ∈ new ∨ i ∈ t.seen := by
  rw [h.seen_perm.mem_iff, List.mem_append]

theorem goes_added (h : Tour.Goes succ t is t') : ∃ new, Added succ t is t' new := by
  induction h with
  | nil t => exact ⟨[], rfl, .refl _, List.nodup_nil, nofun, nofun, nofun, nofun⟩
  | @pass t t' i is hi _ ih =>
    obtain ⟨new, h⟩ := ih
    refine ⟨new, h.done_eq, h.seen_perm, h.nodup, h.fresh, fun d hd => ?_, List.forall_mem_cons.mpr ⟨?_, h.mem⟩, h.succ_mem⟩
    · obtain ⟨j, hj, hlead⟩ := h.leads d hd
      exact ⟨j, List.mem_cons_of_mem _ hj, hlead⟩
    · exact h.mem_seen.mpr (.inr hi)
  | @enter t t₁ t' i is hi _ _ ih₁ ih₂ =>
    obtain ⟨inner, h₁⟩ := ih₁
    obtain ⟨outer, h₂⟩ := ih₂
    have hmono : ∀ {d}, d ∈ t₁.seen → d ∈ t'.seen := fun hd => h₂.mem_seen.mpr (.inr hd)
    have hentered : i ∈ t₁.seen := h₁.mem_seen.mpr (.inr List.mem_cons_self)
    refine ⟨outer ++ i :: inner, ?_, ?_, ?_, ?_, ?_, List.forall_mem_cons.mpr ⟨hmono hentered, h₂.mem⟩, ?_⟩
    · rw [h₂.done_eq, h₁.done_eq, List.append_assoc, List.cons_append]
    · rw [List.append_assoc]
      refine h₂.seen_perm.trans (.append_left outer (h₁.seen_perm.trans ?_))
      exact List.perm_middle
    · refine h₂.nodup.append (List.nodup_cons.mpr ⟨fun hin => h₁.fresh i hin List.mem_cons_self, h₁.nodup⟩) ?_
      intro d hd hin
      refine h₂.fresh d hd ?_
      rcases List.mem_cons.mp hin with rfl | hin
      · exact hentered
      · exact h₁.mem_seen.mpr (.inl hin)
    · intro d hd hseen
      rcases List.mem_append.mp hd with hd | hd
      · exact h₂.fresh d hd (h₁.mem_seen.mpr (.inr (List.mem_cons_of_mem _ hseen)))
      · rcases List.mem_cons.mp hd with rfl | hd
        · exact hi hseen
        · exact h₁.fresh d hd (List.mem_cons_of_mem _ hseen)
    · intro d hd
      rcases List.mem_append.mp hd with hd | hd
      · obtain ⟨j, hj, hlead⟩ := h₂.leads d hd
        exact ⟨j, List.mem_cons_of_mem _ hj, hlead⟩
      · refine ⟨i, List.mem_cons_self, ?_⟩
        rcases List.mem_cons.mp hd with rfl | hd
        · exact .refl
        · obtain ⟨j, hj, hlead⟩ := h₁.leads d hd
          exact .head hj hlead
    · intro d hd e he
      rcases List.mem_append.mp hd with hd | hd
      · exact h₂.succ_mem d hd e he
      · rcases List.mem_cons.mp hd with rfl | hd
        · exact hmono (h₁.mem e he)
        · exact hmono (h₁.succ_mem d hd e he)

/-- Every number comes after those that it names, the last one first, unless they lead back to it. -/
def Sorted (succ : Nat → List Nat) (done : List Nat) : Prop :=
  ∀ after i before, done = after ++ i :: before → ∀ d ∈ succ i, d ∈ before ∨ Leads succ d i

theorem Sorted.cons {done : List Nat} {i : Nat} (h : Sorted succ done) (hi : ∀ d ∈ succ i, d ∈ done ∨ Leads succ d i) :
    Sorted succ (i :: done) := by
  rintro (_ | ⟨j, after⟩) k before hsplit
  · obtain ⟨rfl, rfl⟩ := List.cons.inj hsplit
    exact hi
  · exact h after k before (List.cons.inj hsplit).2

/-- The numbers that are under way lead to those that the walk goes to. -/
def UnderWay (succ : Nat → List Nat) (t : Tour) (is : List Nat) : Prop :=
  ∀ j ∈ t.seen, j ∉ t.done → ∀ i ∈ is, Leads succ j i

theorem goes_sorted (h : Tour.Goes succ t is t') (hway : UnderWay succ t is) (ht : Sorted succ t.done) : Sorted succ t'.done := by
  induction h with
  | nil t => exact ht
  | pass _ _ ih => exact ih (fun j hj hdone i hi => hway j hj hdone i (List.mem_cons_of_mem _ hi)) ht
  | @enter t t₁ t' i is hi h₁ _ ih₁ ih₂ =>
    obtain ⟨inner, ha⟩ := goes_added h₁
    have hdone : t₁.done = inner ++ t.done := ha.done_eq
    have hinner : Sorted succ t₁.done := by
      refine ih₁ (fun j hj hnot d hd => ?_) ht
      rcases List.mem_cons.mp hj with rfl | hj
      · exact .single hd
      · exact (hway j hj hnot i List.mem_cons_self).tail hd
    refine ih₂ (fun j hj hnot d hd => ?_) (hinner.cons fun d hd => ?_)
    -- What is under way after the number is done was so before.
    · rw [List.mem_cons, hdone, List.mem_append, not_or, not_or] at hnot
      rcases ha.mem_seen.mp hj with hj | hj
      · exact absurd hj hnot.2.1
      · rcases List.mem_cons.mp hj with rfl | hj
        · exact absurd rfl hnot.1
        · exact hway j hj hnot.2.2 d (List.mem_cons_of_mem _ hd)
    · rw [hdone, List.mem_append]
      rcases ha.mem_seen.mp (ha.mem d hd) with hd | hd
      · exact .inl (.inl hd)
      · rcases List.mem_cons.mp hd with rfl | hd
        · exact .inr .refl
        · by_cases hd' : d ∈ t.done
          · exact .inl (.inr hd')
          · exact .inr (hway d hd hd' i List.mem_cons_self)

/-- A walk from the start is done with its number last. -/
theorem goes_root {out : Nat} (h : Tour.Goes succ ⟨[], []⟩ [out] t) : ∃ before, t.done = out :: before := by
  cases h with
  | pass hi => cases hi
  | enter _ _ hrest =>
    cases hrest
    exact ⟨_, rfl⟩

end

/-! ## Walks over a table -/

section

variable {table : NodeTable} {next : Node → List Nat} {ids : Finset Nat}

theorem links_of_some {i : Nat} {n : Node} (h : table i = some n) : table.links next i = next n := by
  rw [NodeTable.links, h]
  rfl

theorem mem_links {i d : Nat} : d ∈ table.links next i ↔ table.Names next i d := by
  unfold NodeTable.links NodeTable.Names
  cases table i with
  | none => simp
  | some n => simp

theorem leads_links : Leads (table.links next) = table.Leads next := by
  unfold Leads NodeTable.Leads
  exact congrArg _ (funext fun i => funext fun d => propext mem_links)

/-- A walk over a table has come as far as a walk over its numbers. -/
structure At (table : NodeTable) (w : Walk) (t : Tour) : Prop where
  seen_eq : w.seen = t.seen
  done_eq : w.done.map some = t.done.map table

/-- What a visit does with some fuel: where that is enough for the numbers that are not seen yet, the walk comes to its end. -/
def Ends (table : NodeTable) (next : Node → List Nat) (ids : Finset Nat) (fuel : Nat) : Prop :=
  ∀ i ∈ ids, ∀ {w t}, At table w t → (ids \ t.seen.toFinset).card ≤ fuel →
    ∃ t', Tour.Goes (table.links next) t [i] t' ∧ At table (Walk.visit table next fuel w i) t'

theorem unseen_mono {is : List Nat} {t t' : Tour} {succ : Nat → List Nat} (h : Tour.Goes succ t is t') :
    ids \ t'.seen.toFinset ⊆ ids \ t.seen.toFinset := by
  obtain ⟨new, ha⟩ := goes_added h
  refine Finset.sdiff_subset_sdiff (Finset.Subset.refl ids) fun i hi => ?_
  rw [List.mem_toFinset] at hi ⊢
  exact ha.mem_seen.mpr (.inr hi)

theorem foldl_visit_goes {fuel : Nat} (hends : Ends table next ids fuel) {is : List Nat} (his : ∀ i ∈ is, i ∈ ids) {w : Walk} {t : Tour}
    (hw : At table w t) (hfuel : (ids \ t.seen.toFinset).card ≤ fuel) :
    ∃ t', Tour.Goes (table.links next) t is t' ∧ At table (is.foldl (Walk.visit table next fuel) w) t' := by
  induction is generalizing w t with
  | nil => exact ⟨t, .nil t, hw⟩
  | cons i is ih =>
    obtain ⟨hi, his⟩ := List.forall_mem_cons.mp his
    obtain ⟨t₁, hgoes₁, hw₁⟩ := hends i hi hw hfuel
    obtain ⟨t', hgoes, hw'⟩ := ih his hw₁ ((Finset.card_le_card (unseen_mono hgoes₁)).trans hfuel)
    refine ⟨t', ?_, hw'⟩
    cases hgoes₁ with
    | pass hseen hnil =>
      cases hnil
      exact .pass hseen hgoes
    | enter hseen hinner hnil =>
      cases hnil
      exact .enter hseen hinner hgoes

theorem visit_goes (hg : table.Graph next ids) (fuel : Nat) : Ends table next ids fuel := by
  induction fuel with
  | zero =>
    intro i hi w t hw hfuel
    have hall : ids ⊆ t.seen.toFinset := Finset.sdiff_eq_empty_iff_subset.mp (Finset.card_eq_zero.mp (Nat.le_zero.mp hfuel))
    exact ⟨t, .pass (List.mem_toFinset.mp (hall hi)) (.nil t), hw⟩
  | succ fuel ih =>
    intro i hi w t hw hfuel
    rw [Walk.visit]
    by_cases hseen : i ∈ t.seen
    · rw [if_pos (by simpa [hw.seen_eq] using hseen)]
      exact ⟨t, .pass hseen (.nil t), hw⟩
    rw [if_neg (by simpa [hw.seen_eq] using hseen)]
    obtain ⟨n, hn, -⟩ := hg.node i hi
    rw [hn]
    have hw₀ : At table { w with seen := i :: w.seen } ⟨i :: t.seen, t.done⟩ := ⟨congrArg (i :: ·) hw.seen_eq, hw.done_eq⟩
    have hlt : (ids \ (i :: t.seen).toFinset).card < (ids \ t.seen.toFinset).card := by
      refine Finset.card_lt_card (Finset.ssubset_iff_of_subset ?_ |>.mpr ⟨i, ?_, ?_⟩)
      · exact Finset.sdiff_subset_sdiff (Finset.Subset.refl ids) (by simp)
      · simpa [hi] using hseen
      · simp
    obtain ⟨t₁, hgoes, hw₁⟩ := foldl_visit_goes ih (hg.next_mem i hi n hn) hw₀ (Nat.lt_succ_iff.mp (Nat.lt_of_lt_of_le hlt hfuel))
    have hlinks : table.links next i = next n := links_of_some hn
    rw [← hlinks] at hgoes
    refine ⟨⟨t₁.seen, i :: t₁.done⟩, .enter hseen hgoes (.nil _), hw₁.seen_eq, ?_⟩
    rw [List.map_cons, List.map_cons, hw₁.done_eq, hn]

theorem leads_mem (hg : table.Graph next ids) {i j : Nat} (hi : i ∈ ids) (h : table.Leads next i j) : j ∈ ids := by
  induction h with
  | refl => exact hi
  | tail _ hstep ih =>
    obtain ⟨n, hn, hd⟩ := hstep
    exact hg.next_mem _ ih n hn _ hd

/-- Nodes that stand at some numbers of a graph have these numbers. -/
theorem map_id_eq (hg : table.Graph next ids) {ns : List Node} {is : List Nat} (his : ∀ i ∈ is, i ∈ ids)
    (h : ns.map some = is.map table) : ns.map Node.id = is := by
  induction ns generalizing is with
  | nil => exact (List.map_eq_nil_iff.mp h.symm).symm
  | cons n ns ih =>
    obtain ⟨i, is, rfl, hi, hrest⟩ := List.map_eq_cons_iff.mp h.symm
    obtain ⟨hmem, his⟩ := List.forall_mem_cons.mp his
    obtain ⟨n', hn', hid⟩ := hg.node i hmem
    obtain rfl := Option.some.inj (hi.symm.trans hn')
    rw [List.map_cons, hid, ih his hrest.symm]

/-- The nodes of a walk that is done with what it has seen. -/
theorem collects_of_goes (hg : table.Graph next ids) {out : Nat} (hout : out ∈ ids) {ns : List Node} {t : Tour}
    (hgoes : Tour.Goes (table.links next) ⟨[], []⟩ [out] t) (hns : ns.map some = t.done.reverse.map table) :
    table.Collects next out ns := by
  obtain ⟨new, ha⟩ := goes_added hgoes
  obtain ⟨before, hroot⟩ := goes_root hgoes
  obtain rfl : t.done = new := by rw [ha.done_eq, List.append_nil]
  have hseen : ∀ {i}, i ∈ t.seen → i ∈ t.done := fun hi => (ha.mem_seen.mp hi).resolve_right nofun
  have hleads : ∀ {i}, i ∈ t.done → table.Leads next out i := by
    intro i hi
    obtain ⟨j, hj, hlead⟩ := ha.leads i hi
    rwa [List.mem_singleton.mp hj, leads_links] at hlead
  have hreached : ∀ {i}, table.Leads next out i → i ∈ t.done := by
    intro i hlead
    induction hlead with
    | refl => exact hroot ▸ List.mem_cons_self
    | tail _ hstep ih => exact hseen (ha.succ_mem _ ih _ (mem_links.mpr hstep))
  have hids : ns.map Node.id = t.done.reverse :=
    map_id_eq hg (fun i hi => leads_mem hg hout (hleads (List.mem_reverse.mp hi))) hns
  have htable : ∀ n ∈ ns, table n.id = some n ∧ n.id ∈ t.done := by
    intro n hn
    have hmem : some n ∈ t.done.reverse.map table := hns ▸ List.mem_map_of_mem hn
    obtain ⟨i, hi, hin⟩ := List.mem_map.mp hmem
    rw [List.mem_reverse] at hi
    obtain ⟨n', hn', rfl⟩ := hg.node i (leads_mem hg hout (hleads hi))
    obtain rfl := Option.some.inj (hin.symm.trans hn')
    exact ⟨hn', hi⟩
  refine ⟨⟨t, hgoes, hns⟩, ?_, fun n => ⟨fun hn => (htable n hn).imp_right hleads, fun ⟨hn, hlead⟩ => ?_⟩, ?_, ?_⟩
  · rw [hids, List.nodup_reverse]
    exact ha.nodup
  · have hmem : table n.id ∈ t.done.reverse.map table := List.mem_map_of_mem (List.mem_reverse.mpr (hreached hlead))
    rw [← hns, hn] at hmem
    obtain ⟨n', hn', heq⟩ := List.mem_map.mp hmem
    exact Option.some.inj heq ▸ hn'
  · have hlast := congrArg List.getLast? hns
    rw [hroot, List.reverse_cons, List.map_append, List.map_singleton, List.getLast?_concat, List.getLast?_map] at hlast
    obtain ⟨n, hn, -⟩ := hg.node out hout
    rw [hn] at hlast ⊢
    obtain ⟨n', hn', heq⟩ := Option.map_eq_some_iff.mp hlast
    rw [hn', Option.some.inj heq]
  · rintro hacyclic front n back rfl d hd
    have hsorted : Sorted (table.links next) t.done := goes_sorted hgoes nofun fun after i before h => by simp at h
    have hn : table n.id = some n := (htable n (by simp)).1
    have hsplit : t.done = (back.map Node.id).reverse ++ n.id :: (front.map Node.id).reverse := by
      have := congrArg List.reverse hids
      rw [List.reverse_reverse] at this
      simp [← this]
    rcases hsorted _ _ _ hsplit d (links_of_some hn ▸ hd) with hd' | hback
    · exact List.mem_reverse.mp hd'
    · rw [leads_links] at hback
      exact absurd hback (hacyclic n.id d (hleads (by simp [hsplit])) ⟨n, hn, hd⟩)

/-- The nodes that are reached in a finite graph. -/
theorem collects_reached (hg : table.Graph next ids) {size out : Nat} (hsize : ids.card ≤ size) (hout : out ∈ ids) :
    table.Collects next out (reached table next size out) := by
  have hfuel : (ids \ (Tour.mk [] []).seen.toFinset).card ≤ size + 1 :=
    (Finset.card_le_card Finset.sdiff_subset).trans (Nat.le_succ_of_le hsize)
  obtain ⟨t, hgoes, hat⟩ := visit_goes hg (size + 1) out hout (⟨rfl, rfl⟩ : At table {} ⟨[], []⟩) hfuel
  refine collects_of_goes hg hout hgoes ?_
  rw [reached, List.map_reverse, hat.done_eq, ← List.map_reverse]

end

end CollectedAux

open CollectedAux

namespace Model

section

variable {table : NodeTable} {ids : Finset Nat} {size out : Nat}

/-- A model finds under the numbers that its output leads to what the table has there. -/
theorem node?_of_leads {m : Model} (hg : table.Graph Node.deps ids) (hout : out ∈ ids) (h : table.Collects Node.deps out m.nodes) {i : Nat}
    (hlead : table.Leads Node.deps out i) : ∃ n ∈ m.nodes, n.id = i ∧ table i = some n ∧ m.node? i = some n := by
  obtain ⟨n, hn, rfl⟩ := hg.node i (leads_mem hg hout hlead)
  have hmem : n ∈ m.nodes := (h.mem_iff n).mpr ⟨hn, hlead⟩
  obtain ⟨n', hn'⟩ := node?_of_mem (List.mem_map_of_mem hmem)
  obtain ⟨hmem', hid⟩ := mem_of_node? hn'
  have htable := ((h.mem_iff n').mp hmem').1
  rw [hid, hn] at htable
  exact ⟨n, hmem, rfl, hn, Option.some.inj htable ▸ hn'⟩

theorem table_of_node? {m : Model} (h : table.Collects Node.deps out m.nodes) {i : Nat} {n : Node} (hn : m.node? i = some n) :
    table i = some n ∧ table.Leads Node.deps out i := by
  obtain ⟨hmem, rfl⟩ := mem_of_node? hn
  exact (h.mem_iff n).mp hmem

/-- The nodes of a model are a finite graph themselves, along links to nodes that they read from. -/
theorem graph_of_collects {m : Model} (hg : table.Graph Node.deps ids) (hout : out ∈ ids) (h : table.Collects Node.deps out m.nodes)
    {next : Node → List Nat} (hnext : ∀ n, next n ⊆ n.deps) : NodeTable.Graph m.node? next (m.nodes.map Node.id).toFinset := by
  refine ⟨fun i hi => ?_, fun i hi n hn d hd => ?_⟩
  · obtain ⟨n, hn⟩ := node?_of_mem (List.mem_toFinset.mp hi)
    exact ⟨n, hn, (mem_of_node? hn).2⟩
  · obtain ⟨htable, hlead⟩ := table_of_node? h hn
    obtain ⟨n', hn', rfl, -⟩ := node?_of_leads hg hout h (hlead.tail ⟨n, htable, hnext n hd⟩)
    exact List.mem_toFinset.mpr (List.mem_map_of_mem hn')

theorem leads_deps {next : Node → List Nat} (hnext : ∀ n, next n ⊆ n.deps) {i j : Nat} (h : table.Leads next i j) :
    table.Leads Node.deps i j :=
  h.lift id fun _ _ ⟨n, hn, hd⟩ => ⟨n, hn, hnext n hd⟩

/-- Among the nodes of a model the output leads to the same numbers as in the table. -/
theorem leads_node? {m : Model} (hg : table.Graph Node.deps ids) (hout : out ∈ ids) (h : table.Collects Node.deps out m.nodes)
    {next : Node → List Nat} (hnext : ∀ n, next n ⊆ n.deps) {i : Nat} :
    NodeTable.Leads m.node? next out i ↔ table.Leads next out i := by
  refine ⟨fun hlead => hlead.lift id fun _ _ ⟨n, hn, hd⟩ => ⟨n, (table_of_node? h hn).1, hd⟩, fun hlead => ?_⟩
  induction hlead with
  | refl => exact .refl
  | tail hlead hstep ih =>
    obtain ⟨n, hn, hd⟩ := hstep
    obtain ⟨n', -, -, hn', hnode⟩ := node?_of_leads hg hout h (leads_deps hnext hlead)
    obtain rfl := Option.some.inj (hn.symm.trans hn')
    exact ih.tail ⟨n, hnode, hd⟩

/-- A model of a finite graph takes along exactly the nodes that its output needs, each once and the output last, and if there are no
circles, each after all that it reads from. Its layers are the inputs and the nodes other than inputs that the output reads from without
going into the body of a fixpoint. -/
theorem ofTable_collects (hg : table.Graph Node.deps ids) (hsize : ids.card ≤ size) (hout : out ∈ ids) (formula : Bytes)
    (spec : InputSpec) :
    table.Collects Node.deps out (ofTable formula spec table size out).nodes ∧
      ∃ counted : List Node, (ofTable formula spec table size out).layers = spec.inputs + counted.length ∧
        counted.Nodup ∧ (∀ n, n ∈ counted ↔ n.kind ≠ .input ∧ table n.id = some n ∧ table.Leads Node.inputs out n.id) ∧
        counted ⊆ (ofTable formula spec table size out).nodes := by
  have hdeps : table.Collects Node.deps out (ofTable formula spec table size out).nodes := collects_reached hg hsize hout
  generalize hm : ofTable formula spec table size out = m at hdeps
  have houtput : m.output = out := hm ▸ rfl
  have hspec : m.spec = spec := hm ▸ rfl
  have hgm := graph_of_collects hg hout hdeps Node.inputs_subset
  obtain ⟨n, hn, hid, -⟩ := node?_of_leads hg hout hdeps .refl
  have houtm : out ∈ (m.nodes.map Node.id).toFinset := List.mem_toFinset.mpr (hid ▸ List.mem_map_of_mem hn)
  have hcard : (m.nodes.map Node.id).toFinset.card ≤ m.nodes.length :=
    (List.toFinset_card_le _).trans (List.length_map _).le
  have hinputs := collects_reached hgm hcard houtm
  have hmem : ∀ n, n ∈ reached m.node? Node.inputs m.nodes.length out ↔ table n.id = some n ∧ table.Leads Node.inputs out n.id := by
    intro n
    rw [hinputs.mem_iff, leads_node? hg hout hdeps Node.inputs_subset]
    refine and_congr_left fun hlead => ⟨fun h => (table_of_node? hdeps h).1, fun h => ?_⟩
    obtain ⟨n', -, -, hn', hnode⟩ := node?_of_leads hg hout hdeps (leads_deps Node.inputs_subset hlead)
    exact Option.some.inj (h.symm.trans hn') ▸ hnode
  refine ⟨hdeps, (reached m.node? Node.inputs m.nodes.length out).filter (·.kind != .input), ?_, ?_, fun n => ?_, fun n hn => ?_⟩
  · rw [layers, houtput, hspec, List.countP_eq_length_filter]
  · exact (List.Nodup.of_map Node.id hinputs.nodup).filter _
  · rw [List.mem_filter, hmem, and_comm, bne_iff_ne]
  · have hnode := ((hinputs.mem_iff n).mp (List.mem_of_mem_filter hn)).1
    exact (mem_of_node? hnode).1

end

end Model

namespace Sample

/-- An input, two nodes that read from each other, and a fixpoint whose body reads from one of them. -/
def circled : NodeTable
  | 0 => some { id := 0, key := [], kind := .input }
  | 1 => some { id := 1, key := [], kind := .psi, inputs := [0, 2] }
  | 2 => some { id := 2, key := [], kind := .concat, inputs := [1, 1] }
  | 3 => some { id := 3, key := [], kind := .psi, inputs := [2] }
  | 4 => some { id := 4, key := [], kind := .fixpoint, body := some 3 }
  | _ => none

theorem circled_graph : circled.Graph Node.deps (Finset.range 5) := by
  refine ⟨fun i hi => ?_, fun i hi n hn d hd => ?_⟩
  · match i, Finset.mem_range.mp hi with
    | 0, _ | 1, _ | 2, _ | 3, _ | 4, _ => exact ⟨_, rfl, rfl⟩
  · match i, Finset.mem_range.mp hi with
    | 0, _ | 1, _ | 2, _ | 3, _ | 4, _ =>
      obtain rfl := Option.some.inj hn
      revert hd
      revert d
      decide

end Sample

/-- All five nodes of a graph with a circle are collected from the fixpoint, which is the only one that counts beside the input of a
graph without edges. -/
theorem Model.ofTable_collects_sample :
    (Finset.range 5).card ≤ 5 ∧ 4 ∈ Finset.range 5 ∧ Sample.circled.Graph Node.deps (Finset.range 5) ∧
      Sample.circled.Collects Node.deps 4 (Model.ofTable [] ⟨⟨.float64, 1⟩, none, false, false⟩ Sample.circled 5 4).nodes ∧
      (Model.ofTable [] ⟨⟨.float64, 1⟩, none, false, false⟩ Sample.circled 5 4).layers = 2 := by
  have hcard : (Finset.range 5).card ≤ 5 := (Finset.card_range 5).le
  have hmem : 4 ∈ Finset.range 5 := by decide
  obtain ⟨hnodes, -⟩ := Model.ofTable_collects Sample.circled_graph hcard hmem [] ⟨⟨.float64, 1⟩, none, false, false⟩
  exact ⟨hcard, hmem, Sample.circled_graph, hnodes, by decide⟩

end ModalGraph
