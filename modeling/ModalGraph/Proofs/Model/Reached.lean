import Mathlib.Data.List.Basic
import Mathlib.Data.List.Nodup
import Mathlib.Data.List.Perm.Basic
import Mathlib.Logic.Relation
import ModalGraph.Model.Basic

/-!
# The nodes that a model takes along

A table is ordered if a node stands at its own number and names nodes of the table with a smaller rank only. From a node of an
ordered table, `reached` collects the nodes that can be reached from it, each once (`mem_reached`, `reached_nodup`), provided that the
rank does not exceed the fuel. So a model of an ordered table finds under a number what the table has there, and misses none of the
nodes that its nodes read from (`ofTable_holds`); among its own nodes the rank of a number is how many of them have a smaller one.

Two tables whose numbers are matched such that matched nodes have the same key and name matched nodes are alike from matched nodes on:
the nodes reached there have the same keys, each as often (`reached_keys_perm`).
-/

namespace ModalGraph

namespace NodeTable

/-- A table in which every node stands at its number and names nodes of a smaller rank. -/
structure Ordered (table : NodeTable) (next : Node → List Nat) (rank : Nat → Nat) : Prop where
  id_eq : ∀ {i n}, table i = some n → n.id = i
  next_lt : ∀ {i n}, table i = some n → ∀ d ∈ next n, rank d < rank i
  next_some : ∀ {i n}, table i = some n → ∀ d ∈ next n, ∃ m, table d = some m

/-- The number of a node that the node of a number names. -/
def Names (table : NodeTable) (next : Node → List Nat) (i d : Nat) : Prop :=
  ∃ n, table i = some n ∧ d ∈ next n

/-- The numbers that can be reached from a number. -/
abbrev Leads (table : NodeTable) (next : Node → List Nat) : Nat → Nat → Prop :=
  Relation.ReflTransGen (table.Names next)

end NodeTable

/-- A walk whose nodes are nodes of the table, each done once, that come with all nodes they name. -/
structure Walk.Closed (table : NodeTable) (next : Node → List Nat) (w : Walk) : Prop where
  table_eq : ∀ n ∈ w.done, table n.id = some n
  next_mem : ∀ n ∈ w.done, ∀ d ∈ next n, d ∈ w.done.map Node.id
  done_seen : ∀ n ∈ w.done, n.id ∈ w.seen
  nodup : (w.done.map Node.id).Nodup

/-- A walk goes on from `w` to `w'`: nodes that are done stay done, every number that it enters is done, and it does not enter a
number twice. -/
structure Walk.Extends (w w' : Walk) : Prop where
  done_sub : ∀ n ∈ w.done, n ∈ w'.done
  seen_sub : ∀ i ∈ w.seen, i ∈ w'.seen
  seen_done : ∀ i ∈ w'.seen, i ∈ w.seen ∨ i ∈ w'.done.map Node.id
  done_new : ∀ n ∈ w'.done, n ∈ w.done ∨ n.id ∉ w.seen

section

variable {table : NodeTable} {next : Node → List Nat} {rank : Nat → Nat}

theorem Walk.Extends.refl (w : Walk) : w.Extends w :=
  ⟨fun _ hn => hn, fun _ hi => hi, fun _ hi => .inl hi, fun _ hn => .inl hn⟩

theorem Walk.Extends.done_id {w w' : Walk} (h : w.Extends w') {i : Nat} (hi : i ∈ w.done.map Node.id) : i ∈ w'.done.map Node.id := by
  obtain ⟨n, hn, rfl⟩ := List.mem_map.mp hi
  exact List.mem_map_of_mem (h.done_sub n hn)

theorem Walk.Extends.trans {w w' w'' : Walk} (h : w.Extends w') (h' : w'.Extends w'') : w.Extends w'' := by
  refine ⟨fun n hn => h'.done_sub n (h.done_sub n hn), fun i hi => h'.seen_sub i (h.seen_sub i hi), fun i hi => ?_, fun n hn => ?_⟩
  · rcases h'.seen_done i hi with hi | hi
    · exact (h.seen_done i hi).imp_right h'.done_id
    · exact .inr hi
  · rcases h'.done_new n hn with hn | hn
    · exact h.done_new n hn
    · exact .inr fun hi => hn (h.seen_sub _ hi)

/-- What a walk has done after visits at some numbers: it goes on, with these numbers done, and with no nodes but those that can be
reached from there. -/
structure Walk.Visited (table : NodeTable) (next : Node → List Nat) (w w' : Walk) (ids : List Nat) : Prop where
  closed : w'.Closed table next
  onward : w.Extends w'
  mem : ∀ i ∈ ids, i ∈ w'.done.map Node.id
  leads : ∀ n ∈ w'.done, n ∈ w.done ∨ ∃ i ∈ ids, table.Leads next i n.id

/-- What a visit does, at every number whose rank is below `fuel`, to a walk that has no number up to there under way. -/
def VisitSpec (table : NodeTable) (next : Node → List Nat) (rank : Nat → Nat) (fuel : Nat) : Prop :=
  ∀ (w : Walk) (id : Nat), rank id < fuel → (∃ n, table id = some n) → w.Closed table next →
    (∀ i ∈ w.seen, rank i ≤ rank id → i ∈ w.done.map Node.id) → w.Visited table next (Walk.visit table next fuel w id) [id]

/-- One visit after the other at numbers whose ranks are below `bound`. -/
theorem foldl_visit {fuel bound : Nat} (hspec : VisitSpec table next rank fuel) (hbound : bound ≤ fuel) {ds : List Nat}
    (hlt : ∀ d ∈ ds, rank d < bound) (hsome : ∀ d ∈ ds, ∃ n, table d = some n) {w : Walk} (hw : w.Closed table next)
    (hseen : ∀ i ∈ w.seen, rank i < bound → i ∈ w.done.map Node.id) :
    w.Visited table next (ds.foldl (Walk.visit table next fuel) w) ds := by
  induction ds generalizing w with
  | nil => exact ⟨hw, .refl w, by simp, fun n hn => .inl hn⟩
  | cons d ds ih =>
    have hd := hlt d List.mem_cons_self
    have hvisit := hspec w d (Nat.lt_of_lt_of_le hd hbound) (hsome d List.mem_cons_self) hw
      fun i hi hid => hseen i hi (Nat.lt_of_le_of_lt hid hd)
    have hseen' : ∀ i ∈ (Walk.visit table next fuel w d).seen, rank i < bound →
        i ∈ (Walk.visit table next fuel w d).done.map Node.id := by
      intro i hi hib
      rcases hvisit.onward.seen_done i hi with hi | hi
      · exact hvisit.onward.done_id (hseen i hi hib)
      · exact hi
    have hrest := ih (fun x hx => hlt x (List.mem_cons_of_mem _ hx)) (fun x hx => hsome x (List.mem_cons_of_mem _ hx))
      hvisit.closed hseen'
    refine ⟨hrest.closed, hvisit.onward.trans hrest.onward, fun x hx => ?_, fun n hn => ?_⟩
    · rcases List.mem_cons.mp hx with rfl | hx
      · exact hrest.onward.done_id (hvisit.mem x (List.mem_singleton_self x))
      · exact hrest.mem x hx
    · rcases hrest.leads n hn with hn | ⟨i, hi, hlead⟩
      · rcases hvisit.leads n hn with hn | ⟨i, hi, hlead⟩
        · exact .inl hn
        · obtain rfl := List.mem_singleton.mp hi
          exact .inr ⟨i, List.mem_cons_self, hlead⟩
      · exact .inr ⟨i, List.mem_cons_of_mem _ hi, hlead⟩

/-- A visit finishes the node of its number together with all that it names. The numbers under way are those of nodes it is reached
from, and these have a larger rank. -/
theorem visit_spec (ht : table.Ordered next rank) (fuel : Nat) : VisitSpec table next rank fuel := by
  induction fuel with
  | zero => exact fun w id h => absurd h (Nat.not_lt_zero _)
  | succ fuel ih =>
    intro w id hfuel ⟨n, hn⟩ hw hseen
    rw [Walk.visit]
    by_cases hc : w.seen.contains id = true
    · rw [if_pos hc]
      refine ⟨hw, .refl w, fun i hi => ?_, fun n hn => .inl hn⟩
      obtain rfl := List.mem_singleton.mp hi
      exact hseen i (by simpa using hc) (Nat.le_refl _)
    rw [if_neg hc, hn]
    dsimp only
    have hnew : id ∉ w.seen := by simpa using hc
    have hw₀ : Walk.Closed table next { w with seen := id :: w.seen } :=
      ⟨hw.table_eq, hw.next_mem, fun n hn => List.mem_cons_of_mem _ (hw.done_seen n hn), hw.nodup⟩
    have hseen₀ : ∀ i ∈ ({ w with seen := id :: w.seen } : Walk).seen, rank i < rank id → i ∈ w.done.map Node.id := by
      intro i hi hid
      rcases List.mem_cons.mp hi with rfl | hi
      · exact absurd hid (Nat.lt_irrefl _)
      · exact hseen i hi (Nat.le_of_lt hid)
    obtain ⟨hclosed, hext, hmem, hleads⟩ :=
      foldl_visit ih (Nat.lt_succ_iff.mp hfuel) (ht.next_lt hn) (ht.next_some hn) hw₀ hseen₀
    obtain rfl := ht.id_eq hn
    refine ⟨⟨?_, ?_, ?_, ?_⟩, ⟨?_, ?_, ?_, ?_⟩, ?_, ?_⟩
    · exact List.forall_mem_cons.mpr ⟨hn, hclosed.table_eq⟩
    · intro m hm d hd
      rcases List.mem_cons.mp hm with rfl | hm
      · exact List.mem_cons_of_mem _ (hmem d hd)
      · exact List.mem_cons_of_mem _ (hclosed.next_mem m hm d hd)
    · exact List.forall_mem_cons.mpr ⟨hext.seen_sub _ List.mem_cons_self, hclosed.done_seen⟩
    · refine List.nodup_cons.mpr ⟨fun hid => ?_, hclosed.nodup⟩
      -- The number is under way while the nodes it names are visited, so it is not entered again.
      obtain ⟨m, hm, hid⟩ := List.mem_map.mp hid
      rcases hext.done_new m hm with hm | hm
      · exact hnew (hid ▸ hw.done_seen m hm)
      · exact hm (hid ▸ List.mem_cons_self)
    · exact fun m hm => List.mem_cons_of_mem _ (hext.done_sub m hm)
    · exact fun i hi => hext.seen_sub i (List.mem_cons_of_mem _ hi)
    · intro i hi
      rcases hext.seen_done i hi with hi | hi
      · rcases List.mem_cons.mp hi with rfl | hi
        · exact .inr List.mem_cons_self
        · exact .inl hi
      · exact .inr (List.mem_cons_of_mem _ hi)
    · intro m hm
      rcases List.mem_cons.mp hm with rfl | hm
      · exact .inr hnew
      · exact (hext.done_new m hm).imp_right fun h hi => h (List.mem_cons_of_mem _ hi)
    · intro i hi
      rw [List.mem_singleton.mp hi]
      exact List.mem_cons_self
    · intro m hm
      rcases List.mem_cons.mp hm with rfl | hm
      · exact .inr ⟨m.id, List.mem_singleton_self _, .refl⟩
      · rcases hleads m hm with hm | ⟨d, hd, hlead⟩
        · exact .inl hm
        · exact .inr ⟨n.id, List.mem_singleton_self _, .head ⟨n, hn, hd⟩ hlead⟩

/-- A walk from a node of an ordered table, begun with enough fuel. -/
theorem visited_from (ht : table.Ordered next rank) {size out : Nat} (hout : rank out ≤ size) (hsome : ∃ n, table out = some n) :
    ({} : Walk).Visited table next (Walk.visit table next (size + 1) {} out) [out] :=
  visit_spec ht (size + 1) {} out (Nat.lt_succ_of_le hout) hsome ⟨by simp, by simp, by simp, by simp⟩ (by simp)

/-- The nodes reached from a node of an ordered table: they are nodes of the table, this one among them, and come with all that they
name. -/
theorem reached_closed (ht : table.Ordered next rank) {size out : Nat} (hout : rank out ≤ size) (hsome : ∃ n, table out = some n) :
    (∀ n ∈ reached table next size out, table n.id = some n) ∧ out ∈ (reached table next size out).map Node.id ∧
      ∀ n ∈ reached table next size out, ∀ d ∈ next n, d ∈ (reached table next size out).map Node.id := by
  have hvisit := visited_from ht hout hsome
  simp only [reached, List.mem_reverse, List.map_reverse]
  exact ⟨hvisit.closed.table_eq, hvisit.mem out (List.mem_singleton_self out), hvisit.closed.next_mem⟩

/-- No node is reached twice. -/
theorem reached_nodup (ht : table.Ordered next rank) {size out : Nat} (hout : rank out ≤ size) (hsome : ∃ n, table out = some n) :
    ((reached table next size out).map Node.id).Nodup := by
  rw [reached, List.map_reverse, List.nodup_reverse]
  exact (visited_from ht hout hsome).closed.nodup

/-- The nodes reached from a node of an ordered table are those whose numbers it leads to. -/
theorem mem_reached (ht : table.Ordered next rank) {size out : Nat} (hout : rank out ≤ size) (hsome : ∃ n, table out = some n)
    {n : Node} : n ∈ reached table next size out ↔ table n.id = some n ∧ table.Leads next out n.id := by
  obtain ⟨htable, hmem, hnext⟩ := reached_closed ht hout hsome
  constructor
  · intro hn
    refine ⟨htable n hn, ?_⟩
    rcases (visited_from ht hout hsome).leads n (List.mem_reverse.mp hn) with hn | ⟨i, hi, hlead⟩
    · cases hn
    · obtain rfl := List.mem_singleton.mp hi
      exact hlead
  · rintro ⟨hn, hlead⟩
    have hid : n.id ∈ (reached table next size out).map Node.id := by
      generalize n.id = i at hlead
      induction hlead with
      | refl => exact hmem
      | @tail j d _ hstep ih =>
        obtain ⟨k, hk, hd⟩ := hstep
        obtain ⟨k', hk', rfl⟩ := List.mem_map.mp ih
        obtain rfl := Option.some.inj ((htable k' hk').symm.trans hk)
        exact hnext _ hk' d hd
    obtain ⟨n', hn', heq⟩ := List.mem_map.mp hid
    have hsame := htable n' hn'
    rw [heq, hn] at hsame
    exact Option.some.inj hsame ▸ hn'

end

/-- A walk from a number is the same in a table that has the same nodes up to there, and with other fuel that suffices. -/
theorem visit_congr {table table' : NodeTable} {next : Node → List Nat} {size : Nat} (ht : table.Ordered next fun i => i)
    (hsame : ∀ i < size, table' i = table i) (fuel : Nat) : ∀ (fuel' : Nat) (w : Walk) (id : Nat), id < size → id < fuel →
      id < fuel' → Walk.visit table next fuel w id = Walk.visit table' next fuel' w id := by
  induction fuel with
  | zero => exact fun _ _ id _ h => absurd h (Nat.not_lt_zero id)
  | succ fuel ih =>
    intro fuel' w id hid hfuel hfuel'
    cases fuel' with
    | zero => exact absurd hfuel' (Nat.not_lt_zero id)
    | succ fuel' =>
      rw [Walk.visit, Walk.visit, hsame id hid]
      split
      · rfl
      · cases hn : table id with
        | none => rfl
        | some n =>
          have hfold : ∀ w, (next n).foldl (Walk.visit table next fuel) w = (next n).foldl (Walk.visit table' next fuel') w := by
            refine fun w => List.foldl_ext _ _ w fun w d hd => ?_
            have hlt := ht.next_lt hn d hd
            exact ih fuel' w d (by omega) (by omega) (by omega)
          simp only [hfold]

/-- The nodes reached from a number are the same in a larger table. -/
theorem reached_congr {table table' : NodeTable} {next : Node → List Nat} {size size' out : Nat} (ht : table.Ordered next fun i => i)
    (hsame : ∀ i < size, table' i = table i) (hout : out < size) (hle : size ≤ size') :
    reached table' next size' out = reached table next size out := by
  rw [reached, reached, visit_congr ht hsame (size + 1) (size' + 1) {} out hout (by omega) (by omega)]

/-! ## Tables that are alike -/

namespace NodeTable

/-- Matched numbers have nodes of the same key, and what the first one names is matched by what the second one names. -/
structure Follows (table table' : NodeTable) (next : Node → List Nat) (R : Nat → Nat → Prop) : Prop where
  key_eq : ∀ {i j}, R i j → ∃ n n', table i = some n ∧ table' j = some n' ∧ n.key = n'.key
  next_match : ∀ {i j n n'}, R i j → table i = some n → table' j = some n' → ∀ d ∈ next n, ∃ d' ∈ next n', R d d'

/-- Where a number leads to, a matched number leads to a match of it. -/
theorem Follows.leads {table table' : NodeTable} {next : Node → List Nat} {R : Nat → Nat → Prop}
    (h : table.Follows table' next R) {i j k : Nat} (hij : R i j) (hlead : table.Leads next i k) :
    ∃ l, R k l ∧ table'.Leads next j l := by
  induction hlead with
  | refl => exact ⟨j, hij, .refl⟩
  | tail _ hstep ih =>
    obtain ⟨l, hkl, hlead⟩ := ih
    obtain ⟨n, hn, hd⟩ := hstep
    obtain ⟨_, n', hn₁, hn', _⟩ := h.key_eq hkl
    obtain ⟨d', hd', hdd⟩ := h.next_match hkl hn hn' _ hd
    exact ⟨d', hdd, hlead.tail ⟨n', hn', hd'⟩⟩

/-- A table in which no two numbers have nodes of the same key. -/
def Keyed (table : NodeTable) : Prop :=
  ∀ ⦃i j n n'⦄, table i = some n → table j = some n' → n.key = n'.key → i = j

end NodeTable

section

variable {table table' : NodeTable} {next : Node → List Nat} {rank rank' : Nat → Nat} {R : Nat → Nat → Prop}

/-- The keys of the nodes reached from a number are keys of nodes reached from a matched number. -/
theorem reached_keys_subset (ht : table.Ordered next rank) (ht' : table'.Ordered next rank') (hR : table.Follows table' next R)
    {size size' out out' : Nat} (hout : R out out') (hle : rank out ≤ size) (hle' : rank' out' ≤ size') :
    (reached table next size out).map Node.key ⊆ (reached table' next size' out').map Node.key := by
  obtain ⟨n₀, n₀', hn₀, hn₀', -⟩ := hR.key_eq hout
  intro k hk
  obtain ⟨n, hn, rfl⟩ := List.mem_map.mp hk
  obtain ⟨hnode, hlead⟩ := (mem_reached ht hle ⟨n₀, hn₀⟩).mp hn
  obtain ⟨j, hj, hlead'⟩ := hR.leads hout hlead
  obtain ⟨m, n', hm, hn', hkey⟩ := hR.key_eq hj
  obtain rfl := Option.some.inj (hnode.symm.trans hm)
  obtain rfl := ht'.id_eq hn'
  exact hkey ▸ List.mem_map_of_mem ((mem_reached ht' hle' ⟨n₀', hn₀'⟩).mpr ⟨hn', hlead'⟩)

/-- No two nodes that are reached have the same key, where no two nodes of the table have. -/
theorem reached_keys_nodup (ht : table.Ordered next rank) (hkeyed : table.Keyed) {size out : Nat} (hle : rank out ≤ size)
    (hsome : ∃ n, table out = some n) : ((reached table next size out).map Node.key).Nodup := by
  have hnodup : (reached table next size out).Nodup := .of_map Node.id (reached_nodup ht hle hsome)
  refine hnodup.map_on fun n hn n' hn' hkey => ?_
  have htable := ((mem_reached ht hle hsome).mp hn).1
  have htable' := ((mem_reached ht hle hsome).mp hn').1
  have hid := hkeyed htable htable' hkey
  rw [hid, htable'] at htable
  exact (Option.some.inj htable).symm

/-- The nodes reached from matched numbers of tables that follow each other have the same keys. -/
theorem reached_keys_perm (ht : table.Ordered next rank) (ht' : table'.Ordered next rank') (hkeyed : table.Keyed)
    (hkeyed' : table'.Keyed) (hR : table.Follows table' next R) {R' : Nat → Nat → Prop} (hR' : table'.Follows table next R')
    {size size' out out' : Nat} (hout : R out out') (hout' : R' out' out) (hle : rank out ≤ size) (hle' : rank' out' ≤ size') :
    ((reached table next size out).map Node.key).Perm ((reached table' next size' out').map Node.key) := by
  obtain ⟨n, n', hn, hn', -⟩ := hR.key_eq hout
  rw [List.perm_ext_iff_of_nodup (reached_keys_nodup ht hkeyed hle ⟨n, hn⟩) (reached_keys_nodup ht' hkeyed' hle' ⟨n', hn'⟩)]
  exact fun k => ⟨fun hk => reached_keys_subset ht ht' hR hout hle hle' hk,
    fun hk => reached_keys_subset ht' ht hR' hout' hle' hle hk⟩

end

/-! ## Models of an ordered table -/

theorem Node.inputs_subset (n : Node) : n.inputs ⊆ n.deps :=
  List.subset_append_left _ _

namespace Model

/-- A model that finds under its numbers what a table has there, and that has its output and all nodes that its nodes read from. -/
structure Holds (m : Model) (table : NodeTable) : Prop where
  table_eq : ∀ {i n}, m.node? i = some n → table i = some n
  output_some : ∃ n, m.node? m.output = some n
  deps_some : ∀ {i n}, m.node? i = some n → ∀ d ∈ n.deps, ∃ n', m.node? d = some n'

theorem mem_of_node? {m : Model} {i : Nat} {n : Node} (h : m.node? i = some n) : n ∈ m.nodes ∧ n.id = i :=
  ⟨List.mem_of_find?_eq_some h, by simpa using List.find?_some h⟩

theorem node?_of_mem {m : Model} {i : Nat} (h : i ∈ m.nodes.map Node.id) : ∃ n, m.node? i = some n := by
  obtain ⟨n, hn, hi⟩ := List.mem_map.mp h
  exact Option.isSome_iff_exists.mp (List.find?_isSome.mpr ⟨n, hn, by simpa using hi⟩)

/-- A model of an ordered table holds what its output needs. -/
theorem ofTable_holds {table : NodeTable} {rank : Nat → Nat} (ht : table.Ordered Node.deps rank) (formula : Bytes) (spec : InputSpec)
    {size out : Nat} (hout : rank out ≤ size) (hsome : ∃ n, table out = some n) :
    (ofTable formula spec table size out).Holds table := by
  obtain ⟨htable, hmem, hdeps⟩ := reached_closed ht hout hsome
  refine ⟨fun h => ?_, node?_of_mem hmem, fun h d hd => node?_of_mem (hdeps _ (mem_of_node? h).1 d hd)⟩
  obtain ⟨hn, rfl⟩ := mem_of_node? h
  exact htable _ hn

/-- The number of nodes with a smaller number. -/
def rank (m : Model) (i : Nat) : Nat :=
  m.nodes.countP fun n => n.id < i

theorem rank_le (m : Model) (i : Nat) : m.rank i ≤ m.nodes.length :=
  List.countP_le_length

/-- A node of the model has a smaller rank than every greater number. -/
theorem rank_lt {m : Model} {i d : Nat} {n : Node} (hd : m.node? d = some n) (hlt : d < i) : m.rank d < m.rank i := by
  obtain ⟨hn, rfl⟩ := mem_of_node? hd
  obtain ⟨before, after, hsplit⟩ := List.append_of_mem hn
  have hmono : ∀ ns : List Node, ns.countP (fun n' => n'.id < n.id) ≤ ns.countP (fun n' => n'.id < i) := fun ns =>
    List.countP_mono_left fun n' _ h => by
      simp only [decide_eq_true_eq] at h ⊢
      omega
  have h₁ := hmono before
  have h₂ := hmono after
  simp only [rank, hsplit, List.countP_append, List.countP_cons, Nat.lt_irrefl, hlt, decide_true, decide_false, if_true]
  simp only [Bool.false_eq_true, if_false]
  omega

/-- A node of a model reads from nodes of the model that have a smaller rank. -/
theorem Holds.deps_rank {m : Model} {table : NodeTable} (h : m.Holds table) (ht : table.Ordered Node.deps fun i => i) {i d : Nat}
    {n : Node} (hn : m.node? i = some n) (hd : d ∈ n.deps) : (∃ n', m.node? d = some n') ∧ m.rank d < m.rank i := by
  obtain ⟨n', hn'⟩ := h.deps_some hn d hd
  exact ⟨⟨n', hn'⟩, rank_lt hn' (ht.next_lt (h.table_eq hn) d hd)⟩

/-- The nodes of a model are an ordered table themselves, along links to nodes that they read from. -/
theorem Holds.ordered {m : Model} {table : NodeTable} (h : m.Holds table) (ht : table.Ordered Node.deps fun i => i)
    {next : Node → List Nat} (hnext : ∀ n, next n ⊆ n.deps) : NodeTable.Ordered m.node? next m.rank := by
  exact ⟨fun hn => (mem_of_node? hn).2, fun hn _ hd => (h.deps_rank ht hn (hnext _ hd)).2, fun hn d hd => h.deps_some hn d (hnext _ hd)⟩

theorem Holds.keyed {m : Model} {table : NodeTable} (h : m.Holds table) (hkeyed : table.Keyed) : NodeTable.Keyed m.node? :=
  fun _ _ _ _ hn hn' hkey => hkeyed (h.table_eq hn) (h.table_eq hn') hkey

/-- Models of tables that follow each other do so among their own nodes. -/
theorem Holds.follows {m m' : Model} {table table' : NodeTable} {next : Node → List Nat} {R : Nat → Nat → Prop} (h : m.Holds table)
    (h' : m'.Holds table') (hnext : ∀ n, next n ⊆ n.deps) (hR : table.Follows table' next R) :
    NodeTable.Follows m.node? m'.node? next fun i j => R i j ∧ (∃ n, m.node? i = some n) ∧ ∃ n, m'.node? j = some n := by
  refine ⟨?_, ?_⟩
  · rintro i j ⟨hij, ⟨n, hn⟩, n', hn'⟩
    obtain ⟨k, k', hk, hk', hkey⟩ := hR.key_eq hij
    obtain rfl := Option.some.inj ((h.table_eq hn).symm.trans hk)
    obtain rfl := Option.some.inj ((h'.table_eq hn').symm.trans hk')
    exact ⟨n, n', hn, hn', hkey⟩
  · rintro i j n n' ⟨hij, -⟩ hn hn' d hd
    obtain ⟨d', hd', hdd⟩ := hR.next_match hij (h.table_eq hn) (h'.table_eq hn') d hd
    exact ⟨d', hd', hdd, h.deps_some hn d (hnext n hd), h'.deps_some hn' d' (hnext n' hd')⟩

end Model

end ModalGraph
