import ModalGraph.Proofs.Compiler.History
import ModalGraph.Proofs.Text.Order

/-!
# The store of a compiler

Whatever a compiler is asked to compile, in a text or in a formula that was put together by hand, and whether it succeeds or fails on
the way: the store holds one node per key under the numbers from 0 on, a node reads from nodes with smaller numbers that are found
under their keys, its list of free variables is in order and made of the lists of the nodes it reads from (`Store.Coherent`), and
nodes that are there stay as they are (`Store.Kept`).

One node that is made keeps this (`Store.Coherent.push`), so does compiling a formula (`expr_sound`), every request
(`Request.on_keeps`), and every run of requests (`store_coherent`).
-/

namespace ModalGraph

open Formula

namespace CoherentAux

/-- A name put into a list in order leaves a list in order. -/
theorem insertName_sorted {name : Bytes} {vs : List Bytes} (h : vs.Pairwise Bytes.Before) :
    (Compiler.insertName name vs).Pairwise Bytes.Before := by
  induction vs with
  | nil => exact List.pairwise_singleton _ _
  | cons v vs ih =>
    obtain ⟨hv, hvs⟩ := List.pairwise_cons.mp h
    rw [Compiler.insertName]
    by_cases heq : name = v
    · rw [if_pos (beq_iff_eq.mpr heq)]
      exact h
    rw [if_neg (by simpa using heq)]
    cases hle : Bytes.le name v with
    | true =>
      rw [if_pos rfl]
      have hname : Bytes.Before name v := ⟨hle, heq⟩
      exact List.pairwise_cons.mpr ⟨List.forall_mem_cons.mpr ⟨hname, fun u hu => hname.trans (hv u hu)⟩, h⟩
    | false =>
      rw [if_neg (by simp)]
      refine List.pairwise_cons.mpr ⟨fun u hu => ?_, ih hvs⟩
      rcases NodesAux.mem_insertName.mp hu with rfl | hu
      · exact ⟨Bytes.le_total _ _ hle, Ne.symm heq⟩
      · exact hv u hu

theorem foldl_insertName_sorted {names vs : List Bytes} (h : vs.Pairwise Bytes.Before) :
    (names.foldl (fun vs v => Compiler.insertName v vs) vs).Pairwise Bytes.Before := by
  induction names generalizing vs with
  | nil => exact h
  | cons name names ih => exact ih (insertName_sorted h)

theorem freeUnion_sorted (ns : List Node) : (Compiler.freeUnion ns).Pairwise Bytes.Before := by
  have hfold : ∀ vs : List Bytes, vs.Pairwise Bytes.Before →
      (ns.foldl (fun vs n => n.free.foldl (fun vs v => Compiler.insertName v vs) vs) vs).Pairwise Bytes.Before := by
    induction ns with
    | nil => exact fun _ h => h
    | cons n ns ih => exact fun vs h => ih _ (foldl_insertName_sorted h)
  exact hfold [] List.Pairwise.nil

end CoherentAux

open CoherentAux

/-! ## Stores -/

namespace Store

/-- The nodes of a store are still there, at their places. -/
def Kept (s s' : Store) : Prop :=
  s.nodes.toList <+: s'.nodes.toList

/-- A variable that is free in a node that a node reads from. -/
def ReadsFree (s : Store) (n : Node) (k : Bytes) : Prop :=
  ∃ d ∈ n.deps, ∃ m, s.node? d = some m ∧ k ∈ m.free

/-- Which variables are free in a node: in a variable it itself, in a fixpoint those of what it reads from without the one that it
binds, in another node those of what it reads from. -/
def FreeRule (s : Store) (n : Node) : Prop :=
  match n.kind with
  | .variable => n.free = [n.key]
  | .fixpoint => ∃ b, n.binder = some b ∧ ∀ k, k ∈ n.free ↔ s.ReadsFree n k ∧ k ≠ b.var
  | _ => ∀ k, k ∈ n.free ↔ s.ReadsFree n k

/-- What holds of the store of a compiler. -/
structure Coherent (s : Store) : Prop where
  /-- The numbers are those up to the number of nodes, each once. -/
  ids : s.nodes.toList.map Node.id = List.range s.size
  /-- The keys are as many as the nodes. -/
  keys : (s.nodes.toList.map Node.key).Nodup
  found : ∀ k n, s.find? k = some n → n.key = k
  cached : ∀ n ∈ s.nodes.toList, s.find? n.key = some n
  /-- A node reads from nodes with smaller numbers, which are those found under their keys. -/
  deps : ∀ n ∈ s.nodes.toList, ∀ d ∈ n.deps, d < n.id ∧ ∃ m, s.node? d = some m ∧ m.id = d ∧ s.find? m.key = some m
  sorted : ∀ n ∈ s.nodes.toList, n.free.Pairwise Bytes.Before
  free : ∀ n ∈ s.nodes.toList, s.FreeRule n

/-- A node stands in a store at its number. -/
def Has (s : Store) (n : Node) : Prop :=
  s.node? n.id = some n

section

variable {s s' s'' : Store} {n : Node}

theorem Kept.refl (s : Store) : s.Kept s :=
  List.prefix_refl _

theorem Kept.trans (h : s.Kept s') (h' : s'.Kept s'') : s.Kept s'' :=
  List.IsPrefix.trans h h'

theorem kept_push (s : Store) (n : Node) : s.Kept ⟨s.nodes.push n⟩ := by
  rw [Kept, Array.toList_push]
  exact List.prefix_append _ _

theorem node?_eq (s : Store) (i : Nat) : s.node? i = s.nodes.toList[i]? := by
  rw [node?, Array.getElem?_toList]

theorem find?_eq (s : Store) (k : Bytes) : s.find? k = s.nodes.toList.find? fun n => n.key == k := by
  rw [find?, Array.find?_toList]

/-- A node under a new key is found under that key. -/
theorem find?_push {k : Bytes} (h : s.find? k = none) (hk : n.key = k) : find? ⟨s.nodes.push n⟩ k = some n := by
  rw [find?_eq, Array.toList_push, List.find?_append, ← find?_eq, h]
  simp [hk]

theorem mem_of_node? {i : Nat} (h : s.node? i = some n) : n ∈ s.nodes.toList :=
  List.mem_of_getElem? ((node?_eq s i).symm.trans h)

/-- A number keeps its node. -/
theorem Kept.node? (h : s.Kept s') {i : Nat} (hn : s.node? i = some n) : s'.node? i = some n := by
  obtain ⟨more, hmore⟩ := h
  rw [node?_eq] at hn ⊢
  rw [← hmore, List.getElem?_append_left (List.getElem?_eq_some_iff.mp hn).1, hn]

/-- A key keeps its node. -/
theorem Kept.find? (h : s.Kept s') {k : Bytes} (hn : s.find? k = some n) : s'.find? k = some n := by
  obtain ⟨more, hmore⟩ := h
  rw [find?_eq] at hn ⊢
  rw [← hmore, List.find?_append, hn]
  rfl

theorem Kept.has (h : s.Kept s') (hn : s.Has n) : s'.Has n :=
  h.node? hn

theorem Kept.size_le (h : s.Kept s') : s.size ≤ s'.size := by
  rw [size, size, ← Array.length_toList, ← Array.length_toList]
  exact List.IsPrefix.length_le h

/-- A node reads the same variables in a store that keeps what it reads from. -/
theorem Kept.readsFree (h : s.Kept s') (hdeps : ∀ d ∈ n.deps, ∃ m, s.node? d = some m) {k : Bytes} :
    s'.ReadsFree n k ↔ s.ReadsFree n k := by
  constructor
  · rintro ⟨d, hd, m, hm, hk⟩
    obtain ⟨m', hm'⟩ := hdeps d hd
    obtain rfl := Option.some.inj ((h.node? hm').symm.trans hm)
    exact ⟨d, hd, m', hm', hk⟩
  · rintro ⟨d, hd, m, hm, hk⟩
    exact ⟨d, hd, m, h.node? hm, hk⟩

theorem Kept.freeRule (h : s.Kept s') (hdeps : ∀ d ∈ n.deps, ∃ m, s.node? d = some m) (hn : s.FreeRule n) : s'.FreeRule n := by
  unfold FreeRule at hn ⊢
  split at hn
  · exact hn
  · simp only [h.readsFree hdeps]
    exact hn
  · simp only [h.readsFree hdeps]
    exact hn

end

/-! ### A store with one more node -/

/-- What a node needs to be put into a store under a key. -/
structure Fits (s : Store) (key : Bytes) (n : Node) : Prop where
  deps : ∀ d ∈ n.deps, ∃ m, s.node? d = some m
  sorted : n.free.Pairwise Bytes.Before
  free : s.FreeRule { n with key := key }

section

variable {s : Store} {n : Node} {key : Bytes}

/-- The number of a node of a coherent store is its place. -/
theorem Coherent.id_eq (h : s.Coherent) {i : Nat} (hn : s.node? i = some n) : n.id = i := by
  rw [node?_eq] at hn
  have hid : (s.nodes.toList.map Node.id)[i]? = some n.id := by rw [List.getElem?_map, hn]; rfl
  rw [h.ids, List.getElem?_range (by rw [size, ← Array.length_toList]; exact (List.getElem?_eq_some_iff.mp hn).1)] at hid
  exact (Option.some.inj hid).symm

/-- A node that is found stands in a coherent store at its number. -/
theorem Coherent.has (h : s.Coherent) (hn : n ∈ s.nodes.toList) : s.Has n := by
  obtain ⟨i, hi⟩ := List.getElem?_of_mem hn
  rw [← node?_eq] at hi
  rw [Has, h.id_eq hi, hi]

theorem Coherent.has_of_find? (h : s.Coherent) (hn : s.find? key = some n) : s.Has n :=
  h.has (List.mem_of_find?_eq_some ((find?_eq s key).symm.trans hn))

/-- The node of a number that a store has, among the nodes that are found by key. -/
theorem Coherent.dep (h : s.Coherent) {d : Nat} (hd : ∃ m, s.node? d = some m) :
    d < s.size ∧ ∃ m, s.node? d = some m ∧ m.id = d ∧ s.find? m.key = some m := by
  obtain ⟨m, hm⟩ := hd
  exact ⟨(Array.getElem?_eq_some_iff.mp hm).1, m, hm, h.id_eq hm, h.cached m (mem_of_node? hm)⟩

/-- A coherent store with one more node, under a new key, is coherent. -/
theorem Coherent.push (h : s.Coherent) (hnew : s.find? key = none) (hn : s.Fits key n) :
    Coherent ⟨s.nodes.push { n with id := s.size, key := key }⟩ := by
  have hkept := s.kept_push { n with id := s.size, key := key }
  have hlist : (s.nodes.push { n with id := s.size, key := key }).toList = s.nodes.toList ++ [{ n with id := s.size, key := key }] :=
    Array.toList_push
  have hfresh : ∀ m ∈ s.nodes.toList, m.key ≠ key := by
    rw [find?_eq] at hnew
    intro m hm
    simpa using List.find?_eq_none.mp hnew m hm
  refine ⟨?_, ?_, ?_, ?_, ?_, ?_, ?_⟩
  · rw [hlist, List.map_append, h.ids]
    show List.range s.size ++ [s.size] = List.range (s.nodes.push _).size
    rw [Array.size_push, List.range_succ, size]
  · rw [hlist, List.map_append, List.nodup_append]
    refine ⟨h.keys, List.nodup_singleton _, ?_⟩
    rintro k hk k' hk' rfl
    obtain ⟨m, hm, rfl⟩ := List.mem_map.mp hk
    exact hfresh m hm (List.mem_singleton.mp hk')
  · intro k m hm
    rw [find?_eq] at hm
    simpa using List.find?_some hm
  · rw [hlist]
    exact List.forall_mem_append.mpr ⟨fun m hm => hkept.find? (h.cached m hm), List.forall_mem_singleton.mpr (find?_push hnew rfl)⟩
  · rw [hlist]
    refine List.forall_mem_append.mpr ⟨fun m hm d hd => ?_, List.forall_mem_singleton.mpr fun d hd => ?_⟩
    · obtain ⟨hlt, o, ho, hid, hfind⟩ := h.deps m hm d hd
      exact ⟨hlt, o, hkept.node? ho, hid, hkept.find? hfind⟩
    · obtain ⟨hlt, o, ho, hid, hfind⟩ := h.dep (hn.deps d hd)
      exact ⟨hlt, o, hkept.node? ho, hid, hkept.find? hfind⟩
  · rw [hlist]
    exact List.forall_mem_append.mpr ⟨h.sorted, List.forall_mem_singleton.mpr hn.sorted⟩
  · rw [hlist]
    refine List.forall_mem_append.mpr ⟨fun m hm => ?_, List.forall_mem_singleton.mpr ?_⟩
    · refine hkept.freeRule (fun d hd => ?_) (h.free m hm)
      obtain ⟨-, o, ho, -, -⟩ := h.deps m hm d hd
      exact ⟨o, ho⟩
    · exact hkept.freeRule hn.deps hn.free

/-- The store of a new compiler is coherent. -/
theorem start_coherent (spec : InputSpec) : (start spec).Coherent := by
  have hmem : ∀ n ∈ (start spec).nodes.toList, n = inputNode spec := fun n hn => List.mem_singleton.mp hn
  have hdeps : ∀ d ∈ (inputNode spec).deps, False := nofun
  refine ⟨rfl, List.nodup_singleton _, fun k n hn => ?_, ?_, ?_, ?_, ?_⟩
  · rw [find?_eq] at hn
    simpa using List.find?_some hn
  · intro n hn
    rw [hmem n hn]
    rfl
  · intro n hn d hd
    exact (hdeps d (hmem n hn ▸ hd)).elim
  · intro n hn
    rw [hmem n hn]
    exact List.Pairwise.nil
  · intro n hn
    rw [hmem n hn]
    exact fun k => ⟨nofun, fun ⟨d, hd, _⟩ => (hdeps d hd).elim⟩

end

end Store

namespace Compiler

/-! ## Walks -/

/-- A step of a walk keeps the nodes and leaves a coherent store, and what it returns satisfies `Q` there. -/
structure Keeps {α : Type} (p : Progress) (act : Build α) (Q : Store → α → Prop) : Prop where
  kept : p.store.Kept (act.run p).2.store
  coherent : (act.run p).2.store.Coherent
  result : ∀ a, (act.run p).1 = .ok a → Q (act.run p).2.store a

section

variable {α β : Type} {p : Progress} {Q : Store → α → Prop} {R : Store → β → Prop}

/-- A step whose run is known. -/
theorem Keeps.of_run {act : Build α} {r : Except Failure α} {p' : Progress} (hrun : act.run p = (r, p'))
    (hkept : p.store.Kept p'.store) (h : p'.store.Coherent) (hr : ∀ a, r = .ok a → Q p'.store a) : Keeps p act Q := by
  refine ⟨?_, ?_, ?_⟩
  · rw [hrun]
    exact hkept
  · rw [hrun]
    exact h
  · rw [hrun]
    exact hr

/-- What a step leaves that succeeds. -/
theorem Keeps.ran {act : Build α} {p' : Progress} {a : α} (h : Keeps p act Q) (hrun : act.run p = (.ok a, p')) :
    p.store.Kept p'.store ∧ p'.store.Coherent ∧ Q p'.store a := by
  obtain ⟨hkept, hcoherent, hresult⟩ := h
  rw [hrun] at hkept hcoherent hresult
  exact ⟨hkept, hcoherent, hresult a rfl⟩

theorem Keeps.pure (h : p.store.Coherent) {a : α} (ha : Q p.store a) : Keeps p (Pure.pure a : Build α) Q :=
  .of_run (run_return a p) (.refl _) h fun _ hb => Except.ok.inj hb ▸ ha

theorem Keeps.fail (h : p.store.Coherent) (f : Failure) : Keeps p (throw f : Build α) Q :=
  .of_run (run_fail f p) (.refl _) h nofun

/-- A result taken as a step changes nothing. -/
theorem Keeps.lift (h : p.store.Coherent) (x : Except Failure α) : Keeps p (liftM x : Build α) fun _ a => x = .ok a :=
  .of_run (run_lift x p) (.refl _) h fun _ ha => ha

theorem Keeps.bind {act : Build α} {f : α → Build β} (h : Keeps p act Q)
    (hf : ∀ p' : Progress, ∀ a, p.store.Kept p'.store → p'.store.Coherent → Q p'.store a → Keeps p' (f a) R) :
    Keeps p (act >>= f) R := by
  have hrun := run_bind act f p
  rcases hact : act.run p with ⟨r, p'⟩
  rw [hact] at hrun
  cases r with
  | error e =>
    obtain ⟨hkept, hcoherent, -⟩ := h
    rw [hact] at hkept hcoherent
    exact .of_run hrun hkept hcoherent nofun
  | ok a =>
    obtain ⟨hkept, hcoherent, ha⟩ := h.ran hact
    obtain ⟨hkept', hcoherent', hresult⟩ := hf p' a hkept hcoherent ha
    exact .of_run hrun (hkept.trans hkept') hcoherent' hresult

/-- A node that is found is one that the store has, and so is a node that is made if it fits. -/
theorem Keeps.intern (h : p.store.Coherent) {key : Bytes} {make : Except Failure Node}
    (hmake : ∀ n, make = .ok n → p.store.Fits key n) : Keeps p (Compiler.intern key make) Store.Has := by
  cases hfind : p.store.find? key with
  | some n =>
    have hn : p.store.Has n := h.has_of_find? hfind
    refine .of_run (intern_found hfind) (Store.Kept.refl p.store) h fun a ha => ?_
    cases ha
    exact hn
  | none =>
    cases make with
    | error f => exact .of_run (intern_failed hfind) (.refl _) h fun a ha => by cases ha
    | ok n =>
      have hpush := h.push hfind (hmake n rfl)
      refine .of_run (intern_made hfind) (Store.kept_push p.store _) hpush fun a ha => ?_
      cases ha
      refine hpush.has ?_
      rw [Array.toList_push]
      exact List.mem_append_right _ (List.mem_singleton_self _)

end

/-! ### Nodes that are made -/

section

variable {s : Store} {c : Compiler} {input : Node}

/-- The variables that a node reads, where it reads from nodes of the store. -/
theorem readsFree_iff {ns : List Node} (hns : ∀ n ∈ ns, s.Has n) {n : Node} (hdeps : n.deps = ns.map Node.id) {k : Bytes} :
    s.ReadsFree n k ↔ ∃ m ∈ ns, k ∈ m.free := by
  rw [Store.ReadsFree, hdeps]
  constructor
  · rintro ⟨d, hd, m, hm, hk⟩
    obtain ⟨m', hm', rfl⟩ := List.mem_map.mp hd
    obtain rfl := Option.some.inj ((hns m' hm').symm.trans hm)
    exact ⟨m', hm', hk⟩
  · rintro ⟨m, hm, hk⟩
    exact ⟨m.id, List.mem_map_of_mem hm, m, hns m hm, hk⟩

theorem mem_freeUnion_iff {ns : List Node} (hns : ∀ n ∈ ns, s.Has n) {n : Node} (hdeps : n.deps = ns.map Node.id) {k : Bytes} :
    k ∈ freeUnion ns ↔ s.ReadsFree n k :=
  NodesAux.mem_freeUnion.trans (readsFree_iff hns hdeps).symm

theorem deps_some {ns : List Node} (hns : ∀ n ∈ ns, s.Has n) {n : Node} (hdeps : n.deps = ns.map Node.id) :
    ∀ d ∈ n.deps, ∃ m, s.node? d = some m := by
  rw [hdeps]
  intro d hd
  obtain ⟨m, hm, rfl⟩ := List.mem_map.mp hd
  exact ⟨m, hns m hm⟩

/-- A node that reads from one node and has its free variables fits, unless it binds variables. -/
theorem fits_of_input (h : s.Coherent) (hin : s.Has input) (key : Bytes) {n : Node}
    (hkind : n.kind = .psi ∨ n.kind = .diamond) (hinputs : n.inputs = [input.id]) (hbody : n.body = none)
    (hfree : n.free = input.free) : s.Fits key n := by
  have hns : ∀ m ∈ [input], s.Has m := List.forall_mem_singleton.mpr hin
  have hdeps : n.deps = [input].map Node.id := by rw [Node.deps, hinputs, hbody]; rfl
  have hrule : ∀ k, k ∈ n.free ↔ s.ReadsFree n k := fun k => by
    rw [readsFree_iff hns hdeps, hfree]
    simp
  refine ⟨deps_some hns hdeps, hfree ▸ h.sorted input (Store.mem_of_node? hin), ?_⟩
  unfold Store.FreeRule
  dsimp only
  rcases hkind with hkind | hkind
  · rw [hkind]
    exact hrule
  · rw [hkind]
    exact hrule

theorem atomNode_fits (h : s.Coherent) (hin : s.Has input) (key : Bytes) {name : Bytes} {arg : Argument} {n : Node}
    (hn : c.atomNode name arg input = .ok n) : s.Fits key n := by
  obtain ⟨psi, -, hkind, hinputs, -, hbody, hfree⟩ := atomNode_ok hn
  exact fits_of_input h hin key (.inl hkind) hinputs hbody hfree

theorem diamondNode_fits (h : s.Coherent) (hin : s.Has input) (key : Bytes) {direction : Direction} {phi : Option Bytes}
    {sigma : Bytes} {n : Node} (hn : c.diamondNode direction phi sigma input = .ok n) : s.Fits key n := by
  obtain ⟨_, _, -, -, hkind, hinputs, -, -, hbody, hfree⟩ := diamondNode_ok hn
  exact fits_of_input h hin key (.inr hkind) hinputs hbody hfree

theorem concatNode_fits (key : Bytes) {ns : List Node} (hns : ∀ n ∈ ns, s.Has n) : s.Fits key (concatNode ns) := by
  have hdeps : (concatNode ns).deps = ns.map Node.id := List.append_nil _
  exact ⟨deps_some hns hdeps, freeUnion_sorted ns, fun k => mem_freeUnion_iff hns hdeps⟩

/-- A variable fits under its own key. -/
theorem variableNode_fits (b : Binding) (name : Bytes) : s.Fits b.key (variableNode b name) :=
  ⟨nofun, List.pairwise_singleton _ _, rfl⟩

theorem fixpointNode_fits (key : Bytes) (b : Binding) (least : Bool) (init : List Label) {body : Node} (hin : s.Has input)
    (hbody : s.Has body) : s.Fits key (fixpointNode b least init input body) := by
  have hns : ∀ n ∈ [input, body], s.Has n := by simp [hin, hbody]
  have hdeps : (fixpointNode b least init input body).deps = [input, body].map Node.id := rfl
  refine ⟨deps_some hns hdeps, (freeUnion_sorted _).filter _, _, rfl, fun k => ?_⟩
  show k ∈ (freeUnion [input, body]).filter (fun v => v != b.key) ↔ _
  rw [List.mem_filter, mem_freeUnion_iff hns hdeps, bne_iff_ne]
  rfl

end

/-! ### Formulas -/

/-- A formula that a compiler compiles on any node of a coherent store such that the store keeps its nodes and stays coherent. -/
def Sound (c : Compiler) (e : Expr) : Prop :=
  ∀ ⦃scope : List Binding⦄ ⦃input : Node⦄ ⦃p : Progress⦄, p.store.Coherent → p.store.Has input →
    Keeps p (c.expr scope e input) Store.Has

/-- Several formulas that a compiler compiles such that the store keeps its nodes and stays coherent. -/
def AllSound (c : Compiler) (es : List Expr) : Prop :=
  ∀ ⦃scope : List Binding⦄ ⦃input : Node⦄ ⦃p : Progress⦄, p.store.Coherent → p.store.Has input →
    Keeps p (c.exprs scope es input) fun s ns => ∀ n ∈ ns, s.Has n

section

variable {c : Compiler}

theorem atom_sound (pos : Position) (name : Bytes) (arg : Argument) : c.Sound (.atom pos name arg) := by
  intro scope input p h hin
  rw [expr]
  exact Keeps.intern h fun n hn => atomNode_fits h hin _ hn

theorem seq_sound (pos : Position) {left right : Expr} (hl : c.Sound left) (hr : c.Sound right) : c.Sound (.seq pos left right) := by
  intro scope input p h hin
  rw [expr]
  exact (hl h hin).bind fun _ _ _ h' hm => hr h' hm

theorem par_sound (pos : Position) {children : List Expr} (hc : c.AllSound children) : c.Sound (.par pos children) := by
  intro scope input p h hin
  rw [expr]
  split
  · exact Keeps.fail h _
  · refine (hc h hin).bind fun p' ns _ h' hns => Keeps.intern h' fun n hn => ?_
    exact Except.ok.inj hn ▸ concatNode_fits _ hns

theorem diamond_sound (pos : Position) (direction : Direction) (phi : Option Bytes) (sigma : Bytes) :
    c.Sound (.diamond pos direction phi sigma) := by
  intro scope input p h hin
  rw [expr]
  by_cases hadj : c.settings.input.adjacency = true
  · simp only [hadj, Bool.not_true, Bool.false_eq_true, if_false]
    exact Keeps.intern h fun n hn => diamondNode_fits h hin _ hn
  · simp only [hadj, Bool.not_false, if_true]
    exact Keeps.fail h _

theorem var_sound (pos : Position) (name : Bytes) : c.Sound (.var pos name) := by
  intro scope input p h _
  rw [expr]
  cases lookup scope name with
  | none => exact Keeps.fail h _
  | some b => exact Keeps.intern h fun n hn => Except.ok.inj hn ▸ variableNode_fits b name

theorem fix_sound (pos : Position) (least : Bool) (v base : Bytes) {body : Expr} (hb : c.Sound body) :
    c.Sound (.fix pos least v base body) := by
  intro scope input p h hin
  rw [expr]
  refine (Keeps.lift h _).bind ?_
  rintro p₁ ⟨b, init⟩ hkept₁ h₁ -
  refine (hb h₁ (hkept₁.has hin)).bind fun p₂ n hkept₂ h₂ hn => ?_
  refine (Keeps.lift h₂ _).bind fun p₃ _ hkept₃ h₃ _ => Keeps.intern h₃ fun m hm => ?_
  have hin₃ : p₃.store.Has input := (hkept₁.trans (hkept₂.trans hkept₃)).has hin
  exact Except.ok.inj hm ▸ fixpointNode_fits _ _ _ _ hin₃ (hkept₃.has hn)

theorem nil_sound : c.AllSound [] := by
  intro scope input p h _
  rw [exprs]
  exact Keeps.pure h fun n hn => absurd hn List.not_mem_nil

theorem cons_sound {e : Expr} {es : List Expr} (he : c.Sound e) (hes : c.AllSound es) : c.AllSound (e :: es) := by
  intro scope input p h hin
  rw [exprs]
  refine (he h hin).bind fun p₁ n hkept₁ h₁ hn => ?_
  refine (hes h₁ (hkept₁.has hin)).bind fun p₂ ns hkept₂ h₂ hns => Keeps.pure h₂ ?_
  exact List.forall_mem_cons.mpr ⟨hkept₂.has hn, hns⟩

end

mutual

/-- Compiling a formula keeps the nodes, leaves a coherent store, and returns a node of it. -/
theorem expr_sound (c : Compiler) : ∀ e : Expr, c.Sound e
  | .atom pos name arg => atom_sound pos name arg
  | .seq pos left right => seq_sound pos (expr_sound c left) (expr_sound c right)
  | .par pos children => par_sound pos (exprs_sound c children)
  | .diamond pos direction phi sigma => diamond_sound pos direction phi sigma
  | .var pos name => var_sound pos name
  | .fix pos least v base body => fix_sound pos least v base (expr_sound c body)
  | .hole => fun _ _ _ h _ => by
    rw [expr]
    exact Keeps.fail h _

/-- Compiling several formulas keeps the nodes, leaves a coherent store, and returns nodes of it. -/
theorem exprs_sound (c : Compiler) : ∀ es : List Expr, c.AllSound es
  | [] => nil_sound
  | e :: es => cons_sound (expr_sound c e) (exprs_sound c es)

end

/-! ## Requests -/

/-- What a compiler is asked to compile, by a caller who may have given up: a text, or a formula that is at hand. -/
inductive Request where
  | text (canceled : Bool) (source : Bytes)
  | formula (canceled : Bool) (e : Expr)

/-- What a compiler gives for a request. -/
def Request.on (r : Request) (c : Compiler) : Outcome :=
  match r with
  | .text canceled source => c.compile canceled source
  | .formula canceled e => c.compileExpr canceled e

/-- The compiler after some requests. -/
def served (c : Compiler) (rs : List Request) : Compiler :=
  rs.foldl (fun c r => (r.on c).compiler) c

/-- A compiler whose store is coherent and has the input node. -/
structure Intact (c : Compiler) : Prop where
  coherent : c.store.Coherent
  nonempty : 0 < c.store.size

/-- A compiler with the registries and the settings of another one, whose store keeps the nodes of the other one. -/
structure Onward (c c' : Compiler) : Prop where
  ops_eq : c'.ops = c.ops
  settings_eq : c'.settings = c.settings
  kept : c.store.Kept c'.store

section

variable {c c' c'' : Compiler}

theorem Onward.refl (c : Compiler) : c.Onward c :=
  ⟨rfl, rfl, .refl _⟩

theorem Onward.trans (h : c.Onward c') (h' : c'.Onward c'') : c.Onward c'' :=
  ⟨h'.ops_eq.trans h.ops_eq, h'.settings_eq.trans h.settings_eq, h.kept.trans h'.kept⟩

/-- The input of a compiler is a node of its store. -/
theorem Intact.has_input (h : c.Intact) : c.store.Has c.input := by
  obtain ⟨n, hn⟩ : ∃ n, c.store.node? 0 = some n := ⟨_, Array.getElem?_eq_getElem h.nonempty⟩
  have hinput : c.input = n := by rw [input, hn]; rfl
  rw [hinput, Store.Has, h.coherent.id_eq hn, hn]

/-- The input stays the same. -/
theorem Onward.input_eq (h : c.Onward c') (hc : c.Intact) : c'.input = c.input := by
  obtain ⟨n, hn⟩ : ∃ n, c.store.node? 0 = some n := ⟨_, Array.getElem?_eq_getElem hc.nonempty⟩
  rw [input, input, hn, h.kept.node? hn]
  rfl

/-- Compiling a formula leaves an intact compiler that goes on from the one before. -/
theorem Intact.compileAs (h : c.Intact) (canceled : Bool) (formula : Bytes) (e : Expr) :
    (c.compileAs canceled formula e).compiler.Intact ∧ c.Onward (c.compileAs canceled formula e).compiler := by
  rw [Compiler.compileAs]
  cases canceled with
  | true => exact ⟨h, .refl c⟩
  | false =>
    rw [if_neg (by simp)]
    have hkeeps : Keeps { store := c.store } (c.expr [] e c.input) Store.Has := expr_sound c e h.coherent h.has_input
    obtain ⟨hkept, hcoherent, -⟩ := hkeeps
    rcases hrun : (c.expr [] e c.input).run { store := c.store } with ⟨r, p⟩
    rw [hrun] at hkept hcoherent
    have hintact : Intact { c with store := p.store } := ⟨hcoherent, Nat.lt_of_lt_of_le h.nonempty hkept.size_le⟩
    cases r with
    | error f => exact ⟨hintact, rfl, rfl, hkept⟩
    | ok out => exact ⟨hintact, rfl, rfl, hkept⟩

/-- A request leaves an intact compiler that goes on from the one before, whether it succeeds or not. -/
theorem Request.on_keeps (r : Request) (h : c.Intact) : (r.on c).compiler.Intact ∧ c.Onward (r.on c).compiler := by
  cases r with
  | text canceled source =>
    rw [Request.on, Compiler.compile]
    split
    · exact ⟨h, .refl c⟩
    · exact h.compileAs canceled source _
  | formula canceled e =>
    rw [Request.on, Compiler.compileExpr]
    split
    · exact ⟨h, .refl c⟩
    · exact h.compileAs canceled e.key e

/-- A run of requests leaves an intact compiler that goes on from the one before. -/
theorem Intact.served (h : c.Intact) (rs : List Request) : (c.served rs).Intact ∧ c.Onward (c.served rs) := by
  induction rs generalizing c with
  | nil => exact ⟨h, .refl c⟩
  | cons r rs ih =>
    obtain ⟨hr, honward⟩ := r.on_keeps h
    obtain ⟨hrs, honward'⟩ := ih hr
    exact ⟨hrs, honward.trans honward'⟩

theorem served_append (c : Compiler) (rs rs' : List Request) : c.served (rs ++ rs') = (c.served rs).served rs' :=
  List.foldl_append

/-- A new compiler is intact. -/
theorem intact_new {ops : Registries} {settings : Settings} (h : Compiler.new ops settings = .ok c) : c.Intact := by
  obtain ⟨_, -, h⟩ := bind_ok h
  cases h
  exact ⟨Store.start_coherent settings.input, Nat.one_pos⟩

end

end Compiler

open Compiler

/-- After any requests, whether they succeeded or not, the store of a compiler is coherent, and no later requests change or remove what
is found under a key. -/
theorem store_coherent {ops : Registries} {settings : Settings} {c₀ : Compiler} (h₀ : Compiler.new ops settings = .ok c₀)
    (earlier later : List Request) :
    (c₀.served earlier).store.Coherent ∧
      ∀ k n, (c₀.served earlier).store.find? k = some n → (c₀.served (earlier ++ later)).store.find? k = some n := by
  obtain ⟨hintact, -⟩ := (intact_new h₀).served earlier
  obtain ⟨-, honward⟩ := hintact.served later
  rw [served_append]
  exact ⟨hintact.coherent, fun k n hn => honward.kept.find? hn⟩

namespace Sample

/-- A formula that fails after its first node, a text that has no parse, one from a caller who has given up, and a formula put together
by hand whose variable is not bound. -/
def requests : List Request :=
  [.text false (Bytes.ofString "nu X,b.(X;mu Y,b.(Y;nope))"), .text false (Bytes.ofString "b;"), .text true (Bytes.ofString "a"),
    .formula false (.seq Position.none (.atom Position.none (Bytes.ofString "a") none) (.var Position.none (Bytes.ofString "Z")))]

end Sample

/-- Requests that fail on the way leave four nodes in a coherent store, and a later request finds the variable that one of them made. -/
theorem store_coherent_sample :
    (Sample.newCompiler.served Sample.requests).store.size = 4 ∧ (Sample.newCompiler.served Sample.requests).store.Coherent ∧
      ∃ n, (Sample.newCompiler.served Sample.requests).store.find? (variableKey 0 (Bytes.ofString "b")) = some n ∧
        (Sample.newCompiler.served (Sample.requests ++ [.text false (Bytes.ofString "mu Y,b.(Y)")])).store.find?
          (variableKey 0 (Bytes.ofString "b")) = some n := by
  obtain ⟨hcoherent, hkept⟩ := store_coherent Sample.newCompiler_new Sample.requests
    [Request.text false (Bytes.ofString "mu Y,b.(Y)")]
  have hsome : ((Sample.newCompiler.served Sample.requests).store.find? (variableKey 0 (Bytes.ofString "b"))).isSome = true := by
    decide +kernel
  obtain ⟨n, hn⟩ := Option.isSome_iff_exists.mp hsome
  exact ⟨by decide +kernel, hcoherent, n, hn, hkept _ n hn⟩

end ModalGraph
