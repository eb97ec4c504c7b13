import Mathlib.Data.Set.Basic
import ModalGraph.Operator.Builtin
import ModalGraph.Proofs.Compiler.Performs

/-!
# Compiling after other formulas

A call does to a compiler what its plan says, whatever was called before (`Listed.call`). So the outcome of a call does not depend on
earlier calls, whether these succeeded or not: it is the failure, or the key and the width of the output, that a new compiler gives.
The keys afterwards are those of the store before and those that a new compiler has after the call
(`outcome_independent_of_history`). After a run of calls they are the keys of all plans together, in whatever order and how often the
calls were made (`Listed.keys_after`).
-/

namespace ModalGraph

open Formula

namespace Compiler

/-! ## Calls -/

/-- A call of the compiler: a formula text, compiled as it is or handed over parsed, for a caller who may have given up. -/
structure Compilation where
  text : Bytes
  parsed : Bool := false
  canceled : Bool := false

namespace Compilation

/-- What a compiler gives for a call. A text that has no parse is not handed over. -/
def on (call : Compilation) (c : Compiler) : Outcome :=
  if call.parsed then
    match parse call.text with
    | .error e => ⟨.error (.malformed e), c, []⟩
    | .ok e => c.compileExpr call.canceled e
  else c.compile call.canceled call.text

/-- What a call does, whatever was called before. -/
def plan (ops : Registries) (settings : Settings) (call : Compilation) : Plan Term :=
  match parse call.text with
  | .error e => .fail (.malformed e)
  | .ok e => e.callPlan ops settings call.canceled

end Compilation

/-- The compiler after some calls. -/
def after (c : Compiler) (calls : List Compilation) : Compiler :=
  calls.foldl (fun c call => (call.on c).compiler) c

/-- The nodes that some calls come to, one call after the other. -/
def visits (ops : Registries) (settings : Settings) (calls : List Compilation) : List Visit :=
  calls.flatMap fun call => (call.plan ops settings).visits

/-- The keys under which a compiler finds nodes. -/
def keys (c : Compiler) : Set Bytes :=
  {k | k ∈ c.store.nodes.toList.map Node.key}

/-- The keys of the nodes that are visited. -/
def keysOf (vs : List Visit) : Set Bytes :=
  {k | ∃ v ∈ vs, v.term.key = k}

namespace HistoryAux

/-- A call whose text is parsed compiles the formula under some text. -/
theorem on_of_parse {call : Compilation} {e : Expr} (hparse : parse call.text = .ok e) (c : Compiler) :
    ∃ formula, call.on c = c.compileAs call.canceled formula e := by
  rw [Compilation.on]
  cases call.parsed with
  | true =>
    refine ⟨e.key, ?_⟩
    rw [if_pos rfl, hparse]
    show c.compileExpr call.canceled e = _
    rw [Compiler.compileExpr, if_neg (by simp [(parse_wellFormed hparse).named.hasHole])]
  | false =>
    refine ⟨call.text, ?_⟩
    rw [if_neg (by simp), Compiler.compile, hparse]

/-- A call whose text cannot be parsed changes nothing. -/
theorem on_of_fault {call : Compilation} {f : SyntaxError} (hparse : parse call.text = .error f) (c : Compiler) :
    call.on c = ⟨.error (.malformed f), c, []⟩ := by
  rw [Compilation.on]
  cases call.parsed with
  | true => rw [if_pos rfl, hparse]
  | false => rw [if_neg (by simp), Compiler.compile, hparse]

end HistoryAux

open HistoryAux

section

variable {ops : Registries} {settings : Settings} {es : List Entry} {c : Compiler}

/-- A call leaves a listed compiler that records the visits of its plan, and fails as planned or returns the model of the node of the
planned term. -/
theorem Listed.call (h : Listed ops settings es c) (call : Compilation) :
    ∃ es' formula, Listed ops settings es' (call.on c).compiler ∧ Recorded ops settings es (call.plan ops settings).visits es' ∧
      Matched (IsModel settings formula es') (call.on c).result (call.plan ops settings).result := by
  rw [Compilation.plan]
  cases hparse : parse call.text with
  | error f =>
    rw [on_of_fault hparse]
    exact ⟨es, [], h, .refl h.ledger, rfl⟩
  | ok e =>
    obtain ⟨formula, hon⟩ := on_of_parse hparse c
    rw [hon]
    obtain ⟨es', hlist, hrec, hmatch⟩ := h.compileAs (parse_wellFormed hparse).named call.canceled formula
    exact ⟨es', formula, hlist, hrec, hmatch⟩

/-- A run of calls leaves a listed compiler that records the visits of all plans. -/
theorem Listed.after (h : Listed ops settings es c) (calls : List Compilation) :
    ∃ es', Listed ops settings es' (c.after calls) ∧ Recorded ops settings es (visits ops settings calls) es' := by
  induction calls generalizing c es with
  | nil => exact ⟨es, h, .refl h.ledger⟩
  | cons call calls ih =>
    obtain ⟨es₁, -, hlist₁, hrec₁, -⟩ := h.call call
    obtain ⟨es₂, hlist₂, hrec₂⟩ := ih hlist₁
    exact ⟨es₂, hlist₂, hrec₁.trans hrec₂⟩

theorem Reachable.call (h : Reachable ops settings c) (call : Compilation) : Reachable ops settings (call.on c).compiler := by
  rw [Compilation.on]
  split
  · split
    · exact h
    · rename_i hparse
      exact h.compileExpr call.canceled hparse
  · exact h.compile call.canceled call.text

theorem Reachable.after (h : Reachable ops settings c) (calls : List Compilation) : Reachable ops settings (c.after calls) := by
  induction calls generalizing c with
  | nil => exact h
  | cons call calls ih => exact ih (h.call call)

/-! ## Keys -/

theorem Listed.mem_keys (h : Listed ops settings es c) {k : Bytes} : k ∈ c.keys ↔ ∃ m ∈ es, m.term.key = k := by
  show k ∈ c.store.nodes.toList.map Node.key ↔ _
  rw [h.store_eq, List.map_map, List.mem_map]
  constructor
  · rintro ⟨m, hm, rfl⟩
    exact ⟨m, hm, (h.ledger.key m hm).1.symm⟩
  · rintro ⟨m, hm, rfl⟩
    exact ⟨m, hm, (h.ledger.key m hm).1⟩

/-- The keys after visits are the keys before and those of the visited terms. -/
theorem Recorded.keys_eq {vs : List Visit} {es' : List Entry} {c' : Compiler} (hrec : Recorded ops settings es vs es')
    (h : Listed ops settings es c) (h' : Listed ops settings es' c') : c'.keys = c.keys ∪ keysOf vs := by
  ext k
  rw [Set.mem_union, h.mem_keys, h'.mem_keys]
  constructor
  · rintro ⟨m, hm, rfl⟩
    rcases hrec.added m hm with hm | ⟨v, hfirst, hterm, -⟩
    · exact .inl ⟨m, hm, rfl⟩
    · exact .inr ⟨v, hfirst.mem, by rw [hterm]⟩
  · rintro (⟨m, hm, rfl⟩ | ⟨v, hv, rfl⟩)
    · exact ⟨m, hrec.extended.subset hm, rfl⟩
    · obtain ⟨m, hm, hterm⟩ := hrec.listed v hv
      exact ⟨m, hm, by rw [hterm]⟩

/-- The keys after a call. -/
theorem Listed.keys_call (h : Listed ops settings es c) (call : Compilation) :
    (call.on c).compiler.keys = c.keys ∪ keysOf (call.plan ops settings).visits := by
  obtain ⟨es', formula, hlist, hrec, -⟩ := h.call call
  exact hrec.keys_eq h hlist

/-- The keys after a run of calls are those before and those of all plans. -/
theorem Listed.keys_after (h : Listed ops settings es c) (calls : List Compilation) :
    (c.after calls).keys = c.keys ∪ keysOf (visits ops settings calls) := by
  obtain ⟨es', hlist, hrec⟩ := h.after calls
  exact hrec.keys_eq h hlist

/-- A new compiler has the key of the input alone, and every compiler has it. -/
theorem Listed.keys_new (h : Listed ops settings es c) {c₀ : Compiler} (h₀ : Compiler.new ops settings = .ok c₀) :
    c₀.keys ⊆ c.keys := by
  intro k hk
  obtain ⟨m, hm, rfl⟩ := (listed_new h₀).mem_keys.mp hk
  obtain rfl := List.mem_singleton.mp hm
  exact h.mem_keys.mpr ⟨_, List.mem_of_getElem? h.ledger.head, rfl⟩

/-! ## Outcomes -/

/-- The output of a model of a term is the node of the term. -/
theorem IsModel.output {formula : Bytes} {m : Model} {t : Term} (hm : IsModel settings formula es m t)
    (h : Ledger ops settings es) : ∃ out ∈ es, out.term = t ∧ m.node? m.output = some out.node := by
  obtain ⟨hholds, out, hid, hterm⟩ := hm.holds h
  obtain ⟨n, hn⟩ := hholds.output_some
  obtain rfl := node_eq_of_holds hholds hid hn
  exact ⟨out, List.mem_of_getElem? hid, hterm, hn⟩

/-- Models whose outputs have one key and one width. -/
def SameOutput (m m' : Model) : Prop :=
  ∃ n n', m.node? m.output = some n ∧ m'.node? m'.output = some n' ∧ n.key = n'.key ∧ n.width = n'.width

/-- Models of one term have outputs of one key and one width. -/
theorem IsModel.sameOutput {es' : List Entry} {formula formula' : Bytes} {m m' : Model} {t : Term}
    (hm : IsModel settings formula es m t) (h : Ledger ops settings es) (hm' : IsModel settings formula' es' m' t)
    (h' : Ledger ops settings es') : SameOutput m m' := by
  obtain ⟨out, hout, rfl, hnode⟩ := hm.output h
  obtain ⟨out', hout', hterm, hnode'⟩ := hm'.output h'
  refine ⟨out.node, out'.node, hnode, hnode', ?_, ?_⟩
  · rw [(h.key out hout).1, (h'.key out' hout').1, hterm]
  · rw [h.width out hout, h'.width out' hout', hterm]

end

end Compiler

open Compiler

/-- The outcome of a call does not depend on earlier calls: it fails with the failure that a new compiler gives, or returns an output
of the key and the width that a new compiler gives, and the keys of the compiler afterwards are those from before and those that a new
compiler has after the call. So the keys after a run of calls depend neither on their order nor on their number. -/
theorem outcome_independent_of_history {ops : Registries} {settings : Settings} {c₀ c : Compiler}
    (h₀ : Compiler.new ops settings = .ok c₀) (hc : Reachable ops settings c) (call : Compilation) :
    Matched SameOutput (call.on c).result (call.on c₀).result ∧
      (call.on c).compiler.keys = c.keys ∪ (call.on c₀).compiler.keys ∧
      ∀ calls calls' : List Compilation, (∀ q, q ∈ calls ↔ q ∈ calls') → (c₀.after calls).keys = (c₀.after calls').keys := by
  obtain ⟨es, hlist⟩ := hc.listed
  have hlist₀ := listed_new h₀
  refine ⟨?_, ?_, fun calls calls' hsame => ?_⟩
  · obtain ⟨es', formula, hlist', -, hmatch⟩ := hlist.call call
    obtain ⟨es₀', formula₀, hlist₀', -, hmatch₀⟩ := hlist₀.call call
    refine (hmatch.trans hmatch₀.symm).imp ?_
    rintro m m₀ ⟨t, hm, hm₀⟩
    exact hm.sameOutput hlist'.ledger hm₀ hlist₀'.ledger
  · rw [hlist.keys_call, hlist₀.keys_call, ← Set.union_assoc, Set.union_eq_self_of_subset_right (hlist.keys_new h₀)]
  · rw [hlist₀.keys_after, hlist₀.keys_after]
    simp only [keysOf, visits, List.mem_flatMap, hsame]

namespace Sample

/-- One number per node, edges, and two bases of truth values. -/
def twoBases : Settings :=
  ⟨⟨⟨.uint8, 1⟩, none, true, false⟩, [(Bytes.ofString "b", Base.bool 1), (Bytes.ofString "r", Base.bool 1)], 0⟩

/-- A compiler that has not compiled anything. -/
def newCompiler : Compiler :=
  fresh Builtin.registries twoBases

theorem newCompiler_new : Compiler.new Builtin.registries twoBases = .ok newCompiler := by
  have hsorted : twoBases.sortedBases = twoBases.bases := List.mergeSort_of_pairwise (by decide +kernel)
  refine new_of_faultless ?_
  rw [Settings.faults, hsorted]
  decide +kernel

/-- A formula text as it is compiled. -/
def call (text : String) : Compilation :=
  ⟨Bytes.ofString text, false, false⟩

/-- A fixpoint on other labels than the input, and a formula that fails after its first node. -/
def calls : List Compilation :=
  [call "a;mu X,b.(X)", call "b;nope"]

end Sample

/-- After two calls, one of which fails and leaves the node of `b`, the formulas `mu X,b.(X)` and `b;nope` have the outcomes that they
have on a new compiler. -/
theorem outcome_independent_of_history_sample :
    (∃ m m₀, ((Sample.call "mu X,b.(X)").on (Sample.newCompiler.after Sample.calls)).result = .ok m ∧
      ((Sample.call "mu X,b.(X)").on Sample.newCompiler).result = .ok m₀ ∧ SameOutput m m₀) ∧
    ∃ f, ((Sample.call "b;nope").on (Sample.newCompiler.after Sample.calls)).result = .error f ∧
      ((Sample.call "b;nope").on Sample.newCompiler).result = .error f := by
  have hreach := (Reachable.new Sample.newCompiler_new).after Sample.calls
  constructor
  · obtain ⟨hmatch, -⟩ := outcome_independent_of_history Sample.newCompiler_new hreach (Sample.call "mu X,b.(X)")
    have hok : ((Sample.call "mu X,b.(X)").on (Sample.newCompiler.after Sample.calls)).result.isOk = true := by decide +kernel
    obtain ⟨m, hm⟩ := exists_of_isOk hok
    rw [hm] at hmatch
    obtain ⟨m₀, hm₀, hsame⟩ := hmatch.of_ok
    exact ⟨m, m₀, hm, hm₀, hsame⟩
  · obtain ⟨hmatch, -⟩ := outcome_independent_of_history Sample.newCompiler_new hreach (Sample.call "b;nope")
    have hbad : ((Sample.call "b;nope").on (Sample.newCompiler.after Sample.calls)).result.isOk = false := by decide +kernel
    cases hf : ((Sample.call "b;nope").on (Sample.newCompiler.after Sample.calls)).result with
    | ok m =>
      rw [hf] at hbad
      cases hbad
    | error f =>
      rw [hf] at hmatch
      exact ⟨f, rfl, hmatch.of_error⟩

end ModalGraph
