import ModalGraph.Proofs.Compiler.History

/-!
# One node for one computation

A compiler finds nodes by their keys alone, so two computations whose keys were the same would share a node. No two are: names may be
those of the concatenation and the input, and arguments may have parentheses, commas and braces in them, but a key spells one term
only. So in every store a node stands for one term, and formulas come to one node exactly if they stand for the same term
(`node_shared_iff_same_term`). It matters that a concatenation has two parts at least: with one part, its key would be that of an
operator named `concat` (`Term.key_concat_singleton`).
-/

namespace ModalGraph

open Formula Compiler

/-- The concatenation of one part, which no text spells, has the key of an operator of that name. -/
theorem Term.key_concat_singleton (t : Term) : (Term.concat [t]).key = (Term.psi (Bytes.ofString "concat") none t).key := by
  rw [Term.key, Term.key, Term.keys, Term.keys]
  rfl

namespace KeysAux

variable {ops : Registries} {settings : Settings} {es : List Entry}

/-- A call that returns a model has come to the term of its formula. -/
theorem term_of_plan {call : Compilation} {e : Expr} (hparse : parse call.text = .ok e) {t : Term}
    (h : (call.plan ops settings).result = .ok t) : e.term [] .input = some t := by
  rw [Compilation.plan, hparse] at h
  exact (callPlan_ok h).1

/-- Two places of a ledger hold one term only if they are the same. -/
theorem place_eq (h : Ledger ops settings es) {i j : Nat} {m m' : Entry} (hi : es[i]? = some m) (hj : es[j]? = some m')
    (hterm : m.term = m'.term) : i = j := by
  have hm := List.mem_of_getElem? hi
  have hm' := List.mem_of_getElem? hj
  have hkey : m.node.key = m'.node.key := by rw [(h.key m hm).1, (h.key m' hm').1, hterm]
  obtain rfl := h.unique hm hm' hkey
  rw [← h.id hi, h.id hj]

end KeysAux

open KeysAux

/-- Keys spell computations: two terms of names such as text can spell have the same key only if they are the same. So in the store of a
compiler, whatever it has compiled, every node has the key of one such term, and two formulas that are compiled one after the other, with
any calls between, come to the same node if and only if they stand for the same term. -/
theorem node_shared_iff_same_term :
    (∀ t u : Term, t.Clean → u.Clean → (t.key = u.key ↔ t = u)) ∧
      ∀ (ops : Registries) (settings : Settings) (c : Compiler), Reachable ops settings c →
        (∀ n ∈ c.store.nodes.toList, ∃! t : Term, t.Clean ∧ t.key = n.key) ∧
          ∀ (call call' : Compilation) (between : List Compilation) (e e' : Expr) (m m' : Model),
            parse call.text = .ok e → parse call'.text = .ok e' → (call.on c).result = .ok m →
              (call'.on (c.after (call :: between))).result = .ok m' →
                (m.output = m'.output ↔ e.term [] .input = e'.term [] .input) := by
  refine ⟨fun t u ht hu => ⟨Term.key_injective ht hu, fun h => h ▸ rfl⟩, fun ops settings c hc => ?_⟩
  obtain ⟨es, hlist⟩ := hc.listed
  refine ⟨fun n hn => ?_, fun call call' between e e' m m' hparse hparse' hm hm' => ?_⟩
  · rw [hlist.store_eq] at hn
    obtain ⟨entry, hentry, rfl⟩ := List.mem_map.mp hn
    obtain ⟨hkey, hclean⟩ := hlist.ledger.key entry hentry
    exact ⟨entry.term, ⟨hclean, hkey.symm⟩, fun u ⟨hu, hukey⟩ => Term.key_injective hu hclean (hukey.trans hkey)⟩
  · obtain ⟨es₁, formula, hlist₁, -, hmatch⟩ := hlist.call call
    obtain ⟨es₂, hlist₂, hrec₂⟩ := hlist₁.after between
    obtain ⟨es₃, formula', hlist₃, hrec₃, hmatch'⟩ := hlist₂.call call'
    rw [hm] at hmatch
    rw [show c.after (call :: between) = (call.on c).compiler.after between from rfl] at hm'
    rw [hm'] at hmatch'
    obtain ⟨t, hplan, hmodel⟩ := hmatch.of_ok
    obtain ⟨t', hplan', hmodel'⟩ := hmatch'.of_ok
    obtain ⟨-, out, hout, rfl⟩ := hmodel.holds hlist₁.ledger
    obtain ⟨-, out', hout', rfl⟩ := hmodel'.holds hlist₃.ledger
    -- the nodes of a store keep their places, so both outputs are places of the last ledger
    have hout₃ : es₃[m.output]? = some out := by
      obtain ⟨later, rfl⟩ := hrec₂.extended.trans hrec₃.extended
      rw [List.getElem?_append_left (List.getElem?_eq_some_iff.mp hout).1, hout]
    rw [term_of_plan hparse hplan, term_of_plan hparse' hplan']
    constructor
    · intro heq
      rw [heq] at hout₃
      rw [Option.some.inj (hout₃.symm.trans hout')]
    · intro hterm
      exact place_eq hlist₃.ledger hout₃ hout' (Option.some.inj hterm)

namespace Sample

/-- Operators that are named like the concatenation and the input. -/
def namesakes : Registries :=
  { Builtin.registries with
    psi := (Builtin.registries.psi.register (Bytes.ofString "concat") Builtin.identity).register (Bytes.ofString "x") Builtin.identity }

/-- A compiler for them that has not compiled anything. -/
def bare : Compiler :=
  fresh namesakes twoBases

theorem bare_new : Compiler.new namesakes twoBases = .ok bare := by
  obtain ⟨_, hvalid, -⟩ := bind_ok newCompiler_new
  rw [Compiler.new, hvalid]
  rfl

/-- The operator `x` on the input. -/
def once : Term :=
  .psi (Bytes.ofString "x") none .input

/-- The operator `concat` on what `x` gives. -/
def chained : Term :=
  .psi (Bytes.ofString "concat") none once

/-- The operators `x` and `concat` one after the other, with `x` at the first place and `concat` at the second. -/
def chainedExpr (first second : Position) : Expr :=
  .seq Position.start (.atom first (Bytes.ofString "x") none) (.atom second (Bytes.ofString "concat") none)

/-- Two operators `x` side by side. -/
def parallelExpr : Expr :=
  .par Position.start [.atom Position.start (Bytes.ofString "x") none, .atom ⟨3, 1, 4⟩ (Bytes.ofString "x") none]

theorem parse_chained : parse (call "x;concat").text = .ok (chainedExpr Position.start ⟨2, 1, 3⟩) :=
  parse_of_same (by decide +kernel)

theorem parse_grouped : parse (call "(x);concat").text = .ok (chainedExpr ⟨1, 1, 2⟩ ⟨4, 1, 5⟩) :=
  parse_of_same (by decide +kernel)

theorem parse_parallel : parse (call "x||x").text = .ok parallelExpr :=
  parse_of_same (by decide +kernel)

end Sample

/-- The operators `x` and `concat` one after the other have the key `concat(x(x))`, and two `x` side by side `concat(x(x),x(x))`. These
are two nodes, and the first is found again. -/
theorem node_shared_iff_same_term_sample :
    Sample.chained.key = Bytes.ofString "concat(x(x))" ∧
      (Term.concat [Sample.once, Sample.once]).key = Bytes.ofString "concat(x(x),x(x))" ∧
      ∃ m m' m'', ((Sample.call "x;concat").on Sample.bare).result = .ok m ∧
        ((Sample.call "x||x").on (Sample.bare.after [Sample.call "x;concat"])).result = .ok m' ∧
        ((Sample.call "(x);concat").on (Sample.bare.after [Sample.call "x;concat", Sample.call "x||x"])).result = .ok m'' ∧
        m.output ≠ m'.output ∧ m.output = m''.output := by
  obtain ⟨-, hnodes⟩ := node_shared_iff_same_term
  obtain ⟨-, hshared⟩ := hnodes _ _ Sample.bare (.new Sample.bare_new)
  obtain ⟨m, hm⟩ := exists_of_isOk (x := ((Sample.call "x;concat").on Sample.bare).result) (by decide +kernel)
  obtain ⟨m', hm'⟩ := exists_of_isOk (x := ((Sample.call "x||x").on (Sample.bare.after [Sample.call "x;concat"])).result)
    (by decide +kernel)
  obtain ⟨m'', hm''⟩ := exists_of_isOk
    (x := ((Sample.call "(x);concat").on (Sample.bare.after [Sample.call "x;concat", Sample.call "x||x"])).result) (by decide +kernel)
  have hne := hshared _ _ [] _ _ m m' Sample.parse_chained Sample.parse_parallel hm hm'
  have heq := hshared _ _ [Sample.call "x||x"] _ _ m m'' Sample.parse_chained Sample.parse_grouped hm hm''
  have hterm : ∀ first second, (Sample.chainedExpr first second).term [] .input = some Sample.chained := fun _ _ => rfl
  have hterm' : Sample.parallelExpr.term [] .input = some (.concat [Sample.once, Sample.once]) := rfl
  refine ⟨by decide +kernel, by decide +kernel, m, m', m'', hm, hm', hm'', fun h => ?_, heq.mpr ((hterm _ _).trans (hterm _ _).symm)⟩
  have hsame := (hterm _ _).symm.trans ((hne.mp h).trans hterm')
  cases Option.some.inj hsame

end ModalGraph
