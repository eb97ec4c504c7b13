import ModalGraph.Proofs.Evaluator.Width

/-!
# One row for every node

Operators are free to give no labels, or labels of any shape. Still, whatever an evaluation keeps in its tables, binds to a variable or
gives in the end has one row for each node of its input, and the labels of a fixpoint and of its variable are as wide as the base
declares (`rows_eq_nodes`). This holds in any frame and any turn of any fixpoint around, for evaluations that fail later on as well,
since every step either passes a check of its rows or takes them over from labels that are already known to be right.
-/

namespace ModalGraph

open Formula Compiler

/-- Labels as wide as a base declares. -/
def Settings.DeclaresWidth (settings : Settings) (name : Bytes) (x : Tensor) : Prop :=
  ∃ base, settings.base? name = some base ∧ x.cols = base.width

/-- The base that the labels of a term are as wide as, if it is a fixpoint or a variable. -/
def Term.baseName? : Term → Option Bytes
  | .var _ name => some name
  | .fix _ _ name _ => some name
  | _ => none

namespace Evaluator

/-- Labels that a node may have: a row for each node of the input, and the width of the base for a fixpoint and for a variable. -/
structure Fits (settings : Settings) (t : Task) (n : Node) (x : Tensor) : Prop where
  rows : x.rows = t.nodes
  ofFixpoint : n.kind = .fixpoint → ∃ b, n.binder = some b ∧ settings.DeclaresWidth b.base x
  ofVariable : n.kind = .variable → ∃ depth name, n.key = variableKey depth name ∧ settings.DeclaresWidth name x

/-- A table of labels, each of which fits its node. -/
def Memo.Fits (settings : Settings) (t : Task) (memo : Memo) : Prop :=
  ∀ i x, memo.lookup i = some x → x.rows = t.nodes ∧ ∀ n, t.model.node? i = some n → Evaluator.Fits settings t n x

/-- Labels that are bound to the variable of a fixpoint: a row for each node, and the width of the fixpoint's base. -/
def Binds (settings : Settings) (t : Task) (key : Bytes) (x : Tensor) : Prop :=
  x.rows = t.nodes ∧ ∃ i n b, t.model.node? i = some n ∧ n.kind = .fixpoint ∧ n.binder = some b ∧ b.var = key ∧
    settings.DeclaresWidth b.base x

/-- Every term has labels with a row for each node, and those of fixpoints and variables are as wide as their base. -/
def rowRegime (settings : Settings) (t : Task) : Regime where
  Relevant _ := True
  Labels u x := x.rows = t.nodes ∧ ∀ name, u.baseName? = some name → settings.DeclaresWidth name x
  Assigned key x := x.rows = t.nodes ∧ ∀ depth name, key = variableKey depth name → settings.DeclaresWidth name x
  Fails _ := True

section

variable {ops : Registries} {settings : Settings} {t : Task}

/-! ## Each step checks its rows or keeps them -/

theorem checkRows_rows {n : Node} {out : Option Tensor} {x : Tensor} (h : checkRows t n out = .ok x) : x.rows = t.nodes := by
  unfold checkRows at h
  split at h
  · cases h
  · split at h
    · cases h
    · rename_i hrows
      rw [← Except.ok.inj h]
      exact not_not.mp hrows

theorem applyPsi_rows {n : Node} {op : Psi} {x y : Tensor} (h : applyPsi t n op x = .ok y) : y.rows = t.nodes := by
  obtain ⟨out, -, hcheck⟩ := bind_ok h
  exact checkRows_rows hcheck

theorem applyDiamond_rows {n : Node} {phi : Option Phi} {sigma : Sigma} {x y : Tensor} (h : applyDiamond t n phi sigma x = .ok y) :
    y.rows = t.nodes := by
  obtain ⟨m, -, hm⟩ := bind_ok h
  obtain ⟨out, -, hcheck⟩ := bind_ok hm
  exact checkRows_rows hcheck

/-- Labels side by side have as many rows as each of them. -/
theorem concat_rows {x y : Tensor} {xs : List Tensor} (h : Tensor.concat (x :: xs) = .ok y) : y.rows = x.rows := by
  rw [Tensor.concat] at h
  dsimp only at h
  split at h
  · cases h
  · split at h
    · cases h
    · split at h
      · rw [← Except.ok.inj h]
      · split at h
        · rw [← Except.ok.inj h]
        · cases h

/-- A body that passes its check has a row for each node and the width of the row that its fixpoint starts from. -/
theorem checkBody_shape {b : Binder} {width : Nat} {x : Tensor} (h : checkBody t b width x = .ok ()) :
    x.rows = t.nodes ∧ x.cols = width := by
  unfold checkBody at h
  split at h
  · cases h
  · rename_i hshape
    rwa [not_or, not_not, not_not] at hshape

/-- Labels of the shape that a fixpoint declares may be assigned to its variable. -/
theorem assigned_of_shape {depth : Nat} {name : Bytes} {base : Base} {least : Bool} {row : List Label}
    (hbase : settings.base? name = some base) (hinit : base.init least = .ok row) {x : Tensor} (hrows : x.rows = t.nodes)
    (hcols : x.cols = row.length) : (rowRegime settings t).Assigned (variableKey depth name) x := by
  refine ⟨hrows, fun depth' name' hkey => ?_⟩
  obtain ⟨-, rfl⟩ := WidthAux.variableKey_inj hkey
  exact ⟨base, hbase, hcols.trans (Base.length_init hinit)⟩

/-- Whatever the operators do, each step of an evaluation keeps the rows. -/
theorem rowRegime_upheld : (rowRegime settings t).Upheld ops settings t where
  parts := fun _ _ _ => trivial
  input := ⟨rfl, fun _ h => by cases h⟩
  psi := by
    intro name arg op u n x _ _ _ _
    cases hy : applyPsi t n op x with
    | error f => exact trivial
    | ok y => exact ⟨applyPsi_rows hy, fun _ h => by cases h⟩
  interrupts := fun _ _ => trivial
  concat := by
    intro us xs _ hxs
    cases hy : Tensor.concat xs with
    | error f => exact trivial
    | ok y =>
      refine ⟨?_, fun _ h => by cases h⟩
      cases hxs with
      | nil => cases hy
      | cons hx _ => exact (concat_rows hy).trans hx.1
  diamond := by
    intro direction phiKey sigmaKey phi sigma u n x _ _ _ _ _ _ _ _
    cases hy : applyDiamond t n phi sigma x with
    | error f => exact trivial
    | ok y => exact ⟨applyDiamond_rows hy, fun _ h => by cases h⟩
  var := by
    intro depth name base x _ hx
    refine ⟨hx.1, fun name' h => ?_⟩
    obtain rfl := Option.some.inj h
    exact hx.2 depth name rfl
  start := by
    intro least depth name u base row _ hbase hinit
    refine .orAborted (fun x hx => ?_) fun _ => trivial
    obtain ⟨rfl, -⟩ := Tensor.full?_some hx
    exact assigned_of_shape hbase hinit (Tensor.full_rows _ _ _) (Tensor.full_cols _ _ _)
  turn := by
    intro least depth name u base row b x _ hbase hinit _ _
    cases hcheck : checkBody t b row.length x with
    | error f => exact trivial
    | ok _ =>
      obtain ⟨hrows, hcols⟩ := checkBody_shape hcheck
      exact assigned_of_shape hbase hinit hrows hcols
  fix := by
    intro least depth name u base row x _ _ hx
    refine ⟨hx.1, fun name' h => ?_⟩
    obtain rfl := Option.some.inj h
    exact hx.2 depth name rfl
  unsettled := fun _ _ => trivial

/-! ## From terms to nodes -/

section

variable {es : List Entry}

/-- Labels of a term fit its node. -/
theorem fits_of_labels (hl : Ledger ops settings es) {m : Entry} (hm : m ∈ es) {x : Tensor} (hx : (rowRegime settings t).Labels m.term x) :
    Fits settings t m.node x := by
  obtain ⟨hrows, hwidth⟩ := hx
  have hbuilt := hl.built hm
  generalize m.term = term at hbuilt hwidth
  cases hbuilt with
  | input hkind | psi _ _ hkind | concat _ hkind | diamond _ _ _ _ hkind =>
    exact ⟨hrows, (fun h => by cases hkind.symm.trans h), fun h => by cases hkind.symm.trans h⟩
  | @var depth name base _ _ hkind hkey =>
    exact ⟨hrows, (fun h => by cases hkind.symm.trans h), fun _ => ⟨depth, name, hkey, hwidth name rfl⟩⟩
  | @fix u least depth name base row b _ _ _ _ hkind hb _ _ hname =>
    refine ⟨hrows, fun _ => ⟨b, hb, ?_⟩, fun h => by cases hkind.symm.trans h⟩
    rw [hname]
    exact hwidth name rfl

/-- Tables of labels of terms are tables of labels that fit. -/
theorem memo_fits (hl : Ledger ops settings es) (hh : t.model.Holds (table es)) {memo : Memo}
    (h : ∀ {i x}, memo.lookup i = some x → ∃ m, es[i]? = some m ∧ (rowRegime settings t).Labels m.term x) : memo.Fits settings t := by
  intro i x hlook
  obtain ⟨m, hm, hx⟩ := h hlook
  refine ⟨hx.1, fun n hn => ?_⟩
  obtain rfl := node_eq_of_holds hh hm hn
  exact fits_of_labels hl (List.mem_of_getElem? hm) hx

end

/-- What is in the scope of a call was bound by a fixpoint of the model, for a call that the evaluation comes to. -/
theorem Comes.bound {call : Call} (h : Comes t call) {k : Bytes} {x : Tensor} (hmem : (k, x) ∈ call.scope) :
    ∃ i n b inner, t.model.node? i = some n ∧ n.kind = .fixpoint ∧ n.binder = some b ∧ b.var = k ∧ Comes t inner ∧
      inner.scope.lookup k = some x := by
  induction h with
  | start => cases hmem
  | @asked fuel id i scope inner r r' n hcall hn hknown hasks ih =>
    have hcomes := Comes.asked hcall hn hknown hasks
    cases hasks with
    | psi | diamond | part => exact ih hmem
    | @body b body _ y _ hkind hb =>
      rcases List.mem_cons.mp hmem with heq | hmem
      · obtain ⟨rfl, rfl⟩ := Prod.mk.inj heq
        exact ⟨id, n, b, _, hn, hkind, hb, rfl, hcomes, List.lookup_cons_self⟩
      · exact ih hmem

end

end Evaluator

open Evaluator

/-- Whatever the operators do and whatever a compiler has compiled before, on an input that goes with a model: labels that an
evaluation gives have one row per node; and so have the labels that any call of it gives, all labels in the tables before and after
the call, and those bound to the variables around it. Those of fixpoints and variables are as wide as their base declares. -/
theorem rows_eq_nodes {ops : Registries} {settings : Settings} {c : Compiler} (hc : Reachable ops settings c) {e : Expr} {m : Model}
    (hm : c.Returns e m) {input : Input} (hinput : m.spec.check (some input) = .ok input) (maxIterations : Int) :
    (∀ live x, (evaluate maxIterations live m (some input)).result = .ok x → x.rows = input.nodes) ∧
    ∀ call, Comes ⟨m, input, maxIterations⟩ call →
      (∀ x, (call.result ⟨m, input, maxIterations⟩).1 = .ok x →
        ∃ n, m.node? call.id = some n ∧ Fits settings ⟨m, input, maxIterations⟩ n x) ∧
      (∀ r ∈ [call.run, (call.result ⟨m, input, maxIterations⟩).2],
        r.closed.Fits settings ⟨m, input, maxIterations⟩ ∧ r.current.Fits settings ⟨m, input, maxIterations⟩) ∧
      ∀ k x, (k, x) ∈ call.scope → Binds settings ⟨m, input, maxIterations⟩ k x := by
  obtain ⟨es, hledger, hholds, -, out, hout, houtput, hterm, -⟩ := RefinementAux.returns_holds hc hm
  have hbelow : Term.Below .input [] := fun k hk => hk.elim
  have hclosed : ∀ k, ¬ out.term.Mentions k := fun k hk => by
    cases (value_term ⟨ops, settings, input, maxIterations⟩ e hbelow hterm).1 k hk
  have hupheld : (rowRegime settings ⟨m, input, maxIterations⟩).Upheld ops settings ⟨m, input, maxIterations⟩ := rowRegime_upheld
  have hfits : ∀ {call}, Comes ⟨m, input, maxIterations⟩ call → ∀ x, (call.result ⟨m, input, maxIterations⟩).1 = .ok x →
      ∃ n, m.node? call.id = some n ∧ Fits settings ⟨m, input, maxIterations⟩ n x := by
    intro call hcall x hx
    obtain ⟨u, hu, -, hnode, hends⟩ := hcall.result hledger hholds hupheld hout houtput trivial hclosed
    rw [hx] at hends
    exact ⟨u.node, hnode, fits_of_labels hledger hu hends⟩
  refine ⟨fun live x hx => ?_, fun call hcall => ⟨hfits hcall, ?_, fun k x hmem => ?_⟩⟩
  · cases live with
    | false => cases hx
    | true =>
      rw [RefinementAux.evaluate_result hinput, run_eq_result] at hx
      obtain ⟨n, -, hx⟩ := hfits .start x hx
      exact hx.rows
  · have htables : ∀ {r}, (rowRegime settings ⟨m, input, maxIterations⟩).Kept es r →
        r.closed.Fits settings ⟨m, input, maxIterations⟩ ∧ r.current.Fits settings ⟨m, input, maxIterations⟩ :=
      fun hr => ⟨memo_fits hledger hholds hr.closed, memo_fits hledger hholds hr.current⟩
    obtain ⟨_, -, -, hbefore⟩ := hcall.placed hledger hholds hupheld hout houtput trivial hclosed
    have hafter := hcall.kept hledger hholds hupheld hout houtput trivial hclosed
    intro r hr
    rcases List.mem_pair.mp hr with rfl | rfl
    · exact htables hbefore
    · exact htables hafter
  · -- The value is bound to the variable of the fixpoint that binds it in the innermost scope that it was looked up in.
    obtain ⟨i, n, b, inner, hn, hkind, hb, rfl, hinner, hlook⟩ := hcall.bound hmem
    obtain ⟨_, -, hplaced, -⟩ := hinner.placed hledger hholds hupheld hout houtput trivial hclosed
    obtain ⟨hrows, hwidth⟩ := hplaced.assigned hlook
    refine ⟨hrows, i, n, b, hn, hkind, hb, rfl, ?_⟩
    obtain ⟨o, ho, rfl⟩ := Option.map_eq_some_iff.mp (hholds.table_eq hn)
    have hbuilt := hledger.built (List.mem_of_getElem? ho)
    generalize o.term = term at hbuilt
    cases hbuilt with
    | input hkind' | var _ hkind' | psi _ _ hkind' | concat _ hkind' | diamond _ _ _ _ hkind' => cases hkind.symm.trans hkind'
    | @fix u least depth name base row b' _ _ _ _ _ hb' _ hvar hname =>
      obtain rfl := Option.some.inj (hb.symm.trans hb')
      rw [hname]
      exact hwidth depth name hvar

/-- The labels that the sample formula evaluates to have two rows, one for each of the two nodes. -/
theorem rows_eq_nodes_sample : ∃ m, Sample.compiler.Returns Sample.expr m ∧ m.spec.check (some Sample.input) = .ok Sample.input ∧
    (evaluate 0 true m (some Sample.input)).result = .ok Sample.labels ∧ Sample.labels.rows = Sample.input.nodes := by
  obtain ⟨m, hm, hcheck, hres⟩ := Sample.evaluated
  exact ⟨m, hm, hcheck, hres, (rows_eq_nodes Sample.reachable hm hcheck 0).1 true Sample.labels hres⟩

end ModalGraph
