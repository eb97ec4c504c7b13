import ModalGraph.Proofs.Evaluator.Regime
import ModalGraph.Proofs.Operator.Width

/-!
# Widths that are inferred are kept

A compiled node has a width, which is worked out from what operators declare and is unknown where they declare nothing. With builtin
operators it is the number of columns of whatever an evaluation computes for the node, in any frame and any turn of any
fixpoint around (`columns_eq_width`). So the check of a body's columns never fails where the width of the body is known.
-/

namespace ModalGraph

open Formula Compiler

namespace WidthAux

/-! ## Widths side by side -/

/-- The sum of two widths, counted in 64 bits, as far as they are known. -/
def sideBySide (w v : Int) : Int :=
  if w = unknownWidth ∨ v = unknownWidth then unknownWidth else Tensor.word (w + v)

theorem total_eq (ws : List Int) : Width.total ws = ws.foldl sideBySide 0 := rfl

theorem word_word (a : Int) : Tensor.word (Tensor.word a) = Tensor.word a :=
  Int.bmod_bmod

theorem word_sideBySide (w v : Int) : Tensor.word (sideBySide w v) = sideBySide w v := by
  unfold sideBySide
  split
  · decide
  · exact word_word _

/-- A width that comes out known was added up from known widths. -/
theorem foldl_known {ws : List Int} {w : Int} (hw : Tensor.word w = w) (h : ws.foldl sideBySide w ≠ unknownWidth) :
    w ≠ unknownWidth ∧ (∀ v ∈ ws, v ≠ unknownWidth) ∧ ws.foldl sideBySide w = Tensor.word (w + ws.sum) := by
  induction ws generalizing w with
  | nil =>
    refine ⟨h, (fun v hv => by cases hv), ?_⟩
    rw [List.sum_nil, Int.add_zero, hw]
    rfl
  | cons v ws ih =>
    rw [List.foldl_cons] at h ⊢
    obtain ⟨hfirst, hrest, hsum⟩ := ih (word_sideBySide w v) h
    have hknown : ¬ (w = unknownWidth ∨ v = unknownWidth) := fun hunknown => hfirst (if_pos hunknown)
    obtain ⟨hw', hv⟩ := not_or.mp hknown
    refine ⟨hw', ?_, ?_⟩
    · intro u hu
      rcases List.mem_cons.mp hu with rfl | hu
      · exact hv
      · exact hrest u hu
    · rw [hsum, sideBySide, if_neg hknown, List.sum_cons, ← Int.add_assoc]
      exact Int.bmod_add_bmod

/-- A known width of several terms side by side is the sum of known widths. -/
theorem total_known {ws : List Int} (h : Width.total ws ≠ unknownWidth) :
    (∀ v ∈ ws, v ≠ unknownWidth) ∧ Width.total ws = Tensor.word ws.sum := by
  rw [total_eq] at h ⊢
  obtain ⟨-, hknown, hsum⟩ := foldl_known (by decide) h
  rw [Int.zero_add] at hsum
  exact ⟨hknown, hsum⟩

/-- A width that a rule gives is known only if the width that it goes by is. -/
theorem result_known {rule : Int → Int} {w : Int} (h : Width.result rule w ≠ unknownWidth) :
    w ≠ unknownWidth ∧ Width.result rule w = rule w := by
  unfold Width.result at h ⊢
  split
  · rename_i hw
    rw [if_pos hw] at h
    exact absurd rfl h
  · rename_i hw
    exact ⟨hw, rfl⟩

/-- The width of messages, from that of the labels where edges start. -/
def messageWidth (phi : Option Phi) (w : Int) : Int :=
  match phi with
  | none => w
  | some phi => Width.result phi.width w

/-- The key of a variable tells its depth and its base. -/
theorem variableKey_inj {depth depth' : Nat} {name name' : Bytes} (h : variableKey depth name = variableKey depth' name') :
    depth = depth' ∧ name = name' := by
  obtain ⟨hdepth, hname⟩ := TermAux.variableKey_split (show variableKey depth name ++ [] = variableKey depth' name' ++ [] by
    rw [List.append_nil, List.append_nil, h])
  simp only [List.append_nil] at hname
  exact ⟨hdepth, hname⟩

end WidthAux

open WidthAux

namespace Evaluator

/-- Labels are as wide as the width of their term says, and those of a variable as wide as its base declares. -/
def widthRegime (ops : Registries) (settings : Settings) : Regime where
  Relevant _ := True
  Labels t x := t.width ops settings ≠ unknownWidth → x.cols = t.width ops settings
  Assigned key x := ∀ depth name base, key = variableKey depth name → settings.base? name = some base → x.cols = base.width
  Fails _ := True

section

variable {settings : Settings} {t : Task}

theorem checkRows_cols {n : Node} {out : Labels} {x : Tensor} (h : checkRows t n out = .ok x) : out = some x := by
  unfold checkRows at h
  split at h
  · cases h
  · split at h
    · cases h
    · rw [Except.ok.inj h]

theorem checkMessages_cols {n : Node} {edges : Nat} {out : Labels} {x : Tensor} (h : checkMessages n edges out = .ok x) :
    out = some x := by
  unfold checkMessages at h
  split at h
  · cases h
  · split at h
    · cases h
    · rw [Except.ok.inj h]

/-- What a psi gives, from the labels that it is used on. -/
theorem applyPsi_ok {n : Node} {op : Psi} {x y : Tensor} (h : applyPsi t n op x = .ok y) :
    op.single (some x) = .ok (some y) ∨ ∃ index, op.multiple (some x) index = .ok (some y) := by
  obtain ⟨out, hout, hrows⟩ := bind_ok h
  have happly := inPlace_ok hout
  obtain rfl := checkRows_cols hrows
  split at happly
  · exact .inr ⟨_, happly⟩
  · exact .inl happly

/-- What a diamond gives, from the labels that it is used on: the labels where edges start are its messages, or what a phi makes of
the labels at both ends. -/
theorem applyDiamond_ok {n : Node} {phi : Option Phi} {sigma : Sigma} {x y : Tensor} (h : applyDiamond t n phi sigma x = .ok y) :
    ∃ s m : Tensor, s.cols = x.cols ∧
      (phi = none ∧ m = s ∨
        ∃ op e, ∃ g : Tensor, phi = some op ∧ g.cols = x.cols ∧ op.messages (some s) e (some g) = .ok (some m)) ∧
      ∃ targets nodes, sigma.aggregate (some m) targets nodes (some x) = .ok (some y) := by
  obtain ⟨m, hm, h⟩ := bind_ok h
  obtain ⟨out, hout, hrows⟩ := bind_ok h
  obtain rfl := checkRows_cols hrows
  obtain ⟨s, hs, hm⟩ := bind_ok hm
  refine ⟨s, m, Tensor.gather_cols hs, ?_, _, _, inPlace_ok hout⟩
  cases phi with
  | none => exact .inl ⟨rfl, (Except.ok.inj hm).symm⟩
  | some op =>
    obtain ⟨g, hg, hm⟩ := bind_ok hm
    obtain ⟨out, hout, hm⟩ := bind_ok hm
    obtain rfl := checkMessages_cols hm
    exact .inr ⟨op, _, g, rfl, Tensor.gather_cols hg, inPlace_ok hout⟩

/-- A psi gives labels as wide as is known of them. -/
theorem applyPsi_labels {name : Bytes} {arg : Argument} {op : Psi} (hop : Builtin.registries.psi.get name arg = .ok op) {n : Node}
    {u : Term} {x y : Tensor} (hx : (widthRegime Builtin.registries settings).Labels u x) (hy : applyPsi t n op x = .ok y) :
    (widthRegime Builtin.registries settings).Labels (.psi name arg u) y := by
  intro hwidth
  have hterm : (Term.psi name arg u).width Builtin.registries settings = Width.result op.width (u.width Builtin.registries settings) := by
    rw [Term.width, hop]
  rw [hterm] at hwidth ⊢
  obtain ⟨hu, hresult⟩ := result_known hwidth
  have hcols := hx hu
  rw [hresult] at hwidth ⊢
  rw [← hcols] at hwidth ⊢
  exact Builtin.psi_widthKept hop x y (applyPsi_ok hy) hwidth

/-- Labels side by side are as wide as is known of their parts. -/
theorem concat_labels {ops : Registries} {us : List Term} {xs : List Tensor} {y : Tensor}
    (hxs : List.Forall₂ (widthRegime ops settings).Labels us xs) (hy : Tensor.concat xs = .ok y) :
    (widthRegime ops settings).Labels (.concat us) y := by
  intro hwidth
  rw [Term.width, Term.widths_eq_map] at hwidth ⊢
  obtain ⟨hknown, htotal⟩ := total_known hwidth
  have hcols : xs.map Tensor.cols = us.map (Term.width ops settings) := by
    clear hwidth htotal hy
    induction hxs with
    | nil => rfl
    | cons hx _ ih =>
      rw [List.map_cons, List.map_cons, hx (hknown _ List.mem_cons_self), ih fun v hv => hknown v (List.mem_cons_of_mem _ hv)]
  rw [Tensor.concat_cols hy, htotal, hcols]

/-- A diamond gives labels as wide as is known of them: its messages are as wide as is known of those, and what they are folded into
is as wide as they are. -/
theorem applyDiamond_labels {direction : Direction} {phiKey : Option Bytes} {sigmaKey : Bytes} {phi : Option Phi} {sigma : Sigma}
    (hsigma : Builtin.registries.sigma.resolve sigmaKey = .ok sigma) (hphi : (fresh Builtin.registries settings).phi? phiKey = .ok phi)
    {n : Node} {u : Term} {x y : Tensor} (hx : (widthRegime Builtin.registries settings).Labels u x)
    (hy : applyDiamond t n phi sigma x = .ok y) :
    (widthRegime Builtin.registries settings).Labels (.diamond direction phiKey sigmaKey u) y := by
  intro hwidth
  obtain ⟨s, m, hs, hm, targets, nodes, hout⟩ := applyDiamond_ok hy
  have hterm : (Term.diamond direction phiKey sigmaKey u).width Builtin.registries settings =
      Width.result sigma.width (messageWidth phi (u.width Builtin.registries settings)) := by
    rw [Term.width, hsigma, hphi]
    clear hm
    cases phi <;> rfl
  rw [hterm] at hwidth ⊢
  obtain ⟨hmessages, hresult⟩ := result_known hwidth
  have hcols : m.cols = messageWidth phi (u.width Builtin.registries settings) := by
    rcases hm with ⟨rfl, rfl⟩ | ⟨op, e, g, rfl, hg, hsent⟩
    · rw [hs, hx hmessages]
      rfl
    · obtain ⟨hu, hresult⟩ := result_known hmessages
      rw [messageWidth] at hmessages ⊢
      rw [hresult] at hmessages ⊢
      rw [← hx hu, ← hs] at hmessages ⊢
      cases phi?_ok hphi with
      | some hop => exact Builtin.phi_widthKept hop s g m e (hs.trans hg.symm) hsent hmessages
  rw [hresult] at hwidth ⊢
  rw [← hcols] at hwidth ⊢
  exact Builtin.sigma_widthKept hsigma m x y targets nodes hout hwidth

/-- With builtin operators, each step of an evaluation keeps the widths. -/
theorem widthRegime_upheld (hinput : t.input.x.cols = settings.input.node.width) :
    (widthRegime Builtin.registries settings).Upheld Builtin.registries settings t where
  parts := fun _ _ _ => trivial
  input := fun _ => hinput
  psi := by
    intro name arg op u n x _ hop _ hx
    cases hy : applyPsi t n op x with
    | error f => exact trivial
    | ok y => exact applyPsi_labels hop hx hy
  interrupts := fun _ _ => trivial
  concat := by
    intro us xs _ hxs
    cases hy : Tensor.concat xs with
    | error f => exact trivial
    | ok y => exact concat_labels hxs hy
  diamond := by
    intro direction phiKey sigmaKey phi sigma u n x _ _ hsigma hphi _ _ _ hx
    cases hy : applyDiamond t n phi sigma x with
    | error f => exact trivial
    | ok y => exact applyDiamond_labels hsigma hphi hx hy
  var := by
    intro depth name base x hbase hx _
    rw [hx depth name base rfl hbase, Term.width, Settings.declaredWidth, hbase]
    rfl
  start := by
    intro least depth name u base row _ hbase hinit
    refine .orAborted (fun x hx depth' name' base' hkey hbase' => ?_) fun _ => trivial
    obtain ⟨-, rfl⟩ := variableKey_inj hkey
    obtain rfl := Option.some.inj (hbase.symm.trans hbase')
    rw [(Tensor.full?_some hx).1, Tensor.full_cols]
    exact Base.length_init hinit
  turn := by
    intro least depth name u base row b x _ hbase hinit _ _
    cases hcheck : checkBody t b row.length x with
    | error f => exact trivial
    | ok _ =>
      intro depth' name' base' hkey hbase'
      obtain ⟨-, rfl⟩ := variableKey_inj hkey
      obtain rfl := Option.some.inj (hbase.symm.trans hbase')
      unfold checkBody at hcheck
      split at hcheck
      · cases hcheck
      · rename_i hshape
        rw [not_or, not_not, not_not] at hshape
        rw [hshape.2, Base.length_init hinit]
  fix := by
    intro least depth name u base row x hbase _ hx _
    rw [hx depth name base rfl hbase, Term.width, Settings.declaredWidth, hbase]
    rfl
  unsettled := fun _ _ => trivial

end

end Evaluator

open Evaluator in
/-- With builtin operators, whatever a compiler has compiled before: any labels that an evaluation computes for a node of known width,
in any frame and any turn of any fixpoint, have as many columns as that width says. If such a node is the body of a fixpoint and its
labels have a row for each node, they pass the check of the body; so the columns are at fault only where the width of a body
is unknown. -/
theorem columns_eq_width {settings : Settings} {c : Compiler} (hc : Reachable Builtin.registries settings c) {e : Expr} {m : Model}
    (hm : c.Returns e m) {input : Input} (hinput : m.spec.check (some input) = .ok input) (maxIterations : Int) {call : Evaluator.Call}
    (hcall : Comes ⟨m, input, maxIterations⟩ call) {x : Tensor} (hx : (call.result ⟨m, input, maxIterations⟩).1 = .ok x) :
    ∃ n, m.node? call.id = some n ∧ (n.width ≠ unknownWidth → x.cols = n.width) ∧
      ∀ i outer b, m.node? i = some outer → outer.kind = .fixpoint → outer.binder = some b → outer.body = some call.id →
        n.width ≠ unknownWidth → x.rows = input.nodes →
          checkBody ⟨m, input, maxIterations⟩ b (b.init.getD []).length x = .ok () := by
  obtain ⟨es, hledger, hholds, hspec, out, hout, houtput, hterm, -⟩ := RefinementAux.returns_holds hc hm
  have hwidth : input.x.cols = settings.input.node.width := by
    rw [← hspec]
    exact (check_eq_ok.mp hinput).2.width
  have hbelow : Term.Below .input [] := fun k hk => hk.elim
  have hclosed : ∀ k, ¬ out.term.Mentions k := fun k hk => by
    cases (value_term ⟨Builtin.registries, settings, input, maxIterations⟩ e hbelow hterm).1 k hk
  obtain ⟨u, hu, hid, hnode, hends⟩ := hcall.result hledger hholds (widthRegime_upheld hwidth) hout houtput trivial hclosed
  rw [hx] at hends
  have hcols : u.node.width ≠ unknownWidth → x.cols = u.node.width := by
    rw [hledger.width u hu]
    exact hends
  refine ⟨u.node, hnode, hcols, ?_⟩
  intro i outer b houter hkind hb hbody hknown hrows
  obtain ⟨o, ho, rfl⟩ := Option.map_eq_some_iff.mp (hholds.table_eq houter)
  have hbuilt := hledger.built (List.mem_of_getElem? ho)
  generalize o.term = term at hbuilt
  cases hbuilt with
  | input hkind' | var _ hkind' | psi _ _ hkind' | concat _ hkind' | diamond _ _ _ _ hkind' => cases hkind.symm.trans hkind'
  | @fix v least depth name base row b' _ hv hbase hinit _ hb' hbody' _ _ hrow _ hwidth' =>
    obtain rfl := Option.some.inj (hb.symm.trans hb')
    -- The body of the fixpoint is the node that was called.
    obtain rfl : v = u := by
      refine hledger.eq_of_id hv hu ?_
      rw [hid]
      exact Option.some.inj (hbody'.symm.trans hbody)
    have hbase' : x.cols = row.length := by
      rw [hcols hknown, hwidth'.resolve_left hknown, Base.length_init hinit]
    rw [checkBody, hrow, Option.getD_some, if_neg]
    rw [not_or, not_not, not_not]
    exact ⟨hrows, hbase'⟩

open Evaluator in
/-- The sample formula's output is one label wide, as it is inferred. -/
theorem columns_eq_width_sample : ∃ m, Sample.compiler.Returns Sample.expr m ∧ m.spec.check (some Sample.input) = .ok Sample.input ∧
    Comes ⟨m, Sample.input, 0⟩ (Task.call ⟨m, Sample.input, 0⟩) ∧
    ((Task.call ⟨m, Sample.input, 0⟩).result ⟨m, Sample.input, 0⟩).1 = .ok Sample.labels ∧
    ∃ n, m.node? m.output = some n ∧ (n.width ≠ unknownWidth → Sample.labels.cols = n.width) := by
  obtain ⟨m, hm, hcheck, hres⟩ := Sample.evaluated
  rw [RefinementAux.evaluate_result hcheck, run_eq_result] at hres
  obtain ⟨n, hn, hwidth, -⟩ := columns_eq_width Sample.reachable hm hcheck 0 .start hres
  exact ⟨m, hm, hcheck, .start, hres, n, hn, hwidth⟩

end ModalGraph
