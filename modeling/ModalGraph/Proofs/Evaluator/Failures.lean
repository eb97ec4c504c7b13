import ModalGraph.Proofs.Compiler.Room
import ModalGraph.Proofs.Evaluator.Room
import ModalGraph.Proofs.Evaluator.Width

/-!
# What an evaluation may fail with

With builtin operators, and on a checked input whose labels are what their shapes claim, an evaluation gives a row of labels for each
node or fails in one of a few ways (`Failure.Foreseen`): differences of too few features, edge labels that are missing or of a width
that does not go with the labels, a body of another width than its base, and a fixpoint that does not settle. Every other failure of
the evaluator and of the operations on tensors is out of reach, except that there may be no room for labels. There is room if the
formula fits (`Expr.Fits`), and then the labels are as wide as the formula says; if it does not fit, there are none (`evaluate_ends`).
A regime carries the numbers of rows through all frames and turns (`sizeRegime`), and the widths as well where there is room.
-/

namespace ModalGraph

open Formula Compiler

/-- The failures that evaluating builtin operators on `nodes` nodes may end in. -/
inductive Failure.Foreseen (settings : Settings) (nodes : Int) : Failure → Prop where
  /-- A psi that takes differences has too few features. -/
  | psi {name : Bytes} {arg : Argument} {f : Failure} :
      Psi.Fault name f → Foreseen settings nodes (.within (bracketed name arg).toText f)
  /-- A phi lacks edge labels, or they are of a width that does not go with the labels. -/
  | phi {key : Bytes} {f : Failure} : Phi.Fault (parseKey key).1 f → Foreseen settings nodes (.within key.toText f)
  /-- The labels of a body are of another width than its base. -/
  | body {name base : Bytes} {b : Base} {cols : Int} : settings.base? base = some b → cols ≠ b.width →
      Foreseen settings nodes (.shape ⟨Bytes.ofString "fixpoint " ++ name, .bodyShape nodes cols base nodes b.width⟩)
  /-- A fixpoint does not settle. -/
  | unsettled (key : Bytes) (limit : Nat) : Foreseen settings nodes (.nonTermination key limit)

/-- What is foreseen is an error of shapes or a fixpoint that does not settle. -/
theorem Failure.Foreseen.kind_eq {settings : Settings} {nodes : Int} {f : Failure} (h : f.Foreseen settings nodes) :
    f.kind = .shape ∨ f.kind = .nonTermination := by
  cases h with
  | psi hf =>
    cases hf with
    | features => exact .inl rfl
  | phi hf =>
    cases hf with
    | required => exact .inl rfl
    | width => exact .inl rfl
    | negative => exact .inl rfl
  | body => exact .inl rfl
  | unsettled => exact .inr rfl

/-- A failure that is foreseen, or a lack of room where labels do not fit. -/
def Failure.Expected (settings : Settings) (nodes : Int) (fits : Prop) (f : Failure) : Prop :=
  f.Foreseen settings nodes ∨ f.kind = .aborted ∧ ¬ fits

/-- Labels with a row for each of `n` nodes, of width `w` where labels fit. -/
def Tensor.Sized (fits : Prop) (n w : Nat) (x : Tensor) : Prop :=
  x.rows = n ∧ (fits → x.Shaped n w)

/-- The labels of all parts of a part of a term can be stored, if those of the term can. -/
theorem Term.Fits.parts {nodes edges w : Nat} {ops : Registries} {settings : Settings} {u : Term}
    (h : u.Fits nodes edges ops settings w) : ∀ p ∈ u.parts, p.Fits nodes edges ops settings w := by
  cases u with
  | input => exact fun p hp => by cases hp
  | psi => exact fun p hp => List.mem_singleton.mp hp ▸ h.1
  | concat us => exact allFit_iff.mp h.2.2
  | diamond => exact fun p hp => List.mem_singleton.mp hp ▸ h.1
  | var => exact fun p hp => by cases hp
  | fix => exact fun p hp => List.mem_singleton.mp hp ▸ h.2

namespace FailuresAux

/-- A result that lacks room only where labels do not fit. -/
theorem endsIn_both {α : Type} {P Q : α → Prop} {F : Failure → Prop} {x : Except Failure α} (fits : Prop)
    (h : EndsIn P (fun f => F f ∨ f = .aborted) x) (hfits : fits → EndsIn Q (· ≠ .aborted) x) :
    EndsIn (fun a => P a ∧ (fits → Q a)) (fun f => F f ∨ f = .aborted ∧ ¬ fits) x := by
  cases x with
  | ok a => exact ⟨h, hfits⟩
  | error f =>
    rcases h with hf | rfl
    · exact .inl hf
    · exact .inr ⟨rfl, fun hfit => hfits hfit rfl⟩

theorem endsIn_ok {α : Type} {P : α → Prop} {F : Failure → Prop} {x : Except Failure α} (h : ∃ a, x = .ok a ∧ P a) : EndsIn P F x := by
  obtain ⟨a, rfl, ha⟩ := h
  exact ha

/-- A result of an operation that complains of nothing. -/
theorem endsIn_quiet {P Q : Tensor → Prop} {settings : Settings} {nodes : Int} {fits : Prop} {x : Except Failure Tensor}
    (h : EndsIn P (· = .aborted) x) (hfits : fits → ∃ y, x = .ok y ∧ Q y) :
    EndsIn (fun y => P y ∧ (fits → Q y)) (Failure.Expected settings nodes fits) x := by
  have hboth := endsIn_both (F := fun _ => False) fits (h.weaken fun _ hf => .inr hf) fun hfit => endsIn_ok (hfits hfit)
  refine hboth.weaken ?_
  rintro f (hf | ⟨rfl, hfit⟩)
  · exact hf.elim
  · exact .inr ⟨rfl, hfit⟩

/-- What words on the place make of the failures of an operator. -/
theorem expected_within {settings : Settings} {nodes : Int} {fits : Prop} {place : String} {F : Failure → Prop}
    (hF : ∀ f, F f → (Failure.within place f).Foreseen settings nodes) :
    ∀ f, F f ∨ f = .aborted ∧ ¬ fits → (Failure.within place f).Expected settings nodes fits := by
  rintro f (hf | ⟨rfl, hfit⟩)
  · exact .inl (hF f hf)
  · exact .inr ⟨rfl, hfit⟩

/-- Labels that are there, in both accounts of their size. -/
theorem hasSize {fits : Prop} {n w : Nat} {out : Labels} (h : out.HasHeight n ∧ (fits → out.HasShape n w)) :
    ∃ y, out = some y ∧ y.Sized fits n w := by
  obtain ⟨⟨y, rfl, hrows⟩, hshape⟩ := h
  refine ⟨y, rfl, hrows, fun hfit => ?_⟩
  obtain ⟨y', hy', hshaped⟩ := hshape hfit
  rwa [Option.some.inj hy']

end FailuresAux

open FailuresAux

namespace Evaluator

/-- A task of a model that was compiled under some settings, on an input that it accepts, with `n` nodes and `k` edges and all the
labels that it claims to have. -/
structure Suits (settings : Settings) (t : Task) (n k : Nat) : Prop where
  spec : t.model.spec = settings.input
  sound : Scene.Sound ⟨Builtin.registries, settings, t.input, t.maxIterations⟩ n k
  labels : t.input.x.WellFormed

section

variable {settings : Settings} {t : Task} {n k w : Nat} {fits : Prop} {x : Tensor}

theorem Suits.nodes (h : Suits settings t n k) : t.nodes = n :=
  h.sound.nodes_eq

/-- The edge labels that a model asks for are all there. -/
theorem Suits.edgeLabels_shaped (h : Suits settings t n k) (hadj : settings.input.adjacency = true) :
    ∀ e ∈ t.edgeLabels, e.Shaped k settings.edgeWidth := by
  intro e he
  rw [Task.edgeLabels, h.spec] at he
  exact h.sound.edgeLabels hadj e he

/-- The ends of edges are nodes, and there is one of either kind for each edge. -/
theorem Suits.ends_among (h : Suits settings t n k) (hadj : settings.input.adjacency = true) (direction : Direction) :
    ((∀ i ∈ (ends t direction).1, 0 ≤ i ∧ i < (n : Int)) ∧ (ends t direction).1.length = k) ∧
      (∀ i ∈ (ends t direction).2, 0 ≤ i ∧ i < (n : Int)) ∧ (ends t direction).2.length = k := by
  have hjoined := h.sound.joined hadj
  have hends : ends t direction = Scene.ends ⟨Builtin.registries, settings, t.input, t.maxIterations⟩ direction := by
    cases direction with
    | forward => rfl
    | backward => rfl
  rw [hends, ← h.sound.edges_eq]
  exact ⟨Scene.origins hjoined direction, Scene.goals hjoined direction⟩

/-- Labels with a row for each node pass the check of rows. -/
theorem checkRows_sized (h : Suits settings t n k) {node : Node} {F : Failure → Prop} {out : Labels}
    (hout : ∃ y, out = some y ∧ y.Sized fits n w) : EndsIn (Tensor.Sized fits n w) F (checkRows t node out) := by
  obtain ⟨y, rfl, hy⟩ := hout
  rw [checkRows, if_neg (by rw [hy.1, h.nodes]; exact not_not.mpr rfl)]
  exact hy

/-- Messages, one for each edge, pass the check of messages. -/
theorem checkMessages_sized {node : Node} {F : Failure → Prop} {out : Labels} (hout : ∃ y, out = some y ∧ y.Sized fits k w) :
    EndsIn (Tensor.Sized fits k w) F (checkMessages node k out) := by
  obtain ⟨y, rfl, hy⟩ := hout
  rw [checkMessages, if_neg (not_not.mpr hy.1)]
  exact hy

/-! ## Operators -/

/-- A psi on labels with a row for each node. -/
theorem applyPsi_ends (h : Suits settings t n k) {name : Bytes} {arg : Argument} {op : Psi} {node : Node}
    (hop : Builtin.psi.get name arg = .ok op) (hname : node.opName = bracketed name arg) (hx : x.Sized fits n w)
    (hstore : fits → Tensor.Storable (psiRows settings.input.batched name n) (op.width w).toNat) :
    EndsIn (Tensor.Sized fits n (op.width w).toNat) (Failure.Expected settings n fits) (applyPsi t node op x) := by
  have hheight := Builtin.psi_keepsHeight hop
  have hroom := Builtin.psi_findsRoom hop
  have hout : EndsIn (fun out : Labels => out.HasHeight n ∧ (fits → out.HasShape n (op.width w).toNat))
      (fun f => Psi.Fault name f ∨ f = .aborted ∧ ¬ fits)
      (if t.input.isBatched then op.multiple (some x) t.input.index else op.single (some x)) := by
    rw [show settings.input.batched = t.input.isBatched from h.sound.mode] at hstore
    rw [Input.isBatched] at hstore ⊢
    cases hindex : t.input.index with
    | none =>
      rw [hindex] at hstore
      have hsingle := hheight.single x (hx.1 ▸ Int.natCast_nonneg n)
      rw [hx.1] at hsingle
      exact endsIn_both fits hsingle fun hfit => hroom.single (hx.2 hfit) (hstore hfit)
    | some index =>
      rw [hindex] at hstore
      obtain ⟨hlen, counts, hcounts⟩ := h.sound.index index hindex
      have hmultiple := hheight.multiple x index counts ((congrArg Int.ofNat hlen).trans hx.1.symm) hcounts
      rw [hx.1] at hmultiple
      exact endsIn_both fits hmultiple fun hfit => hroom.multiple (hx.2 hfit) (hstore hfit) hlen hcounts
  have hforeseen : ∀ f, Psi.Fault name f → (Failure.within node.opName.toText f).Foreseen settings n := by
    intro f hf
    rw [hname]
    exact .psi hf
  exact (hout.inPlace (expected_within hforeseen)).bind fun out hsize => checkRows_sized h (hasSize hsize)

/-- The labels at one end of every edge. -/
theorem gather_ends {idx : List Int} (hidx : ∀ i ∈ idx, 0 ≤ i ∧ i < (n : Int)) (hlen : idx.length = k) (hx : x.Sized fits n w)
    (hstore : fits → Tensor.Storable n w) (hends : fits → Tensor.Storable k w) :
    EndsIn (Tensor.Sized fits k w) (Failure.Expected settings n fits) (x.gather idx) := by
  subst hlen
  refine endsIn_quiet (Tensor.gather_rows fun i hi => hx.1.symm ▸ hidx i hi) fun hfit => ?_
  exact Tensor.gather_fits (hx.2 hfit) hidx (hstore hfit) (hends hfit)

/-- The messages of a diamond on labels with a row for each node: one for each edge. -/
theorem messages_ends (h : Suits settings t n k) (hadj : settings.input.adjacency = true) {phiKey : Option Bytes} {phi : Option Phi}
    {node : Node} (hphi : (fresh Builtin.registries settings).phi? phiKey = .ok phi) (hname : node.phiName = phiKey.getD [])
    (hx : x.Sized fits n w) (hstore : fits → Tensor.Storable n w) (hends : fits → Tensor.Storable k w) :
    EndsIn (Tensor.Sized fits k (phiWidth settings.edgeWidth w phiKey)) (Failure.Expected settings n fits)
      (messages t node phi x) := by
  obtain ⟨⟨horigin, horigins⟩, htarget, htargets⟩ := h.ends_among hadj node.direction.sense
  refine (gather_ends horigin horigins hx hstore hends).bind fun s hs => ?_
  cases phi?_ok hphi with
  | none => exact hs
  | @some key op hop =>
    refine (gather_ends htarget htargets hx hstore hends).bind fun g hg => ?_
    have hedge := h.edgeLabels_shaped hadj
    have hsent := endsIn_both fits (Builtin.phi_keepsHeight hop s g t.edgeLabels hs.1 hg.1 fun e he => (hedge e he).rows_eq)
      fun hfit => Builtin.phi_findsRoom hop (hs.2 hfit) (hg.2 hfit) hedge (hends hfit)
    have hforeseen : ∀ f, Phi.Fault (parseKey key).1 f → (Failure.within node.phiName.toText f).Foreseen settings n := by
      intro f hf
      rw [hname]
      exact .phi hf
    refine (hsent.inPlace (expected_within hforeseen)).bind fun out hsize => ?_
    show EndsIn _ _ (checkMessages node (ends t node.direction.sense).2.length out)
    rw [htargets]
    exact checkMessages_sized (hasSize hsize)

/-- A diamond on labels with a row for each node. -/
theorem applyDiamond_ends (h : Suits settings t n k) (hadj : settings.input.adjacency = true) {phiKey : Option Bytes}
    {sigmaKey : Bytes} {phi : Option Phi} {sigma : Sigma} {node : Node} (hsigma : Builtin.sigma.resolve sigmaKey = .ok sigma)
    (hphi : (fresh Builtin.registries settings).phi? phiKey = .ok phi) (hname : node.phiName = phiKey.getD [])
    (hx : x.Sized fits n w) (hroom : fits → Tensor.Sendable n k w (phiWidth settings.edgeWidth w phiKey)) :
    EndsIn (Tensor.Sized fits n (phiWidth settings.edgeWidth w phiKey)) (Failure.Expected settings n fits)
      (applyDiamond t node phi sigma x) := by
  obtain ⟨-, htarget, htargets⟩ := h.ends_among hadj node.direction.sense
  refine (messages_ends h hadj hphi hname hx (fun hf => (hroom hf).operand) fun hf => (hroom hf).ends).bind fun m hm => ?_
  have hheight := Builtin.sigma_keepsHeight hsigma m x ((congrArg Int.ofNat htargets).trans hm.1.symm) (Int.natCast_nonneg n) htarget
  have hout := endsIn_both (F := fun _ => False) fits (hheight.weaken fun f hf => .inr hf) fun hfit =>
    Builtin.sigma_findsRoom hsigma x (hm.2 hfit) htargets htarget (hroom hfit).result (hroom hfit).places
  rw [h.nodes]
  exact (hout.inPlace (expected_within fun _ hf => hf.elim)).bind fun out hsize => checkRows_sized h (hasSize hsize)

/-! ## All steps -/

/-- Labels have a row for each node, and where there is room for the labels of all parts of a term, they are as wide as the terms and
the bases say. -/
def sizeRegime (settings : Settings) (t : Task) (n k : Nat) (fits : Prop) : Regime where
  Relevant u := u.Clean ∧ (fits → u.Fits n k Builtin.registries settings t.input.x.cols.toNat)
  Labels u := Tensor.Sized fits n (u.breadth Builtin.registries settings t.input.x.cols.toNat)
  Assigned key x := ∀ depth name, key = variableKey depth name → x.Sized fits n (settings.baseWidth name)
  Fails := Failure.Expected settings n fits

theorem clean_of_mem {us : List Term} (h : Term.AllClean us) : ∀ u ∈ us, u.Clean := by
  induction us with
  | nil => exact fun u hu => by cases hu
  | cons u us ih => exact List.forall_mem_cons.mpr ⟨h.1, ih h.2⟩

/-- The parts of a term that the regime speaks of. -/
theorem sizeRegime_parts {u : Term} (hu : (sizeRegime settings t n k fits).Relevant u) :
    ∀ p ∈ u.parts, (sizeRegime settings t n k fits).Relevant p := by
  obtain ⟨hclean, hfit⟩ := hu
  refine fun p hp => ⟨?_, fun hf => (hfit hf).parts p hp⟩
  cases u with
  | input => cases hp
  | psi name arg u => exact List.mem_singleton.mp hp ▸ hclean.2
  | concat us => exact clean_of_mem hclean.2 p hp
  | diamond direction phi sigma u => exact List.mem_singleton.mp hp ▸ hclean.2.2
  | var depth base => cases hp
  | fix least depth base u => exact List.mem_singleton.mp hp ▸ hclean.2

/-- Labels of several terms side by side. -/
theorem concat_ends {us : List Term} {xs : List Tensor} (hu : (sizeRegime settings t n k fits).Relevant (.concat us))
    (hxs : List.Forall₂ (sizeRegime settings t n k fits).Labels us xs) :
    EndsIn ((sizeRegime settings t n k fits).Labels (.concat us)) (Failure.Expected settings n fits) (Tensor.concat xs) := by
  have hne : xs ≠ [] := by
    rintro rfl
    have hlen := hxs.length_eq
    have htwo := hu.1.1
    rw [hlen] at htwo
    cases htwo
  have hall : (∀ x ∈ xs, x.rows = n) ∧ (fits → (∀ x ∈ xs, ∃ w, x.Shaped n w) ∧
      Tensor.totalWidth xs = Term.totalBreadth Builtin.registries settings t.input.x.cols.toNat us) := by
    clear hne hu
    induction hxs with
    | nil => exact ⟨(fun x hx => by cases hx), fun _ => ⟨(fun x hx => by cases hx), rfl⟩⟩
    | cons hx _ ih =>
      refine ⟨List.forall_mem_cons.mpr ⟨hx.1, ih.1⟩, fun hf => ?_⟩
      obtain ⟨hshaped, hwidth⟩ := ih.2 hf
      refine ⟨List.forall_mem_cons.mpr ⟨⟨_, hx.2 hf⟩, hshaped⟩, ?_⟩
      rw [Tensor.totalWidth, List.map_cons, List.sum_cons, Term.totalBreadth, ← hwidth, (hx.2 hf).cols_eq, Int.toNat_natCast]
      rfl
  refine endsIn_quiet (Tensor.concat_rows hne (Int.natCast_nonneg n) hall.1) fun hf => ?_
  obtain ⟨hshaped, hwidth⟩ := hall.2 hf
  obtain ⟨hstore, hmachine, -⟩ := hu.2 hf
  rw [← hwidth] at hstore hmachine
  have hconcat := Tensor.concat_shaped hne hshaped hstore hmachine
  rwa [hwidth] at hconcat

/-- The width of a base for which a row to start from was found is the length of the row. -/
theorem baseWidth_eq {name : Bytes} {base : Base} {least : Bool} {row : List Label} (hbase : settings.base? name = some base)
    (hinit : base.init least = .ok row) : settings.baseWidth name = row.length := by
  rw [Settings.baseWidth, hbase, Option.map_some, Option.getD_some, ← Base.length_init hinit, Int.toNat_natCast]

/-- The labels of a body, with a row for each node, are of the width of its base where they pass the check of the body. -/
theorem checkBody_ends (h : Suits settings t n k) {name : Bytes} {base : Base} {least : Bool} {row : List Label}
    (hbase : settings.base? name = some base) (hinit : base.init least = .ok row) {b : Binder} (hname : b.base = name)
    (hx : x.Sized fits n w) :
    EndsIn (fun _ => x.Sized fits n (settings.baseWidth name)) (Failure.Expected settings n fits) (checkBody t b row.length x) := by
  have hlen := Base.length_init hinit
  rw [checkBody]
  split
  · -- There is a row for each node, so that only the columns can be at fault.
    rename_i hshape
    have hcols : x.cols ≠ base.width := by
      rw [← hlen]
      exact hshape.resolve_left (not_not.mpr (hx.1.trans h.nodes.symm))
    rw [hx.1, h.nodes, hname, hlen]
    exact .inl (.body hbase hcols)
  · rename_i hshape
    rw [not_or, not_not, not_not] at hshape
    refine ⟨hx.1, fun hf => ?_⟩
    have hshaped := hx.2 hf
    rwa [show w = row.length from Int.ofNat.inj (hshaped.cols_eq.symm.trans hshape.2), ← baseWidth_eq hbase hinit] at hshaped

/-- With builtin operators, each step of an evaluation keeps the sizes. -/
theorem sizeRegime_upheld (h : Suits settings t n k) :
    (sizeRegime settings t n k fits).Upheld Builtin.registries settings t where
  parts := sizeRegime_parts
  input := by
    have hrows : t.input.x.rows = n := h.nodes
    have hshaped := Tensor.Shaped.of_wellFormed h.labels
    rw [hrows, Int.toNat_natCast] at hshaped
    exact ⟨hrows, fun _ => hshaped⟩
  psi := by
    intro name arg op u node x hu hop hname hx
    have hwidth : (Term.psi name arg u).breadth Builtin.registries settings t.input.x.cols.toNat =
        (op.width (u.breadth Builtin.registries settings t.input.x.cols.toNat)).toNat := by
      rw [Term.breadth, hop]
    have hstore := fun hf => (hu.2 hf).2
    show EndsIn (Tensor.Sized fits n ((Term.psi name arg u).breadth _ _ _)) _ _
    rw [hwidth] at hstore ⊢
    exact applyPsi_ends h hop hname hx hstore
  interrupts := by
    intro name arg op hop hinterrupts
    rw [Builtin.registries_calm _ _ _ hop] at hinterrupts
    cases hinterrupts
  concat := concat_ends
  diamond := by
    intro direction phiKey sigmaKey phi sigma u node x hu hadj hsigma hphi _ _ hname hx
    exact applyDiamond_ends h hadj hsigma hphi hname hx fun hf => (hu.2 hf).2
  var := fun _ hx => hx _ _ rfl
  start := by
    intro least depth name u base row hu hbase hinit
    rw [h.nodes]
    refine .orAborted (fun x hx depth' name' hkey => ?_) fun hnone => .inr ⟨rfl, fun hf => ?_⟩
    · obtain ⟨-, rfl⟩ := WidthAux.variableKey_inj hkey
      obtain ⟨rfl, -⟩ := Tensor.full?_some hx
      have hshaped : (Tensor.full n row base.dtype).Shaped n row.length := by
        rw [Tensor.full_eq]
        exact Tensor.ofRows_range_shaped fun _ _ => List.length_map _
      rw [baseWidth_eq hbase hinit]
      exact ⟨hshaped.rows_eq, fun _ => hshaped⟩
    · have hstore := (hu.2 hf).1
      rw [baseWidth_eq hbase hinit] at hstore
      rw [Tensor.full?_eq hstore] at hnone
      cases hnone
  turn := by
    intro least depth name u base row b x _ hbase hinit hname hx
    refine (checkBody_ends h hbase hinit hname hx).imp fun _ hsized depth' name' hkey => ?_
    obtain ⟨-, rfl⟩ := WidthAux.variableKey_inj hkey
    exact hsized
  fix := fun _ _ hx => hx _ _ rfl
  unsettled := fun key limit => .inl (.unsettled key limit)

end

end Evaluator

/-- The labels that come up when a formula is evaluated on an input can be stored. -/
def Formula.Expr.FitsOn (settings : Settings) (input : Input) (e : Expr) : Prop :=
  e.Fits input.nodes.toNat input.sources.length Builtin.registries settings [] input.x.cols.toNat True

section

variable {settings : Settings} {c : Compiler} {e : Expr} {m : Model} {input : Input}

/-- What a model was compiled for, on an input that goes with it. -/
theorem sound_of_check (hspec : m.spec = settings.input) (hinput : m.spec.check (some input) = .ok input) (hlabels : input.x.WellFormed)
    (hedges : ∀ e ∈ input.e, e.WellFormed) (maxIterations : Int) :
    Scene.Sound ⟨Builtin.registries, settings, input, maxIterations⟩ input.nodes.toNat input.sources.length :=
  .of_admits rfl (hspec ▸ (check_eq_ok.mp hinput).2) (Int.toNat_of_nonneg hlabels.1).symm hedges

open Evaluator in
/-- On an input that goes with the model, a caller who waits gets labels with a row for each node, or a failure that is foreseen, or
there is no room for labels that come up in the formula. -/
theorem evaluate_expected (hc : Reachable Builtin.registries settings c) (hm : c.Returns e m)
    (hinput : m.spec.check (some input) = .ok input) (hlabels : input.x.WellFormed) (hedges : ∀ e ∈ input.e, e.WellFormed)
    (maxIterations : Int) :
    EndsIn (fun x => x.rows = input.nodes ∧ (e.FitsOn settings input →
        x.Shaped input.nodes.toNat (e.width Builtin.registries settings [] input.x.cols.toNat)))
      (fun f => f.Foreseen settings input.nodes ∨ f.kind = .aborted ∧ ¬ e.FitsOn settings input)
      (Evaluator.evaluate maxIterations true m (some input)).result := by
  obtain ⟨es, hledger, hholds, hspec, out, hout, houtput, hterm, -⟩ := RefinementAux.returns_holds hc hm
  have hnodes : input.nodes = (input.nodes.toNat : Int) := (Int.toNat_of_nonneg hlabels.1).symm
  have hsuits : Suits settings ⟨m, input, maxIterations⟩ input.nodes.toNat input.sources.length :=
    ⟨hspec, sound_of_check hspec hinput hlabels hedges maxIterations, hlabels⟩
  have hbelow : Term.Below .input [] := fun k hk => hk.elim
  have hclosed : ∀ k, ¬ out.term.Mentions k := fun k hk => by
    cases (value_term ⟨Builtin.registries, settings, input, maxIterations⟩ e hbelow hterm).1 k hk
  have hfits : e.FitsOn settings input →
      out.term.Fits input.nodes.toNat input.sources.length Builtin.registries settings input.x.cols.toNat ∧
        out.term.breadth Builtin.registries settings input.x.cols.toNat = e.width Builtin.registries settings [] input.x.cols.toNat := by
    intro hf
    have hwhole : True → Term.Fits input.nodes.toNat input.sources.length Builtin.registries settings input.x.cols.toNat .input :=
      fun _ => trivial
    obtain ⟨hfit, hwidth⟩ := e.term_fits input.nodes.toNat input.sources.length Builtin.registries settings input.x.cols.toNat
      hwhole hterm
    exact ⟨hfit hf, hwidth⟩
  obtain ⟨u, hu, hid, -, hends⟩ := Comes.start.result hledger hholds (sizeRegime_upheld hsuits) hout houtput
    ⟨(hledger.key out hout).2, fun hf => (hfits hf).1⟩ hclosed
  -- The call at the start is that of the output.
  obtain rfl : u = out := hledger.eq_of_id hu hout (hid.trans houtput)
  rw [RefinementAux.evaluate_result hinput, run_eq_result, hnodes]
  refine hends.imp fun x hx => ⟨hx.1, fun hf => ?_⟩
  have hshaped := hx.2 hf
  rwa [(hfits hf).2] at hshaped

/-- With builtin operators, whatever a compiler has compiled before: on an input that goes with the model, a caller who waits gets
labels with a row for each node, or a failure that is foreseen. There may be no room for labels only if those that come up in the
formula cannot be stored; where they can, the labels are as wide as the formula says. On a graph with a node whose own labels can be
stored, there are none where they cannot. -/
theorem evaluate_ends (hc : Reachable Builtin.registries settings c) (hm : c.Returns e m)
    (hinput : m.spec.check (some input) = .ok input) (hlabels : input.x.WellFormed) (hedges : ∀ e ∈ input.e, e.WellFormed)
    (maxIterations : Int) :
    EndsIn (fun x => x.rows = input.nodes ∧ (e.FitsOn settings input →
        x.Shaped input.nodes.toNat (e.width Builtin.registries settings [] input.x.cols.toNat)))
      (fun f => f.Foreseen settings input.nodes ∨ f.kind = .aborted ∧ ¬ e.FitsOn settings input)
      (Evaluator.evaluate maxIterations true m (some input)).result ∧
    (0 < input.nodes → Tensor.Storable input.nodes.toNat input.x.cols.toNat → ∀ x,
      (Evaluator.evaluate maxIterations true m (some input)).result = .ok x → e.FitsOn settings input) := by
  refine ⟨evaluate_expected hc hm hinput hlabels hedges maxIterations, fun hpos hstore x hx => ?_⟩
  obtain ⟨_, hplays, _⟩ := RefinementAux.returns_plays hc Builtin.registries_calm hm input maxIterations
  have hsound := sound_of_check hplays.spec_eq hinput hlabels hedges maxIterations
  have hshaped : input.x.Shaped input.nodes.toNat input.x.cols.toNat := Tensor.Shaped.of_wellFormed hlabels
  exact (evaluate_fits hsound (by omega) ⟨hshaped, hstore⟩ hc hm hinput hx).1

end

open Evaluator in
/-- On the sample input there is room for the labels of the sample formula, so that what is foreseen is all that may go wrong. -/
theorem evaluate_ends_sample : Sample.expr.FitsOn Sample.settings Sample.input ∧
    ∃ m, Sample.compiler.Returns Sample.expr m ∧ m.spec.check (some Sample.input) = .ok Sample.input ∧
      EndsIn (fun x => x.Shaped 2 1) (Failure.Foreseen Sample.settings 2) (Evaluator.evaluate 0 true m (some Sample.input)).result := by
  have hfits : Sample.expr.FitsOn Sample.settings Sample.input := Sample.expr_fits (by decide) (by decide)
  have hwidth : Sample.expr.width Builtin.registries Sample.settings [] 1 = 1 := Sample.base_width
  have hlabels : Sample.input.x.WellFormed := ⟨by decide, by decide, rfl⟩
  obtain ⟨m, hm, hcheck, -⟩ := Sample.evaluated
  refine ⟨hfits, m, hm, hcheck, ?_⟩
  have hends := (evaluate_ends Sample.reachable hm hcheck hlabels (fun e he => by cases he) 0).1
  refine (hends.imp fun x hx => ?_).weaken fun f hf => hf.resolve_right fun hroom => hroom.2 hfits
  have hshaped := hx.2 hfits
  rwa [show Sample.input.x.cols.toNat = 1 from rfl, hwidth] at hshaped

/-- With 351844 nodes and a base of 100000000 truth values an evaluation breaks off, which is not foreseen. -/
theorem evaluate_ends_no_room : Reachable Builtin.registries Sample.wideSettings Sample.wideCompiler ∧
    Sample.wideCompiler.Returns Sample.loopExpr Sample.wideModel ∧
    Sample.wideModel.spec.check (some Sample.manyNodes) = .ok Sample.manyNodes ∧ Sample.manyNodes.x.WellFormed ∧
    ∃ f, (Evaluator.evaluate 0 true Sample.wideModel (some Sample.manyNodes)).result = .error f ∧
      ¬ f.Foreseen Sample.wideSettings Sample.manyNodes.nodes := by
  obtain ⟨hreturns, hcheck, f, hf, hkind⟩ := Sample.wide_breaks
  refine ⟨Sample.wide_reachable, hreturns, hcheck, ⟨by decide, by decide, by rw [Sample.manyNodes, Array.size_replicate]; rfl⟩, f, hf,
    fun hforeseen => ?_⟩
  rcases hforeseen.kind_eq with hshape | hunsettled
  · cases hkind.symm.trans hshape
  · cases hkind.symm.trans hunsettled

end ModalGraph
