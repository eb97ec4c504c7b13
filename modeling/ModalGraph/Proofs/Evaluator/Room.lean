import ModalGraph.Proofs.Compiler.Ledger
import ModalGraph.Proofs.Evaluator.Fixpoint
import ModalGraph.Proofs.Operator.Room

/-!
# Labels that are given can be stored

On a graph with a node, a formula gives labels only if these can be stored, and all labels that come up on the way to them
(`meaning_fits`, `evaluate_fits`). So `Expr.Fits` asks for no more room than an evaluation takes.
-/

namespace ModalGraph

open Formula

/-- Labels of `n` rows of width `w` that can be stored. -/
structure Tensor.Lodged (n w : Nat) (x : Tensor) : Prop where
  shaped : x.Shaped n w
  room : Tensor.Storable n w

/-- A scene with builtin operators on an input that goes with its settings, with `n` nodes and `k` edges. -/
structure Scene.Sound (s : Scene) (n k : Nat) : Prop where
  ops_eq : s.ops = Builtin.registries
  nodes_eq : s.nodes = n
  edges_eq : s.edges = k
  mode : s.settings.input.batched = s.input.isBatched
  index : ∀ index, s.input.index = some index → index.length = n ∧ ∃ counts, Tensor.segmentCounts index = .ok counts
  joined : s.settings.input.adjacency = true → s.input.Joined n
  edgeLabels : s.settings.input.adjacency = true → ∀ e ∈ s.edgeLabels, e.Shaped k s.settings.edgeWidth

section

variable {s : Scene} {n k w : Nat} {x y : Tensor}

/-- An input that goes with the settings, with all the edge labels that it claims to have. -/
theorem Scene.Sound.of_admits (hops : s.ops = Builtin.registries) (hadmits : s.settings.input.Admits s.input) (hnodes : s.nodes = n)
    (hlabels : ∀ e ∈ s.input.e, e.WellFormed) : s.Sound n s.edges := by
  have hnodes' : s.input.nodes = n := hnodes
  refine ⟨hops, hnodes, rfl, hadmits.mode, fun index hindex => ?_, fun hadj => hnodes' ▸ hadmits.joined hadj, fun hadj e he => ?_⟩
  · obtain ⟨hlen, hcounts⟩ := hadmits.index index hindex
    rw [hnodes'] at hlen
    exact ⟨Int.ofNat.inj hlen, hcounts⟩
  · rw [Scene.edgeLabels] at he
    cases hedge : s.settings.input.edge with
    | none =>
      rw [hedge] at he
      cases he
    | some edge =>
      obtain ⟨e', he', hrows, hcols⟩ := hadmits.labelled hadj edge hedge
      rw [hedge, Option.isSome_some, if_pos rfl, he'] at he
      obtain rfl := Option.some.inj he
      have hshaped := Tensor.Shaped.of_wellFormed (hlabels e' he')
      rwa [hrows, hcols, Int.toNat_natCast, show edge.width.toNat = s.settings.edgeWidth by rw [Settings.edgeWidth, hedge]; rfl]
        at hshaped

namespace Scene.Sound

/-! ## Operators -/

/-- An operator gives labels that can be stored, as wide as it says. -/
theorem atom_lodged (hs : s.Sound n k) (hn : 0 < n) {name : Bytes} {arg : Argument} {op : Psi}
    (hop : Builtin.psi.get name arg = .ok op) (hx : x.Lodged n w) (hy : s.atom name arg x = .ok y) :
    y.Lodged n (op.width w).toNat := by
  obtain ⟨psi, hpsi, hy⟩ := bind_ok hy
  rw [hs.ops_eq] at hpsi
  obtain rfl : op = psi := Except.ok.inj (hop.symm.trans hpsi)
  obtain ⟨out, hout, hy⟩ := bind_ok hy
  obtain rfl := rowPerNode_eq hy
  have hstore : Tensor.Storable n (op.width w).toNat := by
    refine Builtin.psi_takesRoom hop n w x y hx.shaped hx.room ?_
    split at hout
    · exact .inr ⟨_, hout⟩
    · exact .inl hout
  have hroom := Builtin.psi_findsRoom hop
  have hshape : EndsIn (Labels.HasShape n (op.width w).toNat) (· ≠ .aborted)
      (if s.input.isBatched then op.multiple (some x) s.input.index else op.single (some x)) := by
    rw [Input.isBatched]
    cases hindex : s.input.index with
    | none => exact hroom.single hx.shaped ((psiRows_eq false name hn).symm ▸ hstore)
    | some index =>
      obtain ⟨hlen, counts, hcounts⟩ := hs.index index hindex
      exact hroom.multiple hx.shaped ((psiRows_eq true name hn).symm ▸ hstore) hlen hcounts
  rw [hout] at hshape
  obtain ⟨y', hy', hshaped⟩ := hshape
  obtain rfl := Option.some.inj hy'
  exact ⟨hshaped, hstore⟩

/-- The labels at one end of every edge. -/
theorem gather_lodged {idx : List Int} (hidx : (∀ i ∈ idx, 0 ≤ i ∧ i < (n : Int)) ∧ idx.length = k) (hx : x.Lodged n w)
    (hy : x.gather idx = .ok y) : y.Lodged k w := by
  obtain ⟨hidx, rfl⟩ := hidx
  have hstore := Tensor.gather_takesRoom hx.shaped hx.room hidx hy
  obtain ⟨y', hy', hshaped⟩ := Tensor.gather_fits hx.shaped hidx hx.room hstore
  obtain rfl := Except.ok.inj (hy.symm.trans hy')
  exact ⟨hshaped, hstore⟩

/-- If there are messages, the labels at the ends of the edges can be stored. -/
theorem messages_shaped (hs : s.Sound n k) (hadj : s.settings.input.adjacency = true) (direction : Direction) {phi : Option Bytes}
    (hphi : ∀ key ∈ phi, ∃ op, s.ops.phi.resolve key = .ok op) (hx : x.Lodged n w) (hy : s.messages direction phi x = .ok y) :
    Tensor.Storable k w ∧ y.Shaped k (phiWidth s.settings.edgeWidth w phi) := by
  have horigins := hs.edges_eq ▸ Scene.origins (hs.joined hadj) direction
  have hgoals := hs.edges_eq ▸ Scene.goals (hs.joined hadj) direction
  obtain ⟨labels, hlabels, hy⟩ := bind_ok hy
  have hstart := gather_lodged horigins hx hlabels
  refine ⟨hstart.room, ?_⟩
  cases phi with
  | none =>
    obtain rfl := Except.ok.inj hy
    exact hstart.shaped
  | some key =>
    obtain ⟨op, hop⟩ := hphi key rfl
    rw [hs.ops_eq] at hop hy
    obtain ⟨op', hop', hy⟩ := bind_ok hy
    obtain rfl : op = op' := Except.ok.inj (hop.symm.trans hop')
    obtain ⟨targets, htargets, hy⟩ := bind_ok hy
    obtain ⟨out, hout, hy⟩ := bind_ok hy
    have hgoal := gather_lodged hgoals hx htargets
    have hsent := Builtin.phi_findsRoom hop hstart.shaped hgoal.shaped (hs.edgeLabels hadj) hstart.room
    rw [hout] at hsent
    obtain ⟨m, rfl, hm⟩ := hsent
    rw [messagePerEdge] at hy
    split at hy
    · obtain rfl := Except.ok.inj hy
      exact hm
    · cases hy

/-- A diamond gives labels only if there is room for what it makes. -/
theorem diamond_lodged (hs : s.Sound n k) (hadj : s.settings.input.adjacency = true) (direction : Direction) {phi : Option Bytes}
    {sigma : Bytes} (hphi : ∀ key ∈ phi, ∃ op, s.ops.phi.resolve key = .ok op) (hx : x.Lodged n w)
    (hy : s.diamond direction phi sigma x = .ok y) : Tensor.Sendable n k w (phiWidth s.settings.edgeWidth w phi) ∧
      y.Lodged n (phiWidth s.settings.edgeWidth w phi) := by
  obtain ⟨hgoals, hlen⟩ := hs.edges_eq ▸ Scene.goals (hs.joined hadj) direction
  obtain ⟨op, hop, hy⟩ := bind_ok hy
  rw [hs.ops_eq] at hop
  obtain ⟨m, hm, hy⟩ := bind_ok hy
  obtain ⟨out, hout, hy⟩ := bind_ok hy
  obtain rfl := rowPerNode_eq hy
  obtain ⟨hends, hshaped⟩ := hs.messages_shaped hadj direction hphi hx hm
  rw [hs.nodes_eq] at hout
  obtain ⟨hstore, hplaces⟩ := Builtin.sigma_takesRoom hop hshaped hlen hgoals hout
  have hshape := Builtin.sigma_findsRoom hop x hshaped hlen hgoals hstore hplaces
  rw [hout] at hshape
  obtain ⟨y', hy', hyshaped⟩ := hshape
  obtain rfl := Option.some.inj hy'
  exact ⟨⟨hx.room, hends, hstore, hplaces⟩, hyshaped, hstore⟩

/-- A fixpoint gives labels only if the row of its base can be stored at every node, and its body has been applied to labels of that
width. -/
theorem fixpoint_lodged (hs : s.Sound n k) {least : Bool} {name : Bytes} {body : Tensor → Except Failure Tensor} {Q : Prop}
    (hbody : ∀ A out, A.Lodged n (s.settings.baseWidth name) → body A = .ok out → Q ∧ ∃ w', out.Lodged n w')
    (hy : s.fixpoint least name body = .ok y) : Q ∧ y.Lodged n (s.settings.baseWidth name) := by
  obtain ⟨⟨width, start⟩, hopen, hsettle⟩ := bind_ok hy
  clear hy
  obtain ⟨b, row, hb, hrow, rfl, hstart⟩ := opening_ok hopen
  have hwidth : s.settings.baseWidth name = row.length := by
    rw [Settings.baseWidth, hb, Option.map_some, Option.getD_some, ← Base.length_init hrow, Int.toNat_natCast]
  rw [hwidth] at hbody ⊢
  have hfirst : start.Lodged n row.length := by
    rw [hs.nodes_eq] at hstart
    refine ⟨?_, ?_⟩
    · rw [(Tensor.full?_some hstart).1, Tensor.full_eq]
      exact Tensor.ofRows_range_shaped fun _ _ => List.length_map _
    · by_contra hfit
      rw [Tensor.full?_eq_none (Nat.not_le.mp hfit)] at hstart
      cases hstart
  have hturn : ∀ A next, A.Lodged n row.length → s.assigned row.length body A = .ok next → Q ∧ next.Lodged n row.length := by
    intro A next hA hnext
    obtain ⟨out, hout, hnext⟩ := bind_ok hnext
    split at hnext
    · rename_i hshape
      obtain rfl := Except.ok.inj hnext
      obtain ⟨hQ, w', hlodged⟩ := hbody A out hA hout
      have hw' : w' = row.length := Int.ofNat.inj (hlodged.shaped.cols_eq.symm.trans hshape.2)
      exact ⟨hQ, hw' ▸ hlodged⟩
    · cases hnext
  refine ⟨?_, ?_⟩
  · obtain ⟨next, hnext⟩ := settle_first hsettle
    exact (hturn start next hfirst hnext).1
  · have hturns := settle_turns hsettle
    clear hsettle
    induction hturns with
    | refl => exact hfirst
    | tail _ hnext ih => exact (hturn _ _ ih hnext).2

end Scene.Sound

/-! ## Formulas -/

/-- The widths of the labels that are assigned to variables. -/
def Assignment.widths (ρ : Assignment) : List (Bytes × Nat) :=
  ρ.map fun p => (p.1, p.2.cols.toNat)

theorem Tensor.Lodged.width_eq (h : x.Lodged n w) : x.cols.toNat = w := by
  rw [h.shaped.cols_eq, Int.toNat_natCast]

mutual

/-- A formula gives labels only if all labels that come up in it can be stored, and then they are as wide as it says. What is said of
the operand counts where the formula makes use of it. -/
theorem meaning_fits (hs : s.Sound n k) (hn : 0 < n) : ∀ (e : Expr) {ρ : Assignment} {operand : Except Failure Tensor} {w : Nat}
    {P : Prop} {y : Tensor}, e.Accepted s.ops s.settings → (∀ p ∈ ρ, p.2.Lodged n p.2.cols.toNat) →
      (∀ x, operand = .ok x → P ∧ x.Lodged n w) → meaning s ρ operand e = .ok y →
        e.Fits n k s.ops s.settings ρ.widths w P ∧ y.Lodged n (e.width s.ops s.settings ρ.widths w)
  | .atom _ name arg, ρ, operand, w, P, y, hacc, _, hop, hy => by
    rw [meaning] at hy
    obtain ⟨x, rfl, hy⟩ := bind_ok hy
    obtain ⟨hP, hx⟩ := hop x rfl
    obtain ⟨op, hget⟩ := hacc
    have hlodged := hs.atom_lodged hn (hs.ops_eq ▸ hget) hx hy
    rw [Expr.Fits, psiRows_eq _ _ hn, Expr.width, hget]
    exact ⟨⟨hP, hlodged.room⟩, hlodged⟩
  | .seq _ left right, ρ, operand, w, P, y, hacc, hρ, hop, hy => by
    rw [meaning] at hy
    exact meaning_fits hs hn right hacc.2 hρ (fun x hx => meaning_fits hs hn left hacc.1 hρ hop hx) hy
  | .par _ children, ρ, operand, w, P, y, hacc, hρ, hop, hy => by
    rw [meaning] at hy
    obtain ⟨ts, hts, hy⟩ := bind_ok hy
    obtain ⟨hfits, hshaped, hwidth⟩ := meanings_fit hs hn children hacc hρ hop hts
    have hstore := Tensor.concat_takesRoom hshaped hy
    have hword : Tensor.totalWidth ts < 2 ^ 63 :=
      Nat.lt_of_le_of_lt (Nat.le_trans (Nat.le_mul_of_pos_left _ hn) hstore) (by decide)
    have hne : ts ≠ [] := by
      rintro rfl
      cases hy
    obtain ⟨y', hy', hyshaped⟩ := Tensor.concat_shaped hne hshaped hstore hword
    obtain rfl := Except.ok.inj (hy.symm.trans hy')
    rw [Expr.Fits, Expr.width, ← hwidth]
    exact ⟨⟨hstore, hword, hfits⟩, hyshaped, hstore⟩
  | .diamond _ direction phi sigma, ρ, operand, w, P, y, hacc, _, hop, hy => by
    rw [meaning] at hy
    obtain ⟨x, rfl, hy⟩ := bind_ok hy
    obtain ⟨hP, hx⟩ := hop x rfl
    obtain ⟨hsend, hlodged⟩ := hs.diamond_lodged hacc.1 direction hacc.2.2 hx hy
    exact ⟨⟨hP, hsend⟩, hlodged⟩
  | .fix _ least v base body, ρ, operand, w, P, y, hacc, hρ, hop, hy => by
    rw [meaning] at hy
    have hbody : ∀ A out, A.Lodged n (s.settings.baseWidth base) → meaning s ((v, A) :: ρ) operand body = .ok out →
        body.Fits n k s.ops s.settings ((v, s.settings.baseWidth base) :: ρ.widths) w P ∧ ∃ w', out.Lodged n w' := by
      intro A out hA hout
      have hheld : ∀ p ∈ (v, A) :: ρ, p.2.Lodged n p.2.cols.toNat := List.forall_mem_cons.mpr ⟨hA.width_eq.symm ▸ hA, hρ⟩
      obtain ⟨hfit, hlodged⟩ := meaning_fits hs hn body hacc.2 hheld hop hout
      rw [show Assignment.widths ((v, A) :: ρ) = (v, A.cols.toNat) :: ρ.widths from rfl, hA.width_eq] at hfit
      exact ⟨hfit, _, hlodged⟩
    obtain ⟨hfit, hlodged⟩ := hs.fixpoint_lodged hbody hy
    exact ⟨⟨hlodged.room, hfit⟩, hlodged⟩
  | .var pos name, ρ, operand, w, P, y, _, hρ, _, hy => by
    rw [meaning] at hy
    split at hy
    · rename_i labels hlabels
      obtain rfl := Except.ok.inj hy
      obtain ⟨ρ₁, ρ₂, rfl, -⟩ := List.lookup_eq_some_iff.mp hlabels
      refine ⟨trivial, ?_⟩
      rw [Expr.width, Assignment.widths, lookup_map fun x : Tensor => x.cols.toNat, hlabels]
      exact hρ _ (List.mem_append_right _ List.mem_cons_self)
    · cases hy
  | .hole, _, _, _, _, _, hacc, _, _, _ => hacc.elim

/-- Several formulas give labels only if all labels that come up in them can be stored. -/
theorem meanings_fit (hs : s.Sound n k) (hn : 0 < n) : ∀ (es : List Expr) {ρ : Assignment} {operand : Except Failure Tensor} {w : Nat}
    {P : Prop} {ts : List Tensor}, Expr.AllAccepted s.ops s.settings es → (∀ p ∈ ρ, p.2.Lodged n p.2.cols.toNat) →
      (∀ x, operand = .ok x → P ∧ x.Lodged n w) → meanings s ρ operand es = .ok ts →
        Expr.AllFit n k s.ops s.settings ρ.widths w P es ∧ (∀ t ∈ ts, ∃ w, t.Shaped n w) ∧
          Tensor.totalWidth ts = Expr.totalWidth s.ops s.settings ρ.widths w es
  | [], _, _, _, _, _, _, _, _, hts => by
    obtain rfl := Except.ok.inj hts
    exact ⟨trivial, List.forall_mem_nil _, rfl⟩
  | e :: es, ρ, operand, w, P, ts, hacc, hρ, hop, hts => by
    rw [meanings] at hts
    obtain ⟨t, ht, hts⟩ := bind_ok hts
    obtain ⟨us, hus, hts⟩ := bind_ok hts
    obtain rfl := Except.ok.inj hts
    obtain ⟨hfit, hlodged⟩ := meaning_fits hs hn e hacc.1 hρ hop ht
    obtain ⟨hfits, hshaped, hwidth⟩ := meanings_fit hs hn es hacc.2 hρ hop hus
    refine ⟨⟨hfit, hfits⟩, List.forall_mem_cons.mpr ⟨⟨_, hlodged.shaped⟩, hshaped⟩, ?_⟩
    rw [Expr.totalWidth, ← hwidth, ← hlodged.width_eq, Tensor.totalWidth, Tensor.totalWidth, List.map_cons, List.sum_cons]

end

/-- A model gives labels only if all labels that come up in its formula can be stored. -/
theorem evaluate_fits (hs : s.Sound n k) (hn : 0 < n) (hx : s.input.x.Lodged n w) {c : Compiler}
    (hc : Compiler.Reachable s.ops s.settings c) {e : Expr} {m : Model} (hm : c.Returns e m)
    (hinput : m.spec.check (some s.input) = .ok s.input)
    (hy : (Evaluator.evaluate s.maxIterations true m (some s.input)).result = .ok y) :
    e.Fits n k s.ops s.settings [] w True ∧ y.Lodged n (e.width s.ops s.settings [] w) := by
  have hcalm : s.ops.Calm := hs.ops_eq ▸ Builtin.registries_calm
  obtain ⟨_, _, _, _, _, _, hacc⟩ := RefinementAux.returns_plays hc hcalm hm s.input s.maxIterations
  have hmeaning : meaning s [] (.ok s.input.x) e = .ok y := by
    rw [← outcome_eq_ok, ← evaluate_outcome hc hcalm hm hinput, outcome_eq_ok]
    exact hy
  exact meaning_fits hs hn e (ρ := []) hacc (List.forall_mem_nil _) (fun x hop => ⟨trivial, Except.ok.inj hop ▸ hx⟩) hmeaning

end

/-! ## The fixpoint of a variable -/

/-- What a base of truth values starts a fixpoint from, if there is room for a row of it. -/
theorem Base.bool_init {w : Nat} (hw : w ≤ Tensor.capacity) (least : Bool) :
    (Base.bool w).init least = .ok (List.replicate w (Label.ofBool !least)) := by
  obtain ⟨v, hv⟩ : ∃ v, (Base.bool w).start least = some [v] := by
    cases least with
    | true => exact ⟨_, rfl⟩
    | false => exact ⟨_, rfl⟩
  have hnone : (Base.bool w).initFault? least = none :=
    Base.initFault?_eq_none.mpr ⟨[v], hv, .inr ⟨rfl, Int.natCast_nonneg w, Int.ofNat_le.mpr hw⟩⟩
  have hrow := Base.init_eq_ok.mpr ⟨hnone, rfl⟩
  rw [hrow, ← (Base.bool_isTruth w).init_eq hrow]

/-- A limit on iterations is never zero. -/
theorem Scene.limit_pos (s : Scene) (width : Nat) : 0 < s.limit width := by
  unfold Scene.limit
  split
  · omega
  · exact Nat.lt_of_lt_of_le (by decide) (Nat.le_max_left _ _)

namespace Sample

/-- The least fixpoint of a variable over truth values gives what it starts from, if there is room for it. -/
theorem meaning_loop {s : Scene} {n w : Nat} (hbase : s.settings.base? (Bytes.ofString "r") = some (Base.bool w))
    (hw : w ≤ Tensor.capacity) (hnodes : s.nodes = n) (ρ : Assignment) (operand : Except Failure Tensor) :
    meaning s ρ operand loopExpr = if Tensor.Storable n w then .ok (truthStart n w true) else .error .aborted := by
  rw [loopExpr, meaning, Scene.fixpoint_eq hbase (Base.bool_init hw true), hnodes]
  split
  · rename_i hroom
    have hstart : (truthStart n w true).IsTruth n w := truthStart_isTruth
    obtain ⟨k, hlimit⟩ := Nat.exists_eq_add_one.mpr (s.limit_pos (List.replicate w (Label.ofBool !true)).length)
    rw [Tensor.full?_eq (by rwa [List.length_replicate]), hlimit]
    show settle (k + 1) _ (k + 1) (truthStart n w true) = _
    have hassigned : s.assigned (List.replicate w (Label.ofBool !true)).length
        (fun x => meaning s ((Bytes.ofString "X", x) :: ρ) operand (.var ⟨7, 1, 8⟩ (Bytes.ofString "X"))) (truthStart n w true) =
          .ok (truthStart n w true) := by
      rw [Scene.assigned, meaning, List.lookup_cons, beq_self_eq_true]
      refine if_pos ⟨hnodes ▸ hstart.rows_eq, ?_⟩
      rw [List.length_replicate]
      exact hstart.cols_eq
    rw [settle, hassigned]
    exact if_pos ((hstart.equal_iff hstart).mpr fun _ _ => rfl)
  · rename_i hroom
    rw [Tensor.full?_eq_none (by rw [List.length_replicate]; exact Nat.not_le.mp hroom)]
    rfl

/-- On more nodes than there is room for, the least fixpoint over wide truth values breaks off. -/
theorem wide_breaks : wideCompiler.Returns loopExpr wideModel ∧ wideModel.spec.check (some manyNodes) = .ok manyNodes ∧
    ∃ f, (Evaluator.evaluate 0 true wideModel (some manyNodes)).result = .error f ∧ f.kind = .aborted := by
  have hreturns : wideCompiler.Returns loopExpr wideModel := .text loop_parsed wide_compiled
  have hcheck : wideModel.spec.check (some manyNodes) = .ok manyNodes := check_of_isOk (by decide +kernel)
  have houtcome := evaluate_outcome wide_reachable Builtin.registries_calm hreturns hcheck 0
  rw [meaning_loop (n := 351844) (w := 100000000) wide_base (by decide) rfl, if_neg (by decide)] at houtcome
  exact ⟨hreturns, hcheck, outcome_eq_error.mp houtcome⟩

end Sample

end ModalGraph
