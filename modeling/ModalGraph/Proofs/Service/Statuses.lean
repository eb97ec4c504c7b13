import ModalGraph.Proofs.Compiler.History
import ModalGraph.Proofs.Compiler.Refusals
import ModalGraph.Proofs.Compiler.Summary
import ModalGraph.Proofs.Evaluator.Failures
import ModalGraph.Proofs.Evaluator.Prepared
import ModalGraph.Service.Basic

/-!
# Whose fault a request is

A request that fails for its formula or for its graphs is answered with a status that says so, below 500, if the failure has a label of
its own: then it is one of syntax, of names, of the batching mode, of shapes, or of fixpoints that do not settle
(`Service.statusOf_caller`). All other failures that are told pass for faults of the service. With builtin operators and a caller who
waits there are four of these (`Service.Blamed`): an argument of an operator that is not usable, a base without a row to start from, a
batch in which only some graphs have edge labels, and graphs without edge labels for a model that wants them. Nothing else is answered
with such a status, and there is an answer wherever there is room for all labels (`Service.status_explained`).
-/

namespace ModalGraph

open Formula Compiler

namespace Service

/-! ## Statuses of failures -/

/-- The labels of failures that are the caller's. -/
def callerLabels : List String :=
  ["syntax_err", "unknown_op", "unbound_var", "mode_mismatch", "shape_err", "non_termination"]

theorem statusOf_caller {f : Failure} (h : f.Labelled callerLabels) : 400 ≤ statusOf f ∧ statusOf f < 500 := by
  replace h := h.1
  unfold statusOf
  simp only [callerLabels, List.mem_cons, List.not_mem_nil, or_false] at h
  rcases h with h | h | h | h | h | h
  all_goals
    rw [h]
    decide

theorem statusOf_generic {f : Failure} (h : f.result = Failure.genericLabel) : statusOf f = 500 := by
  unfold statusOf
  rw [h]
  decide

theorem le_statusOf (f : Failure) : 400 ≤ statusOf f := by
  unfold statusOf
  dsimp only
  split
  · decide
  · split
    · decide
    · split <;> decide

theorem requestFault_status (f : RequestFault) : 400 ≤ f.status ∧ f.status < 500 := by
  cases f <;> decide

theorem refusalStatus_told {f : Failure} (status : Nat) (h : ¬ f.BreaksOff) : refusalStatus (refuseAs status f) = some status := by
  rw [refuseAs, if_neg h]
  rfl

theorem refuseAs_eq_brokenOff {f : Failure} {status : Nat} : refuseAs status f = .brokenOff ↔ f.BreaksOff := by
  unfold refuseAs
  split
  · rename_i h
    exact iff_of_true rfl h
  · rename_i h
    exact iff_of_false nofun h

/-! ## Failures that the service takes the blame for -/

/-- A body that is received is read to the end or to the limit. -/
theorem receive_ok {r : Request} {limit : Int} {body : Bytes} (h : r.receive limit = .ok body) :
    readBody limit (r.header "Content-Type") r.body = .ok body := by
  unfold Request.receive at h
  dsimp only at h
  split at h
  · cases h
  · exact h

/-- A request has a body with a query. -/
def Asks (s : Service) (r : Request) (q : Query) : Prop :=
  ∃ body, readBody s.options.maxBody (r.header "Content-Type") r.body = .ok body ∧ Query.ofBody body = .ok q

/-- The graphs of a query, if it has any. -/
def graphsOf (s : Service) (q : Query) : Except Failure (List Graph) :=
  let spec := s.compiler.settings.input
  Graph.ofJson q.graphs spec.node.dtype (spec.edge.getD spec.node).dtype

/-- The failures of a query that pass for faults of the service: those of its formula that have no label, and those about edge labels
that its graphs lack. -/
inductive Blamed (s : Service) (q : Query) : Failure → Prop where
  | formula {e : Expr} {f : Failure} : parse (Bytes.ofString q.formula) = .ok e → s.compiler.Unlabelled e f → Blamed s q f
  | graphs {gs : List Graph} {f : Failure} : s.graphsOf q = .ok gs → s.compiler.settings.input.Lacks gs f → Blamed s q f

/-- There is room for the documents of a query, for the labels of its graphs together, and for those that come up when its formula is
evaluated on them. -/
structure HasRoom (s : Service) (q : Query) : Prop where
  documents : ∀ ds, q.graphs.bind Document.listOf? = some ds → ∀ d ∈ ds, d.HasRoom
  together : ∀ gs, s.graphsOf q = .ok gs → s.compiler.settings.input.batched = true → ¬ Graph.Crowded gs
  labels : ∀ e gs input, parse (Bytes.ofString q.formula) = .ok e → s.graphsOf q = .ok gs →
    s.compiler.settings.input.prepare gs = .ok input → e.FitsOn s.compiler.settings input

/-- The graphs of a query go together each, and reading them breaks off only where there is no room. -/
theorem graphsOf_ends (s : Service) (q : Query) :
    let spec := s.compiler.settings.input
    EndsIn (fun gs => gs ≠ [] ∧ ∀ g ∈ gs, g.Read spec.node.dtype (spec.edge.getD spec.node).dtype)
      (fun f => f.BreaksOff → ¬ s.HasRoom q) (s.graphsOf q) := by
  refine (Graph.ofJson_ends q.graphs).weaken fun f hf hbreaks hroom => ?_
  obtain ⟨ds, hds, d, hd, hstore⟩ := hf hbreaks
  exact hstore (hroom.documents ds hds d hd)

/-- The graphs of a query have no more nodes and edges than a list can have entries. -/
def Lists (s : Service) (q : Query) : Prop :=
  ∀ gs, s.graphsOf q = .ok gs → Graph.Listable gs

/-- A refusal whose status says that the caller is at fault. -/
def OnCaller (e : Refusal) : Prop :=
  ∃ status, refusalStatus e = some status ∧ 400 ≤ status ∧ status < 500

/-- A failure that is the caller's and says so, or one that the service takes the blame for, or one of work that breaks off because there
is no room. -/
def Explained (s : Service) (q : Query) (f : Failure) : Prop :=
  f.Labelled callerLabels ∨ s.Blamed q f ∨ f.BreaksOff ∧ ¬ s.HasRoom q

theorem Blamed.statusOf_eq {s : Service} {q : Query} {f : Failure} (h : s.Blamed q f) : statusOf f = 500 := by
  cases h with
  | formula _ hf => exact statusOf_generic hf.result_eq
  | graphs _ hf => exact statusOf_generic hf.result_eq

theorem Blamed.told {s : Service} {q : Query} {f : Failure} (h : s.Blamed q f) : ¬ f.BreaksOff := by
  cases h with
  | formula _ hf => exact hf.told
  | graphs _ hf => exact hf.told

/-- What a refusal for a failure that is explained says: it has a status that is the caller's, or it is blamed on the service, or there is
no room and it has no status. -/
theorem Explained.refusalStatus {s : Service} {q : Query} {f : Failure} (h : s.Explained q f) :
    OnCaller (refuse f) ∨ s.Blamed q f ∨ ¬ s.HasRoom q ∧ Service.refusalStatus (refuse f) = none := by
  rcases h with hcaller | hblamed | ⟨hbreaks, hroom⟩
  · exact .inl ⟨_, refusalStatus_told _ hcaller.2, statusOf_caller hcaller⟩
  · exact .inr (.inl hblamed)
  · refine .inr (.inr ⟨hroom, ?_⟩)
    rw [refuse, refuseAs_eq_brokenOff.mpr hbreaks]
    rfl

section

variable {settings : Settings} {s : Service} {q : Query} {f : Failure}

/-- What compiling the formula of a query fails with. -/
theorem compile_explained (hs : Reachable Builtin.registries settings s.compiler)
    (hf : (s.compiler.compile false (Bytes.ofString q.formula)).result = .error f) : s.Explained q f := by
  obtain ⟨es, hlisted⟩ := hs.listed
  cases hparse : parse (Bytes.ofString q.formula) with
  | error g =>
    rw [Compiler.compile, hparse] at hf
    cases hf
    exact .inl ⟨show "syntax_err" ∈ callerLabels by decide, fun h => by cases h⟩
  | ok e =>
    have hvalid : s.compiler.settings.validate = .ok () := hlisted.settings_eq ▸ hs.validate
    rcases (compile_refuses hparse hf).builtin hlisted.ops_eq hvalid with hlabel | hunlabelled
    · exact .inl (hlabel.imp_left fun hmem => (show refusalLabels ⊆ callerLabels by decide) hmem)
    · exact .inr (.inl (.formula hparse hunlabelled))

/-- A failure of a mode or of shapes is the caller's. -/
theorem unfit_caller (h : f.Unfit) : f.Labelled callerLabels := by
  refine ⟨?_, h.2⟩
  rcases h.1 with h | h
  all_goals
    rw [h]
    decide

theorem foreseen_caller {nodes : Int} (h : f.Foreseen settings nodes) : f.Labelled callerLabels := by
  refine ⟨?_, fun hbreaks => ?_⟩
  · cases h with
    | psi hf => cases hf with | features => exact show "shape_err" ∈ callerLabels by decide
    | phi hf =>
      cases hf with
      | required => exact show "shape_err" ∈ callerLabels by decide
      | width => exact show "shape_err" ∈ callerLabels by decide
      | negative => exact show "shape_err" ∈ callerLabels by decide
    | body => exact show "shape_err" ∈ callerLabels by decide
    | unsettled => exact show "non_termination" ∈ callerLabels by decide
  · rcases h.kind_eq with hkind | hkind
    · cases hbreaks.symm.trans hkind
    · cases hbreaks.symm.trans hkind

/-- Where an evaluation is refused: by the compiler, by what makes an input of the graphs, or by the evaluator. -/
theorem evaluateOn_refused {patience : Patience} {accept : String} {formula : Bytes} {gs : List Graph} {r : Refusal}
    (h : (s.evaluateOn patience accept formula gs).result = .error r) :
    ∃ f, r = refuse f ∧ ((s.compiler.compile (!patience.waits) formula).result = .error f ∨
      ∃ m, (s.compiler.compile (!patience.waits) formula).result = .ok m ∧ (s.compiler.settings.input.prepare gs = .error f ∨
        ∃ input, s.compiler.settings.input.prepare gs = .ok input ∧
          (Evaluator.answer s.maxIterations patience.spent m (some input)).result = .error f)) := by
  unfold evaluateOn at h
  dsimp only at h
  split at h
  · rename_i f hcompile
    exact ⟨f, (Except.error.inj h).symm, .inl hcompile⟩
  · rename_i m hcompile
    split at h
    · rename_i f hprepare
      exact ⟨f, (Except.error.inj h).symm, .inr ⟨m, hcompile, .inl hprepare⟩⟩
    · rename_i input hprepare
      cases hresult : (Evaluator.answer s.maxIterations patience.spent m (some input)).result with
      | error f =>
        rw [hresult] at h
        exact ⟨f, (Except.error.inj h).symm, .inr ⟨m, hcompile, .inr ⟨input, hprepare, hresult⟩⟩⟩
      | ok labels =>
        rw [hresult] at h
        cases h

/-- What evaluating a model of the formula of a query on an input from its graphs fails with. -/
theorem evaluate_explained (hs : Reachable Builtin.registries settings s.compiler) {e : Expr}
    (hparse : parse (Bytes.ofString q.formula) = .ok e) {m : Model} (hm : s.compiler.Returns e m) {gs : List Graph}
    (hgs : s.graphsOf q = .ok gs) {input : Input} (hprepare : s.compiler.settings.input.prepare gs = .ok input)
    (hwhole : input.Whole) (hnone : input.e = none → ∀ g ∈ gs, g.e = none)
    (hf : (Evaluator.evaluate s.maxIterations true m (some input)).result = .error f) : s.Explained q f := by
  obtain ⟨es, hlisted⟩ := hs.listed
  obtain ⟨_, -, -, hspec, -⟩ := RefinementAux.returns_holds hs hm
  have hspec : m.spec = s.compiler.settings.input := by rw [hspec, hlisted.settings_eq]
  have hchecked := InputSpec.check_ends (s := s.compiler.settings.input) hwhole hnone
  rw [← hspec] at hchecked
  cases hcheck : m.spec.check (some input) with
  | error g =>
    rw [Evaluator.evaluate, Evaluator.answer, if_neg (by simp [Patience.waits, Patience.ofLive]), hcheck] at hf
    cases hf
    rw [hcheck, hspec] at hchecked
    exact Or.imp unfit_caller (fun hlacks => .inl (.graphs hgs hlacks)) hchecked
  | ok input' =>
    rw [hcheck] at hchecked
    obtain rfl : input' = input := hchecked
    have hends := evaluate_expected hs hm hcheck hwhole.labels (fun t ht => (hwhole.edgeLabels t ht).1) s.maxIterations
    rw [hf] at hends
    rcases hends with hforeseen | ⟨hbreaks, hfits⟩
    · exact .inl (foreseen_caller hforeseen)
    · refine .inr (.inr ⟨hbreaks, fun hroom => hfits ?_⟩)
      exact hlisted.settings_eq ▸ hroom.labels e gs input' hparse hgs hprepare

/-- What evaluating the formula of a query on its graphs fails with. -/
theorem evaluateOn_explained (hs : Reachable Builtin.registries settings s.compiler) {accept : String} {gs : List Graph}
    (hgs : s.graphsOf q = .ok gs) (hlist : s.Lists q) {r : Refusal}
    (h : (s.evaluateOn .endless accept (Bytes.ofString q.formula) gs).result = .error r) : ∃ f, r = refuse f ∧ s.Explained q f := by
  obtain ⟨f, rfl, hcompile | ⟨m, hcompile, hf⟩⟩ := evaluateOn_refused h
  · exact ⟨f, rfl, compile_explained hs hcompile⟩
  refine ⟨f, rfl, ?_⟩
  have hread := s.graphsOf_ends q
  rw [hgs] at hread
  obtain ⟨e, hparse⟩ : ∃ e, parse (Bytes.ofString q.formula) = .ok e := by
    cases hparse : parse (Bytes.ofString q.formula) with
    | ok e => exact ⟨e, rfl⟩
    | error g =>
      rw [Compiler.compile, hparse] at hcompile
      cases hcompile
  have hprepared := InputSpec.prepare_ends (s := s.compiler.settings.input) hread.2 hread.1 (hlist gs hgs)
  rcases hf with hprepare | ⟨input, hprepare, hf⟩
  · rw [hprepare] at hprepared
    rcases hprepared with (hunfit | hlacks) | ⟨hbreaks, hbatched, hcrowded⟩
    · exact .inl (unfit_caller hunfit)
    · exact .inr (.inl (.graphs hgs hlacks))
    · exact .inr (.inr ⟨hbreaks, fun hroom => hroom.together gs hgs hbatched hcrowded⟩)
  · rw [hprepare] at hprepared
    exact evaluate_explained hs hparse (.text hparse hcompile) hgs hprepare hprepared.1 hprepared.2 hf

/-- A refusal with a status that is the caller's, or one that is explained by the query. -/
def Accounts (s : Service) (q : Query) (e : Refusal) : Prop :=
  OnCaller e ∨ ∃ f, e = refuse f ∧ s.Explained q f

theorem fault_status (fault : RequestFault) : OnCaller (.fault fault) :=
  ⟨_, rfl, requestFault_status fault⟩

/-- Why compiling the formula of a body is refused. -/
theorem compile_accounts (hs : Reachable Builtin.registries settings s.compiler) {body : Bytes} (hq : Query.ofBody body = .ok q)
    {e : Refusal} (h : (s.compile .endless body).result = .error e) : s.Accounts q e := by
  rw [Service.compile, hq] at h
  dsimp only at h
  split at h
  · rename_i f hf
    obtain rfl := Except.error.inj h
    exact .inr ⟨f, rfl, compile_explained hs hf⟩
  · rename_i m hm
    obtain ⟨summary, hsummary⟩ := Option.isSome_iff_exists.mp (compile_summary hs hm)
    rw [modelContent, hsummary] at h
    cases h

/-- Why evaluating the formula of a body on its graphs is refused. -/
theorem evaluate_accounts (hs : Reachable Builtin.registries settings s.compiler) {accept : String} {body : Bytes}
    (hq : Query.ofBody body = .ok q) (hlist : s.Lists q) {e : Refusal} (h : (s.evaluate .endless accept body).result = .error e) :
    s.Accounts q e := by
  rw [Service.evaluate, hq] at h
  dsimp only at h
  split at h
  · obtain rfl := Except.error.inj h
    exact .inl (fault_status _)
  · rename_i j hj
    rw [← hj] at h
    split at h
    · rename_i f hf
      obtain rfl := Except.error.inj h
      by_cases hbreaks : f.BreaksOff
      · have hends := s.graphsOf_ends q
        rw [show s.graphsOf q = .error f from hf] at hends
        refine .inr ⟨f, ?_, .inr (.inr ⟨hbreaks, hends hbreaks⟩)⟩
        rw [refuse, refuseAs_eq_brokenOff.mpr hbreaks, refuseAs_eq_brokenOff.mpr hbreaks]
      · exact .inl ⟨400, refusalStatus_told 400 hbreaks, Nat.le_refl 400, by decide⟩
    · rename_i gs hgs
      exact .inr (evaluateOn_explained hs hgs hlist h)

/-- Why a request is refused: it is at fault itself, or its query explains it. -/
theorem work_accounts (hs : Reachable Builtin.registries settings s.compiler) {r : Request} (hlive : r.patience = .endless)
    (hlist : ∀ q, s.Asks r q → s.Lists q) {e : Refusal} (h : (s.work r).result = .error e) :
    OnCaller e ∨ ∃ q f, s.Asks r q ∧ e = refuse f ∧ s.Explained q f := by
  have hfault : ∀ fault : RequestFault, Except.error (.fault fault) = (Except.error e : Except Refusal Content) → OnCaller e := by
    intro fault heq
    obtain rfl := Except.error.inj heq
    exact fault_status fault
  unfold work at h
  dsimp only at h
  split at h
  · exact .inl (hfault _ h)
  split at h
  · exact .inl (hfault _ h)
  split at h
  · exact .inl (hfault _ h)
  · rename_i body hbody
    rw [hlive] at h
    cases hq : Query.ofBody body with
    | error fault =>
      rw [Service.compile, Service.evaluate, hq] at h
      split at h
      · exact .inl (hfault _ h)
      · exact .inl (hfault _ h)
    | ok q =>
      have hasks : s.Asks r q := ⟨body, receive_ok hbody, hq⟩
      have haccounts : s.Accounts q e := by
        split at h
        · exact compile_accounts hs hq h
        · exact evaluate_accounts hs hq (hlist q hasks) h
      refine haccounts.imp_right ?_
      rintro ⟨f, rfl, hf⟩
      exact ⟨q, f, hasks, rfl, hf⟩

end

/-! ## Statuses of responses -/

/-- A question about what is allowed is answered at once, and any other request with what comes of it, if anything does. -/
theorem handle_status (s : Service) (run : Nat) (r : Request) : (s.handle run r).response.map Response.status =
    if r.method == "OPTIONS" then some 204
    else match (s.work r).result with
      | .ok _ => some 200
      | .error e => refusalStatus e := by
  unfold handle
  dsimp only
  split
  · rfl
  · rw [Option.map_map]
    rcases (s.work r).result with (fault | ⟨status, f⟩ | _) | (j | bs) <;> rfl

/-- A question about what is allowed is no request for a formula. -/
theorem work_options (s : Service) {r : Request} (h : (r.method == "OPTIONS") = true) :
    ∃ fault, (s.work r).result = .error (.fault fault) := by
  unfold work
  dsimp only
  split
  · exact ⟨_, rfl⟩
  · rw [eq_of_beq h]
    exact ⟨_, rfl⟩

section

variable {settings : Settings} {s : Service} {run : Nat} {r : Request}

/-- What the service takes the blame for is answered with the status of its own faults. -/
theorem blamed_status {q : Query} {f : Failure} (hresult : (s.work r).result = .error (refuse f)) (hf : s.Blamed q f) :
    (s.handle run r).response.map Response.status = some 500 := by
  have hrefused : refuse f = .failed 500 f := by rw [refuse, refuseAs, if_neg hf.told, hf.statusOf_eq]
  rw [handle_status, hresult, hrefused]
  refine if_neg fun hoptions => ?_
  obtain ⟨fault, hfault⟩ := s.work_options hoptions
  rw [hresult, hrefused] at hfault
  cases hfault

/-- A caller who waits gets a success or an error of their own, or the service takes the blame, or there is no room and no response. -/
theorem status_cases (run : Nat) (hs : Reachable Builtin.registries settings s.compiler) (hlive : r.patience = .endless)
    (hlist : ∀ q, s.Asks r q → s.Lists q) :
    (∃ status, (s.handle run r).response.map Response.status = some status ∧ (status ∈ [200, 204] ∨ 400 ≤ status ∧ status < 500)) ∨
      (∃ q f, s.Asks r q ∧ (s.work r).result = .error (refuse f) ∧ s.Blamed q f) ∨
      (s.handle run r).response.map Response.status = none ∧ ∃ q, s.Asks r q ∧ ¬ s.HasRoom q := by
  rw [handle_status]
  split
  · exact .inl ⟨204, rfl, .inl (by decide)⟩
  cases hresult : (s.work r).result with
  | ok content => exact .inl ⟨200, rfl, .inl (by decide)⟩
  | error e =>
    rcases work_accounts hs hlive hlist hresult with ⟨status, hstatus, hle⟩ | ⟨q, f, hasks, rfl, hf⟩
    · exact .inl ⟨status, hstatus, .inr hle⟩
    rcases hf.refusalStatus with ⟨status, hstatus, hle⟩ | hblamed | ⟨hroom, hstatus⟩
    · exact .inl ⟨status, hstatus, .inr hle⟩
    · exact .inr (.inl ⟨q, f, hasks, rfl, hblamed⟩)
    · exact .inr (.inr ⟨hstatus, q, hasks, hroom⟩)

end

end Service

open Service

/-- With builtin operators, a caller who waits is answered with a status from 500 on exactly if the failure is one that the service takes
the blame for, though it is that of the formula or of the graphs. Every other response is a success, or has a status from 400 on, and there
is a response unless there is no room. -/
theorem Service.status_explained {settings : Settings} {s : Service} (hs : Reachable Builtin.registries settings s.compiler) (run : Nat)
    {r : Request} (hlive : r.patience = .endless) (hlist : ∀ q, s.Asks r q → s.Lists q) :
    ((∃ response, (s.handle run r).response = some response ∧ 500 ≤ response.status) ↔
      ∃ q f, s.Asks r q ∧ (s.work r).result = .error (refuse f) ∧ s.Blamed q f) ∧
    (∀ response, (s.handle run r).response = some response → response.status ∈ [200, 204] ∨ 400 ≤ response.status) ∧
    ((s.handle run r).response = none → ∃ q, s.Asks r q ∧ ¬ s.HasRoom q) := by
  have hblamed : ∀ {q f}, (s.work r).result = .error (refuse f) → s.Blamed q f →
      (s.handle run r).response.map Response.status = some 500 := blamed_status
  refine ⟨⟨?_, ?_⟩, ?_, ?_⟩
  · rintro ⟨response, hresponse, hle⟩
    rcases status_cases run hs hlive hlist with ⟨status, hstatus, hother⟩ | hfound | ⟨hnone, -⟩
    · rw [hresponse] at hstatus
      obtain rfl := Option.some.inj hstatus
      simp only [List.mem_cons, List.not_mem_nil, or_false] at hother
      omega
    · exact hfound
    · rw [hresponse] at hnone
      cases hnone
  · rintro ⟨q, f, -, hresult, hf⟩
    obtain ⟨response, hresponse, hstatus⟩ := Option.map_eq_some_iff.mp (hblamed hresult hf)
    exact ⟨response, hresponse, hstatus.ge⟩
  · intro response hresponse
    rcases status_cases run hs hlive hlist with ⟨status, hstatus, hother⟩ | ⟨q, f, -, hresult, hf⟩ | ⟨hnone, -⟩
    · rw [hresponse] at hstatus
      obtain rfl := Option.some.inj hstatus
      exact hother.imp_right And.left
    · have hstatus := hblamed hresult hf
      rw [hresponse] at hstatus
      exact .inr ((Option.some.inj hstatus).symm ▸ by decide)
    · rw [hresponse] at hnone
      cases hnone
  · intro hnone
    rcases status_cases run hs hlive hlist with ⟨status, hstatus, -⟩ | ⟨q, f, -, hresult, hf⟩ | ⟨-, hroom⟩
    · rw [hnone] at hstatus
      cases hstatus
    · have hstatus := hblamed hresult hf
      rw [hnone] at hstatus
      cases hstatus
    · exact hroom

namespace Sample

/-- A request to compile a text. -/
def compileRequest (body : String) : Request :=
  { method := "POST", target := { path := "/compile", written := "/compile", query := "" }, version := ⟨1, 1⟩, headers := [],
    body := Bytes.ofString body }

/-- A request to compile an operator with an argument that is not a position. -/
def misplacedRequest : Request :=
  compileRequest "\x7b\"formula\":\"bit[x]\"\x7d"

/-- A service over truth values and labels. -/
def service : Service :=
  ⟨newCompiler, 0, {}⟩

end Sample

/-- The formula `bit[x]` is answered with a status from 500 on, and the failure that explains it is blamed on the service. -/
theorem Service.status_explained_sample :
    Reachable Builtin.registries Sample.twoBases Sample.service.compiler ∧ Sample.misplacedRequest.patience = .endless ∧
      (∀ q, Sample.service.Asks Sample.misplacedRequest q → Sample.service.Lists q) ∧
      ∃ q f, Sample.service.Asks Sample.misplacedRequest q ∧
        (Sample.service.work Sample.misplacedRequest).result = .error (refuse f) ∧ Sample.service.Blamed q f := by
  have hreach : Reachable Builtin.registries Sample.twoBases Sample.service.compiler := .new Sample.newCompiler_new
  have hlist : ∀ q, Sample.service.Asks Sample.misplacedRequest q → Sample.service.Lists q := by
    rintro q ⟨body, hbody, hq⟩ gs hgs
    have hwhole : readBody Sample.service.options.maxBody (Sample.misplacedRequest.header "Content-Type") Sample.misplacedRequest.body =
        .ok Sample.misplacedRequest.body := rfl
    obtain rfl := Except.ok.inj (hwhole.symm.trans hbody)
    have hnone : (Query.ofBody Sample.misplacedRequest.body).toOption.map (fun q => q.graphs.isNone) = some true := by decide +kernel
    rw [hq] at hnone
    rw [graphsOf, Option.isNone_iff_eq_none.mp (Option.some.inj hnone)] at hgs
    cases hgs
  have hexplained := Service.status_explained hreach 0 rfl hlist
  exact ⟨hreach, rfl, hlist, hexplained.1.mp (by decide +kernel)⟩

/-- An argument that is not a position is the caller's mistake, and passes for a fault of the service. -/
theorem Service.argument_blamed :
    (Sample.service.handle 0 Sample.misplacedRequest).response.map Response.status = some 500 := by
  decide +kernel

end ModalGraph
