import Mathlib.Data.Set.List
import ModalGraph.Proofs.Service.Statuses
import ModalGraph.Proofs.Step
import ModalGraph.Proofs.Trace.Visits

/-!
# What a request reports

Answering a request reports a visit (`Service.handle_reports`): its start, the start and the finish of a compilation if one is begun,
those of an evaluation if one is begun, with the fixpoints that have settled between them, and its finish. Which of these there are
depends on what is at fault with the request, and on when the caller gives up.

The reports agree with the response if there is one (`Service.handle_traced`). They carry its run id, the last one has its status, and
nothing is evaluated unless it has been compiled. The status is that of a success exactly if what is asked for has come about, as far as the
results tell (`Service.Granted`) and as far as the reports tell. Where work breaks off nothing is written, and what is reported is a finish
without a failure, of the evaluation as of the request.
-/

namespace ModalGraph

/-- What is reported of some work is how it ended. Work that is not reported at all has failed before it began. -/
def Attests {α : Type} (reported : Option (Option Failure)) (result : Except Failure α) : Prop :=
  reported = some (Failure.reported result) ∨ reported = none ∧ ∃ f, result = .error f

section

variable {α : Type} {reported : Option (Option Failure)} {result : Except Failure α}

/-- Work with a result is reported without a failure. -/
theorem Attests.of_ok (h : Attests reported result) {a : α} (ha : result = .ok a) : reported = some none := by
  rcases h with rfl | ⟨rfl, f, rfl⟩
  · rw [ha]
    rfl
  · cases ha

/-- Work that fails is not reported without a failure, unless it breaks off. -/
theorem Attests.of_error (h : Attests reported result) {f : Failure} (hf : result = .error f) (htold : ¬ f.BreaksOff) :
    reported ≠ some none := by
  rcases h with rfl | ⟨rfl, -⟩
  · rw [hf, Failure.reported, if_neg htold]
    exact nofun
  · exact nofun

/-- Work that breaks off is reported without a failure, if at all. -/
theorem Attests.of_breaksOff (h : Attests reported result) {f : Failure} (hf : result = .error f) (hbreaks : f.BreaksOff) :
    ∀ x ∈ reported, x = none := by
  rcases h with rfl | ⟨rfl, -⟩
  · rw [hf, Failure.reported, if_pos hbreaks]
    exact fun x hx => (Option.some.inj hx).symm
  · exact nofun

end

namespace Evaluator

/-- A run that has reported nothing but fixpoints that have settled. -/
def Run.ReportsSettled (r : Run) : Prop :=
  ∀ e ∈ r.events, ∃ f : Trace.Settled, e = f.event

/-- A step that reports nothing but fixpoints that have settled, whether it fails or not. -/
def ReportsSettled {α : Type} (act : Eval α) : Prop :=
  ∀ r : Run, r.ReportsSettled → (act.run r).2.ReportsSettled

namespace ReportsSettled

variable {α β : Type}

theorem pure (a : α) : ReportsSettled (Pure.pure a) :=
  fun _ hr => hr

theorem throw (f : Failure) : ReportsSettled (MonadExcept.throw f : Eval α) :=
  fun _ hr => hr

theorem lift (x : Except Failure α) : ReportsSettled (liftM x) := by
  intro r hr
  rwa [run_lift]

theorem change {f : Run → Run} (h : ∀ r : Run, r.ReportsSettled → (f r).ReportsSettled) : ReportsSettled (modify f) :=
  fun r hr => h r hr

theorem bind {act : Eval α} {f : α → Eval β} (h : ReportsSettled act) (hf : ∀ a, ReportsSettled (f a)) : ReportsSettled (act >>= f) := by
  intro r hr
  have hact := h r hr
  rw [run_bind]
  rcases hrun : act.run r with ⟨a | a, r'⟩
  · rw [hrun] at hact
    exact hact
  · rw [hrun] at hact
    exact hf a r' hact

theorem state {f : Run → Eval β} (hf : ∀ r, ReportsSettled (f r)) : ReportsSettled (get >>= f) :=
  bind (fun _ hr => hr) hf

theorem mapM {f : Nat → Eval Tensor} (h : ∀ i, ReportsSettled (f i)) (is : List Nat) : ReportsSettled (is.mapM f) := by
  induction is with
  | nil => exact pure []
  | cons i is ih =>
    rw [List.mapM_cons]
    exact (h i).bind fun x => ih.bind fun xs => pure (x :: xs)

theorem checkLive : ReportsSettled checkLive := by
  refine state fun r => ?_
  split
  · exact throw .canceled
  · exact change fun r hr => hr

theorem inIteration {act : Eval α} (h : ReportsSettled act) : ReportsSettled (inIteration act) := by
  intro r hr
  rw [run_inIteration]
  exact h _ hr

theorem iterate {key : Bytes} {limit : Nat} {step : Tensor → Eval Tensor} (h : ∀ x, ReportsSettled (step x)) (remaining : Nat) :
    ∀ x, ReportsSettled (iterate key limit step remaining x) := by
  induction remaining with
  | zero => exact fun x => checkLive.bind fun _ => throw _
  | succ remaining ih =>
    intro x
    rw [Evaluator.iterate]
    refine checkLive.bind fun _ => (h x).bind fun y => ?_
    split
    · exact pure _
    · exact ih y

end ReportsSettled

section

variable {t : Task} {ask : Scope → Nat → Eval Tensor}

open ReportsSettled

/-- A fixpoint reports that it has settled. -/
theorem fixpoint_reports (hask : ∀ scope i, ReportsSettled (ask scope i)) (scope : Scope) (n : Node) (b : Binder) (body : Nat) :
    ReportsSettled (fixpoint t ask scope n b body) := by
  have hstep : ∀ x : Tensor, ReportsSettled (do
      let next ← inIteration (ask ((b.var, x) :: scope) body)
      liftM (checkBody t b (b.init.getD []).length next)
      return next) :=
    fun x => (ReportsSettled.inIteration (hask _ _)).bind fun next => (lift _).bind fun _ => pure next
  refine (lift _).bind fun start => (ReportsSettled.iterate hstep _ _).bind fun p => ?_
  refine (change fun r hr e he => ?_).bind fun _ => pure p.1
  rcases List.mem_cons.mp he with rfl | he
  · exact ⟨⟨n.key, b.least, p.2⟩, rfl⟩
  · exact hr e he

theorem compute_reports (hask : ∀ scope i, ReportsSettled (ask scope i)) (scope : Scope) (n : Node) :
    ReportsSettled (compute t ask scope n) := by
  unfold compute
  split
  · exact pure _
  · split
    · refine (hask _ _).bind fun x => ?_
      split
      · exact bind (change (f := fun r => { r with patience := .times 0 }) fun r hr => hr) fun _ => lift _
      · exact lift _
    · exact throw _
  · exact (mapM (hask scope) _).bind fun _ => lift _
  · split
    · exact (hask _ _).bind fun _ => lift _
    · exact throw _
  · split
    · exact pure _
    · exact throw _
  · split
    · exact fixpoint_reports hask scope n _ _
    · exact throw _
  · exact throw _

theorem eval_reports (t : Task) (fuel : Nat) : ∀ scope i, ReportsSettled (eval t fuel scope i) := by
  induction fuel with
  | zero => exact fun _ _ => throw _
  | succ fuel ih =>
    intro scope i
    rw [eval]
    split
    · exact throw _
    · rename_i n _
      refine state fun r => ?_
      split
      · exact pure _
      · refine (compute_reports ih scope n).bind fun v => (change fun r hr => ?_).bind fun _ => pure v
        rw [Run.keep]
        split <;> exact hr

end

/-- What an evaluation reports, if it begins at all. -/
theorem answer_events (maxIterations : Int) (patience : Patience) (m : Model) (input? : Option Input) :
    ∃ v : Option Trace.Evaluation, (answer maxIterations patience m input?).events = v.elim [] Trace.Evaluation.events ∧
      Attests (v.map Trace.Evaluation.failure) (answer maxIterations patience m input?).result := by
  unfold answer
  split
  · exact ⟨none, rfl, .inr ⟨rfl, _, rfl⟩⟩
  · split
    · exact ⟨none, rfl, .inr ⟨rfl, _, rfl⟩⟩
    · rename_i input _
      have hsettled := eval_reports ⟨m, input, maxIterations⟩ (m.nodes.length + 1) [] m.output { patience := patience.spent }
        (fun e he => by cases he)
      rcases hrun : runFor ⟨m, input, maxIterations⟩ patience.spent with ⟨result, r⟩
      rw [show (eval ⟨m, input, maxIterations⟩ (m.nodes.length + 1) [] m.output).run { patience := patience.spent } = (result, r) from
        hrun] at hsettled
      obtain ⟨fs, hfs⟩ : ∃ fs : List Trace.Settled, r.events.reverse = fs.map Trace.Settled.event := by
        have hrange : r.events.reverse ∈ Set.range (List.map Trace.Settled.event) := by
          rw [Set.range_list_map]
          intro e he
          obtain ⟨f, rfl⟩ := hsettled e (List.mem_reverse.mp he)
          exact ⟨f, rfl⟩
        obtain ⟨fs, hfs⟩ := hrange
        exact ⟨fs, hfs.symm⟩
      refine ⟨some ⟨m.formula, input.nodes, graphs input, fs, Failure.reported result⟩, ?_, .inl rfl⟩
      dsimp only
      rw [hfs]
      rfl

end Evaluator

/-! ## Compilations -/

/-- What a compilation reports, if it begins at all. -/
theorem Compiler.compile_events (c : Compiler) (canceled : Bool) (formula : Bytes) :
    ∃ q : Option Trace.Compilation, (c.compile canceled formula).events = q.elim [] Trace.Compilation.events ∧
      Attests (q.map Trace.Compilation.failure) (c.compile canceled formula).result := by
  unfold compile
  split
  · exact ⟨none, rfl, .inr ⟨rfl, _, rfl⟩⟩
  · unfold compileAs
    split
    · exact ⟨none, rfl, .inr ⟨rfl, _, rfl⟩⟩
    · dsimp only
      split
      split
      · rename_i f _
        exact ⟨some ⟨formula, _, _, _, _, Failure.reported (.error f : Except Failure Model)⟩, rfl, .inl rfl⟩
      · exact ⟨some ⟨formula, _, _, _, _, none⟩, rfl, .inl rfl⟩

namespace Service

open Compiler

/-! ## Work -/

/-- A refusal with a status has one from 400 on. -/
def Refusal.Late (e : Refusal) : Prop :=
  ∀ status, refusalStatus e = some status → 400 ≤ status

theorem late_refuseAs {status : Nat} (h : 400 ≤ status) (f : Failure) : Refusal.Late (refuseAs status f) := by
  intro status' heq
  unfold refuseAs at heq
  split at heq
  · cases heq
  · exact Option.some.inj heq ▸ h

theorem late_refuse (f : Failure) : Refusal.Late (refuse f) :=
  late_refuseAs (le_statusOf f) f

/-- The routes are paths. -/
theorem routeOf_cases (path : String) : routeOf path = "" ∧ path ≠ "/compile" ∧ path ≠ "/evaluate" ∨
    routeOf path = path ∧ (path = "/compile" ∨ path = "/evaluate") := by
  unfold routeOf
  by_cases hroute : path = "/compile" ∨ path = "/evaluate"
  · refine .inr ⟨if_pos ?_, hroute⟩
    rcases hroute with rfl | rfl <;> decide
  · obtain ⟨hcompile, hevaluate⟩ := not_or.mp hroute
    refine .inl ⟨if_neg fun hmem => hroute ?_, hcompile, hevaluate⟩
    simpa [routes] using hmem

theorem routeOf_eq_evaluate {path : String} : routeOf path = "/evaluate" ↔ path = "/evaluate" := by
  rcases routeOf_cases path with ⟨hnone, -, hevaluate⟩ | ⟨hroute, -⟩
  · rw [hnone]
    exact ⟨fun h => absurd h (by decide), fun h => absurd h hevaluate⟩
  · rw [hroute]

/-- Every model that the service compiles can be shown. -/
def Renders (s : Service) : Prop :=
  ∀ canceled formula m, (s.compiler.compile canceled formula).result = .ok m → m.summary?.isSome = true

/-- Work reports a compilation or none, and then an evaluation or none. Unless it breaks off, it succeeds exactly if the one that is
asked for is reported without a failure; work that breaks off reports no failure. The compiler compiles at most once. -/
structure Told (s : Service) (evaluates : Bool) (w : Work) (c : Option Trace.Compilation) (v : Option Trace.Evaluation) : Prop where
  events_eq : w.events = c.elim [] Trace.Compilation.events ++ v.elim [] Trace.Evaluation.events
  compiled : v.isSome = true → c.map Trace.Compilation.failure = some none
  refused : ∀ e, w.result = .error e → Refusal.Late e
  granted : s.Renders → w.result ≠ .error .brokenOff → ((∃ content, w.result = .ok content) ↔
    (if evaluates then v.map Trace.Evaluation.failure else c.map Trace.Compilation.failure) = some none)
  broken : w.result = .error .brokenOff → (∀ x ∈ c.map Trace.Compilation.failure, x = none) ∧
    ∀ x ∈ v.map Trace.Evaluation.failure, x = none
  kept : ∀ {ops settings}, Reachable ops settings s.compiler → Reachable ops settings w.compiler

section

variable {s : Service} {evaluates : Bool} {compiler : Compiler} {events : List Event} {c : Option Trace.Compilation}

/-- Work that fails, with what has been asked for not begun or failed. -/
theorem told_error {e : Refusal} (hevents : events = c.elim [] Trace.Compilation.events) (hlate : Refusal.Late e)
    (hc : evaluates = false → e ≠ .brokenOff → c.map Trace.Compilation.failure ≠ some none)
    (hbroken : e = .brokenOff → ∀ x ∈ c.map Trace.Compilation.failure, x = none)
    (hcompiler : ∀ {ops settings}, Reachable ops settings s.compiler → Reachable ops settings compiler) :
    s.Told evaluates ⟨.error e, compiler, events⟩ c none where
  events_eq := by rw [hevents, Option.elim, List.append_nil]
  compiled h := by cases h
  refused e' he := Except.error.inj he ▸ hlate
  granted _ htold := by
    refine ⟨fun ⟨content, h⟩ => (by cases h), fun h => ?_⟩
    cases evaluates with
    | true => cases h
    | false => exact absurd h (hc rfl fun heq => htold (congrArg Except.error heq))
  broken h := ⟨hbroken (Except.error.inj h), nofun⟩
  kept := hcompiler

/-- Work that is refused before anything has begun. -/
theorem told_refused {e : Refusal} (hlate : Refusal.Late e) : s.Told evaluates ⟨.error e, s.compiler, []⟩ none none :=
  told_error rfl hlate (fun _ _ h => by cases h) (fun _ => nofun) id

theorem told_fault (fault : RequestFault) : s.Told evaluates ⟨.error (.fault fault), s.compiler, []⟩ none none :=
  told_refused fun _ h => Option.some.inj h ▸ (requestFault_status fault).1

theorem compile_told (s : Service) (patience : Patience) (body : Bytes) : ∃ c v, s.Told false (s.compile patience body) c v := by
  unfold compile
  split
  · exact ⟨none, none, told_fault _⟩
  rename_i q _
  obtain ⟨c, hevents, hc⟩ := s.compiler.compile_events (!patience.waits) (Bytes.ofString q.formula)
  dsimp only
  split
  · rename_i f hf
    exact ⟨c, none, told_error hevents (late_refuse f) (fun _ htold => hc.of_error hf (mt refuseAs_eq_brokenOff.mpr htold))
      (fun hbroken => hc.of_breaksOff hf (refuseAs_eq_brokenOff.mp hbroken)) (.compile _ _)⟩
  · rename_i m hm
    refine ⟨c, none, ?_, fun h => (by cases h), fun e he => ?_, fun hrenders _ => ?_, fun _ => ⟨?_, nofun⟩, .compile _ _⟩
    · rw [hevents, Option.elim, List.append_nil]
    · rw [modelContent] at he
      split at he
      · exact Except.error.inj he ▸ late_refuse .aborted
      · cases he
    · obtain ⟨summary, hsummary⟩ := Option.isSome_iff_exists.mp (hrenders _ _ m hm)
      rw [modelContent, hsummary]
      exact ⟨fun _ => hc.of_ok hm, fun _ => ⟨_, rfl⟩⟩
    · rw [hc.of_ok hm]
      exact fun x hx => (Option.some.inj hx).symm

theorem evaluateOn_told (s : Service) (patience : Patience) (accept : String) (formula : Bytes) (gs : List Graph) :
    ∃ c v, s.Told true (s.evaluateOn patience accept formula gs) c v := by
  obtain ⟨c, hevents, hc⟩ := s.compiler.compile_events (!patience.waits) formula
  unfold evaluateOn
  dsimp only
  split
  · rename_i f hf
    exact ⟨c, none, told_error hevents (late_refuse f) (fun h => by cases h)
      (fun hbroken => hc.of_breaksOff hf (refuseAs_eq_brokenOff.mp hbroken)) (.compile _ _)⟩
  rename_i m hm
  have hcompiled : ∀ x ∈ c.map Trace.Compilation.failure, x = none := by
    rw [hc.of_ok hm]
    exact fun x hx => (Option.some.inj hx).symm
  split
  · rename_i f hf
    exact ⟨c, none, told_error hevents (late_refuse f) (fun h => by cases h) (fun _ => hcompiled) (.compile _ _)⟩
  rename_i input hinput
  obtain ⟨v, hsettled, hv⟩ := Evaluator.answer_events s.maxIterations patience.spent m (some input)
  refine ⟨c, v, ?_, fun _ => hc.of_ok hm, fun e he => ?_, fun _ htold => ?_, fun hbroken => ⟨hcompiled, ?_⟩, .compile _ _⟩
  · rw [hevents, hsettled]
  · dsimp only at he
    split at he
    · exact Except.error.inj he ▸ late_refuse _
    · cases he
  · rw [if_pos rfl]
    cases hresult : (Evaluator.answer s.maxIterations patience.spent m (some input)).result with
    | error f =>
      rw [hresult] at htold
      refine iff_of_false (fun ⟨_, h⟩ => (by cases h)) (hv.of_error hresult fun h => htold ?_)
      exact congrArg Except.error (refuseAs_eq_brokenOff.mpr h)
    | ok labels => exact ⟨fun _ => hv.of_ok hresult, fun _ => ⟨_, rfl⟩⟩
  · cases hresult : (Evaluator.answer s.maxIterations patience.spent m (some input)).result with
    | error f =>
      rw [hresult] at hbroken
      exact hv.of_breaksOff hresult (refuseAs_eq_brokenOff.mp (Except.error.inj hbroken))
    | ok labels =>
      rw [hresult] at hbroken
      cases hbroken

theorem evaluate_told (s : Service) (patience : Patience) (accept : String) (body : Bytes) :
    ∃ c v, s.Told true (s.evaluate patience accept body) c v := by
  unfold evaluate
  split
  · exact ⟨none, none, told_fault _⟩
  split
  · exact ⟨none, none, told_fault _⟩
  dsimp only
  split
  · exact ⟨none, none, told_refused (late_refuseAs (Nat.le_refl 400) _)⟩
  · exact s.evaluateOn_told _ _ _ _

/-- What comes of a request is an evaluation if its path asks for one, and else a compilation if anything. -/
theorem work_told (s : Service) (r : Request) : ∃ c v, s.Told (routeOf r.path == "/evaluate") (s.work r) c v := by
  unfold work
  dsimp only
  split
  · exact ⟨none, none, told_fault _⟩
  rename_i hroute
  split
  · exact ⟨none, none, told_fault _⟩
  split
  · exact ⟨none, none, told_fault _⟩
  split
  · rename_i hcompile
    rw [eq_of_beq hcompile]
    exact s.compile_told _ _
  · rename_i hcompile
    have hevaluate : (routeOf r.path == "/evaluate") = true := by
      rcases routeOf_cases r.path with ⟨hnone, -⟩ | ⟨hpath, hcompiled | hevaluated⟩
      · rw [hnone] at hroute
        exact absurd rfl hroute
      · rw [hpath, hcompiled] at hcompile
        exact absurd rfl hcompile
      · rw [hpath, hevaluated]
        rfl
    rw [hevaluate]
    exact s.evaluate_told _ _ _

end

/-! ## What is asked for -/

/-- A body has the text of a formula that compiles. -/
def Compiles (s : Service) (patience : Patience) (body : Bytes) : Prop :=
  ∃ q m, Query.ofBody body = .ok q ∧ (s.compiler.compile (!patience.waits) (Bytes.ofString q.formula)).result = .ok m

/-- A body has the text of a formula that compiles, and graphs on which its model is evaluated. -/
def Evaluates (s : Service) (patience : Patience) (body : Bytes) : Prop :=
  ∃ q gs m input labels, Query.ofBody body = .ok q ∧ q.graphs.isSome = true ∧ s.graphsOf q = .ok gs ∧
    (s.compiler.compile (!patience.waits) (Bytes.ofString q.formula)).result = .ok m ∧ s.compiler.settings.input.prepare gs = .ok input ∧
    (Evaluator.answer s.maxIterations patience.spent m (some input)).result = .ok labels

/-- What a request asks for comes about. -/
def Granted (s : Service) (r : Request) : Prop :=
  r.method = "POST" ∧ ∃ body, r.receive s.options.maxBody = .ok body ∧
    (r.path = "/compile" ∧ s.Compiles r.patience body ∨ r.path = "/evaluate" ∧ s.Evaluates r.patience body)

section

variable {s : Service} {patience : Patience} {body : Bytes}

theorem compile_ok_iff (hrenders : s.Renders) :
    (∃ content, (s.compile patience body).result = .ok content) ↔ s.Compiles patience body := by
  unfold compile
  constructor
  · rintro ⟨content, h⟩
    split at h
    · cases h
    rename_i q hq
    dsimp only at h
    split at h
    · cases h
    · rename_i m hm
      exact ⟨q, m, hq, hm⟩
  · rintro ⟨q, m, hq, hm⟩
    obtain ⟨summary, hsummary⟩ := Option.isSome_iff_exists.mp (hrenders _ _ m hm)
    simp only [hq, hm, modelContent, hsummary, Except.ok.injEq, exists_eq']

theorem evaluate_ok_iff {accept : String} :
    (∃ content, (s.evaluate patience accept body).result = .ok content) ↔ s.Evaluates patience body := by
  unfold evaluate
  constructor
  · rintro ⟨content, h⟩
    split at h
    · cases h
    rename_i q hq
    split at h
    · cases h
    rename_i j hj
    dsimp only at h
    split at h
    · cases h
    rename_i gs hgs
    unfold evaluateOn at h
    dsimp only at h
    split at h
    · cases h
    rename_i m hm
    split at h
    · cases h
    rename_i input hinput
    cases hlabels : (Evaluator.answer s.maxIterations patience.spent m (some input)).result with
    | error f =>
      rw [hlabels] at h
      cases h
    | ok labels =>
      rw [← hj] at hgs
      exact ⟨q, gs, m, input, labels, hq, Option.isSome_iff_exists.mpr ⟨j, hj⟩, hgs, hm, hinput, hlabels⟩
  · rintro ⟨q, gs, m, input, labels, hq, hj, hgs, hm, hinput, hlabels⟩
    obtain ⟨j, hj⟩ := Option.isSome_iff_exists.mp hj
    rw [graphsOf, hj] at hgs
    simp only [hq, hj, hgs, evaluateOn, hm, hinput, hlabels, Except.ok.injEq, exists_eq']

/-- There is a result exactly if what is asked for has come about. -/
theorem work_ok_iff (hrenders : s.Renders) (r : Request) : (∃ content, (s.work r).result = .ok content) ↔ s.Granted r := by
  unfold work
  dsimp only
  constructor
  · rintro ⟨content, h⟩
    split at h
    · cases h
    rename_i hroute
    split at h
    · cases h
    rename_i hmethod
    split at h
    · cases h
    rename_i body hbody
    refine ⟨by simpa using hmethod, body, hbody, ?_⟩
    rcases routeOf_cases r.path with ⟨hnone, -⟩ | ⟨hpath, hcompile | hevaluate⟩
    · rw [hnone] at hroute
      exact absurd rfl hroute
    · rw [hpath, hcompile, if_pos (by decide)] at h
      exact .inl ⟨hcompile, (compile_ok_iff hrenders).mp ⟨content, h⟩⟩
    · rw [hpath, hevaluate, if_neg (by decide)] at h
      exact .inr ⟨hevaluate, evaluate_ok_iff.mp ⟨content, h⟩⟩
  · rintro ⟨hmethod, body, hbody, hasked⟩
    have hpost : ¬(r.method != "POST") = true := by
      rw [hmethod]
      decide
    rcases hasked with ⟨hpath, hcompiles⟩ | ⟨hpath, hevaluates⟩
    · rw [hpath, if_neg (by decide), if_neg hpost, hbody]
      exact (compile_ok_iff hrenders).mpr hcompiles
    · rw [hpath, if_neg (by decide), if_neg hpost, hbody]
      exact evaluate_ok_iff.mpr hevaluates

end

/-! ## Requests -/

section

variable {s : Service} {run : Nat} {r : Request} {c : Option Trace.Compilation} {v : Option Trace.Evaluation}

/-- A question about what is allowed begins nothing. -/
theorem work_options_events (h : (r.method == "OPTIONS") = true) : (s.work r).events = [] := by
  unfold work
  dsimp only
  split
  · rfl
  · rw [eq_of_beq h]
    rfl

/-- The status that is reported: that of the response, or where there is none, the one that a request has before anything else is known
of it. -/
def reportOf (response? : Option Response) : Nat :=
  (response?.map Response.status).getD firstStatus

/-- The reports of a request are those of its work between its start and its finish. -/
theorem handle_reports_eq (s : Service) (run : Nat) (r : Request) : (s.handle run r).reports =
    (Event.requestStart r.method r.path (routeOf r.path) :: ((s.work r).events ++
      [.requestFinish r.method r.path (routeOf r.path) (reportOf (s.handle run r).response)])).map (Report.mk run) := by
  unfold reportOf handle
  dsimp only
  split
  · rename_i hoptions
    rw [work_options_events hoptions]
    rfl
  · rw [Option.map_map]
    rcases (s.work r).result with (fault | ⟨status, f⟩ | _) | (j | bs) <;> rfl

/-- The visit of a request is what its work tells. -/
theorem handle_reports_of_told {evaluates : Bool} (h : s.Told evaluates (s.work r) c v) : (s.handle run r).reports =
    Trace.Visit.reports ⟨run, r.method, r.path, routeOf r.path, c, v, reportOf (s.handle run r).response⟩ := by
  rw [handle_reports_eq, h.events_eq, List.append_assoc]
  rfl

/-- Answering a request reports a visit under the request's run id. -/
theorem handle_reports (s : Service) (run : Nat) (r : Request) : ∃ q : Trace.Visit, q.run = run ∧ (s.handle run r).reports = q.reports := by
  obtain ⟨c, v, h⟩ := s.work_told r
  exact ⟨_, rfl, handle_reports_of_told h⟩

/-- There is no response exactly if the work breaks off. -/
theorem handle_none_iff : (s.handle run r).response = none ↔ (s.work r).result = .error .brokenOff := by
  rw [← Option.map_eq_none_iff (f := Response.status), handle_status]
  cases hoptions : r.method == "OPTIONS" with
  | true =>
    obtain ⟨fault, hfault⟩ := s.work_options hoptions
    rw [if_pos rfl, hfault]
    exact iff_of_false nofun nofun
  | false =>
    rw [if_neg (by simp)]
    rcases (s.work r).result with (fault | ⟨status, f⟩ | _) | content
    · exact iff_of_false nofun nofun
    · exact iff_of_false nofun nofun
    · exact iff_of_true rfl rfl
    · exact iff_of_false nofun nofun

/-- A response is that of a success exactly if there is a result. -/
theorem handle_ok_iff {evaluates : Bool} (h : s.Told evaluates (s.work r) c v) {response : Response}
    (hresponse : (s.handle run r).response = some response) : response.status = 200 ↔ ∃ content, (s.work r).result = .ok content := by
  have hstatus := s.handle_status run r
  rw [hresponse] at hstatus
  cases hoptions : r.method == "OPTIONS" with
  | true =>
    obtain ⟨fault, hfault⟩ := s.work_options hoptions
    rw [hoptions, if_pos rfl] at hstatus
    rw [Option.some.inj hstatus, hfault]
    exact iff_of_false (by decide) (fun ⟨_, h⟩ => (by cases h))
  | false =>
    rw [hoptions, if_neg (by simp)] at hstatus
    cases hresult : (s.work r).result with
    | ok content =>
      rw [hresult] at hstatus
      exact iff_of_true (Option.some.inj hstatus) ⟨content, rfl⟩
    | error e =>
      rw [hresult] at hstatus
      have hlate := h.refused e hresult _ hstatus.symm
      exact iff_of_false (by omega) (fun ⟨_, h⟩ => (by cases h))

/-- Answering a request leaves a compiler that can be reached. -/
theorem handle_reachable {ops : Registries} {settings : Settings} (hs : Reachable ops settings s.compiler) :
    Reachable ops settings (s.handle run r).service.compiler := by
  obtain ⟨c, v, h⟩ := s.work_told r
  unfold handle
  dsimp only
  split
  · exact hs
  · exact h.kept hs

theorem handle_runId {response : Response} (h : (s.handle run r).response = some response) : response.runId = some run := by
  unfold handle at h
  dsimp only at h
  split at h
  · rw [← Option.some.inj h]
  · obtain ⟨_, -, rfl⟩ := Option.map_eq_some_iff.mp h
    rfl

end

end Service

open Compiler Service

/-- The reports of a request and its response say the same. Between the start and the finish at most one compilation is reported and then
at most one evaluation, and this only of what has been compiled without a failure; all of them carry the run id of the request. If there is
a response, it has the same run id, its status is the one that is reported, and this is that of a success exactly if what is asked for has
come about, which is exactly if it is reported without a failure. There is none exactly if the work breaks off: then what is asked for has
not come about, and still the status of a success and no failure at all are reported. The same is then true of the next request. -/
theorem Service.handle_traced {ops : Registries} {settings : Settings} {s : Service} (hs : Reachable ops settings s.compiler) (run : Nat)
    (r : Request) :
    ∃ (c : Option Trace.Compilation) (v : Option Trace.Evaluation) (status : Nat),
      (s.handle run r).reports = Trace.Visit.reports ⟨run, r.method, r.path, routeOf r.path, c, v, status⟩ ∧
      (v.isSome = true → c.map Trace.Compilation.failure = some none) ∧
      (∀ response, (s.handle run r).response = some response → response.runId = some run ∧ response.status = status ∧
        (status = 200 ↔ s.Granted r) ∧
        (status = 200 ↔
          (if r.path = "/evaluate" then v.map Trace.Evaluation.failure else c.map Trace.Compilation.failure) = some none)) ∧
      ((s.handle run r).response = none ↔ (s.work r).result = .error .brokenOff) ∧
      ((s.handle run r).response = none → status = 200 ∧ ¬ s.Granted r ∧ (∀ x ∈ c.map Trace.Compilation.failure, x = none) ∧
        ∀ x ∈ v.map Trace.Evaluation.failure, x = none) ∧
      Reachable ops settings (s.handle run r).service.compiler := by
  have hrenders : s.Renders := fun canceled formula m hm => compile_summary hs hm
  obtain ⟨c, v, htold⟩ := s.work_told r
  refine ⟨c, v, _, handle_reports_of_told htold, htold.compiled, fun response hresponse => ?_, handle_none_iff, fun hnone => ?_,
    handle_reachable hs⟩
  · have hwritten : (s.work r).result ≠ .error .brokenOff := fun hbroken => by
      cases hresponse.symm.trans (handle_none_iff.mpr hbroken)
    have hreport : reportOf (s.handle run r).response = response.status := by rw [hresponse]; rfl
    rw [hreport]
    refine ⟨handle_runId hresponse, rfl, ?_, ?_⟩
    · rw [handle_ok_iff htold hresponse, work_ok_iff hrenders]
    · rw [handle_ok_iff htold hresponse, htold.granted hrenders hwritten]
      simp only [beq_iff_eq, routeOf_eq_evaluate]
  · refine ⟨by rw [hnone]; rfl, fun hgranted => ?_, htold.broken (handle_none_iff.mp hnone)⟩
    obtain ⟨content, hcontent⟩ := (work_ok_iff hrenders r).mpr hgranted
    cases (handle_none_iff.mp hnone).symm.trans hcontent

/-- The formula `a` is compiled as it is asked for, which the response says. -/
theorem Service.handle_traced_sample : Reachable Builtin.registries Sample.twoBases Sample.service.compiler ∧
    Sample.service.Granted (Sample.compileRequest "\x7b\"formula\":\"a\"\x7d") := by
  have hreach : Reachable Builtin.registries Sample.twoBases Sample.service.compiler := .new Sample.newCompiler_new
  obtain ⟨c, v, status, -, -, hresponse, -⟩ := Service.handle_traced hreach 7 (Sample.compileRequest "\x7b\"formula\":\"a\"\x7d")
  have hstatus : (Sample.service.handle 7 (Sample.compileRequest "\x7b\"formula\":\"a\"\x7d")).response.map Response.status = some 200 := by
    decide +kernel
  obtain ⟨response, hsome, hok⟩ := Option.map_eq_some_iff.mp hstatus
  obtain ⟨-, heq, hgranted, -⟩ := hresponse response hsome
  exact ⟨hreach, hgranted.mp (heq.symm.trans hok)⟩

namespace Sample

/-- An operator that asks for room that is not there. -/
def greedy : Psi :=
  ⟨fun _ => .error .aborted, fun _ _ => .error .aborted, id, false⟩

/-- A service that knows this operator. -/
def greedyService : Service :=
  ⟨Compiler.fresh ⟨Builtin.psi.insert (Bytes.ofString "greedy") fun _ => .ok greedy, Builtin.sigma, Builtin.phi⟩ twoBases, 0, {}⟩

/-- A request to evaluate it on a graph of one node. -/
def greedyRequest : Request :=
  { compileRequest "\x7b\"formula\":\"greedy\",\"graphs\":\x7b\"x\":[[1]],\"edges\":[]\x7d\x7d" with
    target := { path := "/evaluate", written := "/evaluate", query := "" } }

end Sample

/-- Where an operator breaks off nothing is written, and the status of a success is reported. -/
theorem Service.handle_breaks_off : (Sample.greedyService.handle 7 Sample.greedyRequest).response = none ∧
    (Sample.greedyService.handle 7 Sample.greedyRequest).reports.getLast? =
      some ⟨7, .requestFinish "POST" "/evaluate" "/evaluate" 200⟩ := by
  have hnone : (Sample.greedyService.handle 7 Sample.greedyRequest).response = none := by
    rw [← Option.map_eq_none_iff (f := Response.status)]
    decide +kernel
  refine ⟨hnone, ?_⟩
  rw [handle_reports_eq, hnone, List.getLast?_map, ← List.cons_append, List.getLast?_append]
  rfl

end ModalGraph
