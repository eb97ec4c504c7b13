import ModalGraph.Proofs.Trace.Spans

/-!
# Requests at the same time

A visit is what one request reports from its start to its finish: perhaps a compilation and perhaps an evaluation, which reports
its fixpoints as they settle. Visits of different runs may go on at the same time, so that their reports come in any order
in which each visit's own reports stay in theirs (`Interleaves`). Once all have come, every span has ended, the spans of a visit are
the ones it would have had alone, and they are inside the span of its own request (`spans_of_visits`).
-/

namespace ModalGraph

namespace Trace

/-! ## What a visit reports -/

/-- A compilation that is reported. -/
structure Compilation where
  formula : Bytes
  mode : String
  created : Nat
  reused : Nat
  layers : Nat
  failure : Option Failure

/-- A fixpoint that is reported to have settled. -/
structure Settled where
  key : Bytes
  least : Bool
  iterations : Nat

/-- An evaluation that is reported. -/
structure Evaluation where
  formula : Bytes
  nodes : Int
  graphs : Nat
  fixpoints : List Settled
  failure : Option Failure

/-- A request that is reported. -/
structure Visit where
  run : Nat
  method : String
  path : String
  route : String
  compilation : Option Compilation
  evaluation : Option Evaluation
  status : Nat

namespace Compilation

def events (c : Compilation) : List Event :=
  [.compileStart c.formula c.mode, .compileFinish c.formula c.mode c.created c.reused c.layers c.failure]

/-- The span of a compilation, at its end. -/
def span (c : Compilation) (run id parent : Nat) : Span :=
  Span.finish
    { id := id, run := run, name := "mgc.compile", parent := some parent
      attributes := [("mgc.formula", c.formula.toText), ("mgc.mode", c.mode), ("mgc.nodes.created", toString c.created),
        ("mgc.nodes.reused", toString c.reused), ("mgc.layers", toString c.layers)] }
    c.failure

end Compilation

namespace Settled

def event (f : Settled) : Event :=
  .fixpointConverged f.key f.least f.iterations

/-- The event that a fixpoint leaves in a span. -/
def spanEvent (f : Settled) : SpanEvent :=
  ⟨"fixpoint.converged", [("mgc.fixpoint", f.key.toText), ("mgc.fixpoint.least", Trace.boolText f.least),
    ("mgc.fixpoint.iterations", toString f.iterations)]⟩

end Settled

namespace Evaluation

def events (v : Evaluation) : List Event :=
  .evaluateStart v.formula v.nodes v.graphs ::
    (v.fixpoints.map Settled.event ++ [.evaluateFinish v.formula v.nodes v.graphs v.failure])

/-- The span of an evaluation that starts. -/
def opened (v : Evaluation) (run id parent : Nat) : Span :=
  { id := id, run := run, name := "mgc.evaluate", parent := some parent
    attributes := [("mgc.formula", v.formula.toText), ("mgc.graph.nodes", toString v.nodes), ("mgc.graphs", toString v.graphs)] }

/-- The span of an evaluation, at its end: every fixpoint has been added to it. -/
def span (v : Evaluation) (run id parent : Nat) : Span :=
  ((v.fixpoints.map Settled.spanEvent).foldl Span.addEvent (v.opened run id parent)).finish v.failure

/-- The span of an evaluation has an event for each of its fixpoints, in the order in which they settled, and one for its failure: all of
them, or the latest if they are too many for a span. -/
theorem events_span (v : Evaluation) (run id parent : Nat) {all : List SpanEvent}
    (hall : all = v.fixpoints.map Settled.spanEvent ++ v.failure.elim [] fun f => [⟨"exception", [("exception.message", f.message)]⟩]) :
    (v.span run id parent).events = all.drop (all.length - Span.maxEvents) := by
  have hopened : (v.opened run id parent).events.length ≤ Span.maxEvents := Nat.zero_le _
  have hadded := events_foldl_addEvent all hopened
  have hnone : (v.opened run id parent).events = [] := rfl
  rw [hnone, List.nil_append] at hadded
  rw [← hadded, hall, List.foldl_append, span, events_finish]

end Evaluation

namespace Visit

def events (q : Visit) : List Event :=
  .requestStart q.method q.path q.route ::
    (q.compilation.elim [] Compilation.events ++
      (q.evaluation.elim [] Evaluation.events ++ [.requestFinish q.method q.path q.route q.status]))

/-- What a visit reports, from first to last. -/
def reports (q : Visit) : List Report :=
  q.events.map (Report.mk q.run)

/-- The span of a request that starts. -/
def opened (q : Visit) (id : Nat) : Span :=
  { id := id, run := q.run, name := "http.request", parent := none
    attributes := [("http.method", q.method), ("http.target", q.path), ("http.route", q.route)] }

/-- The span of a request, at its end. -/
def span (q : Visit) (id : Nat) : Span :=
  { q.opened id with attributes := (q.opened id).attributes ++ [("http.status_code", toString q.status)] }

/-- The spans of a visit in the order of their ends: those of its compilation and its evaluation are inside that of the request. -/
def spans (q : Visit) (request compilation evaluation : Nat) : List Span :=
  (q.compilation.elim [] fun c => [c.span q.run compilation request]) ++
    (q.evaluation.elim [] fun v => [v.span q.run evaluation request]) ++ [q.span request]

/-- What a visit starts. -/
def subjects (q : Visit) : List Subject :=
  .request q.run :: ((q.compilation.elim [] fun c => [.compilation q.run c.formula]) ++
    q.evaluation.elim [] fun _ => [.evaluation q.run])

theorem run_of_mem_reports {q : Visit} {r : Report} (h : r ∈ q.reports) : r.run = q.run := by
  obtain ⟨e, -, rfl⟩ := List.mem_map.mp h
  rfl

theorem run_of_mem_subjects {q : Visit} {w : Subject} (h : w ∈ q.subjects) : w.run = q.run := by
  rcases List.mem_cons.mp h with rfl | h
  · rfl
  rcases List.mem_append.mp h with h | h
  · cases hc : q.compilation <;> simp only [hc, Option.elim, List.not_mem_nil, List.mem_singleton] at h
    rw [h, Subject.run]
  · cases hv : q.evaluation <;> simp only [hv, Option.elim, List.not_mem_nil, List.mem_singleton] at h
    rw [h, Subject.run]

theorem map_event_reports (q : Visit) : q.reports.map Report.event = q.events := by
  rw [reports, List.map_map]
  exact List.map_id _

theorem starts_settled (run : Nat) (fs : List Settled) :
    ((fs.map Settled.event).map (Report.mk run)).filterMap Report.starts? = [] := by
  rw [List.filterMap_eq_nil_iff]
  intro r hr
  rw [List.map_map] at hr
  obtain ⟨f, -, rfl⟩ := List.mem_map.mp hr
  rfl

theorem starts_reports (q : Visit) : q.reports.filterMap Report.starts? = q.subjects := by
  have hcompilation : ((q.compilation.elim [] Compilation.events).map (Report.mk q.run)).filterMap Report.starts? =
      q.compilation.elim [] fun c => [.compilation q.run c.formula] := by
    cases q.compilation <;> rfl
  have hevaluation : ((q.evaluation.elim [] Evaluation.events).map (Report.mk q.run)).filterMap Report.starts? =
      q.evaluation.elim [] fun _ => [.evaluation q.run] := by
    cases q.evaluation with
    | none => rfl
    | some v =>
      simp only [Option.elim, Evaluation.events, List.map_cons, List.map_append, List.filterMap_cons, List.filterMap_append,
        starts_settled]
      rfl
  simp only [reports, events, List.map_cons, List.map_append, List.filterMap_cons, List.filterMap_append, hcompilation, hevaluation,
    subjects]
  simp [Report.starts?]

/-- A visit starts nothing twice. -/
theorem nodup_subjects (q : Visit) : q.subjects.Nodup := by
  rw [subjects]
  cases q.compilation <;> cases q.evaluation <;> simp

end Visit

/-! ## The spans of a visit on its own -/

section

variable {run : Nat} {t : Trace} {es : List Event} {s : Span} {m : Nat} {ended : List Span}

theorem put_nil {κ : Type} [BEq κ] (key : κ) (s : Span) : put key s [] = [(key, s)] := rfl

theorem put_self (s v : Span) : put run s [(run, v)] = [(run, s)] := by
  simp [put]

theorem drop_self {κ : Type} [BEq κ] [LawfulBEq κ] (key : κ) (s : Span) : drop key [(key, s)] = [] := by
  simp [drop]

theorem record_settled (f : Settled) {v : Span} (h : t.evaluations = [(run, v)]) :
    t.record ⟨run, f.event⟩ = { t with evaluations := [(run, v.addEvent f.spanEvent)] } := by
  simp only [record, Settled.event, h, List.lookup_cons_self, put_self, Settled.spanEvent]

/-- A request that starts opens its span. -/
theorem Takes.opened {q : Visit} (h : Takes q.run { started := m } (.requestStart q.method q.path q.route :: es) t) :
    ∃ m' id, Takes q.run ⟨m', [(q.run, q.opened id)], [], [], []⟩ es t := by
  obtain ⟨id, h⟩ := h.cons
  exact ⟨id + 1, id, h⟩

/-- A compilation inside an open request ends in its span. -/
theorem Takes.compilation {c : Compilation} (h : Takes run ⟨m, [(run, s)], [], [], ended⟩ (c.events ++ es) t) :
    ∃ m' id, Takes run ⟨m', [(run, s)], [], [], ended ++ [c.span run id s.id]⟩ es t := by
  obtain ⟨id, h⟩ := h.cons
  obtain ⟨m', h⟩ := h.cons
  refine ⟨m', id, ?_⟩
  simp only [record, parent, start, put_nil, List.lookup_cons_self, drop_self] at h
  exact h

/-- The fixpoints of an evaluation are added to its open span. -/
theorem Takes.settled (fs : List Settled) :
    ∀ {m : Nat} {v : Span}, Takes run ⟨m, [(run, s)], [], [(run, v)], ended⟩ (fs.map Settled.event ++ es) t →
      ∃ m', Takes run ⟨m', [(run, s)], [], [(run, (fs.map Settled.spanEvent).foldl Span.addEvent v)], ended⟩ es t := by
  induction fs with
  | nil => exact fun {m _} h => ⟨m, h⟩
  | cons f fs ih =>
    intro m v h
    obtain ⟨m', h⟩ := h.cons
    rw [record_settled f rfl] at h
    rw [List.map_cons, List.foldl_cons]
    exact ih h

/-- An evaluation inside an open request ends in its span. -/
theorem Takes.evaluation {v : Evaluation} (h : Takes run ⟨m, [(run, s)], [], [], ended⟩ (v.events ++ es) t) :
    ∃ m' id, Takes run ⟨m', [(run, s)], [], [], ended ++ [v.span run id s.id]⟩ es t := by
  rw [Evaluation.events, List.cons_append, List.append_assoc] at h
  obtain ⟨id, h⟩ := h.cons
  have hopen : Takes run ⟨id + 1, [(run, s)], [], [(run, v.opened run id s.id)], ended⟩
      (v.fixpoints.map Settled.event ++ .evaluateFinish v.formula v.nodes v.graphs v.failure :: es) t := by
    simp only [record, parent, start, put_nil, List.lookup_cons_self] at h
    exact h
  obtain ⟨_, hsettled⟩ := hopen.settled
  obtain ⟨m', h⟩ := hsettled.cons
  simp only [record, List.lookup_cons_self, drop_self] at h
  exact ⟨m', id, h⟩

/-- A visit leaves its spans, and none of them open. -/
theorem Takes.visit {q : Visit} (h : Takes q.run { started := m } q.events t) :
    ∃ n i j k, t = { started := n, ended := q.spans i j k } := by
  obtain ⟨_, i, h⟩ := h.opened
  have hcompiled : ∃ m' j, Takes q.run ⟨m', [(q.run, q.opened i)], [], [], q.compilation.elim [] fun c => [c.span q.run j i]⟩
      (q.evaluation.elim [] Evaluation.events ++ [.requestFinish q.method q.path q.route q.status]) t := by
    cases hc : q.compilation with
    | none =>
      rw [hc] at h
      exact ⟨_, 0, h⟩
    | some c =>
      rw [hc] at h
      exact h.compilation
  obtain ⟨_, j, h⟩ := hcompiled
  have hevaluated : ∃ m' k, Takes q.run ⟨m', [(q.run, q.opened i)], [], [],
      (q.compilation.elim [] fun c => [c.span q.run j i]) ++ q.evaluation.elim [] fun v => [v.span q.run k i]⟩
      [.requestFinish q.method q.path q.route q.status] t := by
    cases hv : q.evaluation with
    | none =>
      rw [hv] at h
      exact ⟨_, 0, by rwa [Option.elim, List.append_nil]⟩
    | some v =>
      rw [hv] at h
      exact h.evaluation
  obtain ⟨_, k, h⟩ := hevaluated
  obtain ⟨n, h⟩ := h.cons
  simp only [record, List.lookup_cons_self, drop_self] at h
  exact ⟨n, i, j, k, h.nil⟩

end

end Trace

/-! ## Visits at the same time -/

/-- A list takes the elements of some sequences, those of each sequence in its order. -/
inductive Interleaves {α : Type} : List (List α) → List α → Prop where
  | done {ls : List (List α)} : (∀ l ∈ ls, l = []) → Interleaves ls []
  | next {ls : List (List α)} {a : α} {l rest : List α} (i : Nat) :
      ls[i]? = some (a :: l) → Interleaves (ls.set i l) rest → Interleaves ls (a :: rest)

namespace Interleaves

variable {α : Type} {ls : List (List α)} {rs : List α}

theorem flatten_perm {a : α} {l : List α} {i : Nat} (h : ls[i]? = some (a :: l)) : ls.flatten.Perm (a :: (ls.set i l).flatten) := by
  induction ls generalizing i with
  | nil => cases h
  | cons l₀ ls ih =>
    cases i with
    | zero =>
      obtain rfl := Option.some.inj h
      exact .refl _
    | succ i =>
      rw [List.set_cons_succ, List.flatten_cons, List.flatten_cons]
      exact ((ih h).append_left l₀).trans List.perm_middle

theorem perm (h : Interleaves ls rs) : rs.Perm ls.flatten := by
  induction h with
  | done h => rw [List.flatten_eq_nil_iff.mpr h]
  | next i hget _ ih => exact (ih.cons _).trans (flatten_perm hget).symm

/-- Sequences whose elements have keys of their own can be told apart again. -/
theorem filter_key {key : α → Nat} {keys : List Nat} (hnodup : keys.Nodup) (h : Interleaves ls rs) (hlen : ls.length = keys.length)
    (hkeys : ∀ {i : Nat} {l : List α} {k : Nat}, ls[i]? = some l → keys[i]? = some k → ∀ a ∈ l, key a = k) {i : Nat} {l : List α}
    {k : Nat} (hl : ls[i]? = some l) (hk : keys[i]? = some k) : rs.filter (fun a => key a == k) = l := by
  induction h generalizing l with
  | done h => rw [h l (List.mem_of_getElem? hl), List.filter_nil]
  | @next ls a l' rest j hget _ ih =>
    have hj : j < ls.length := (List.getElem?_eq_some_iff.mp hget).1
    have hset : ∀ {i : Nat} {l : List α} {k : Nat}, (ls.set j l')[i]? = some l → keys[i]? = some k → ∀ a ∈ l, key a = k := by
      intro i l k hl hk b hb
      by_cases hij : j = i
      · subst hij
        rw [List.getElem?_set_self hj] at hl
        obtain rfl := Option.some.inj hl
        exact hkeys hget hk b (List.mem_cons_of_mem _ hb)
      · rw [List.getElem?_set_ne hij] at hl
        exact hkeys hl hk b hb
    have hrest : ∀ {l : List α}, (ls.set j l')[i]? = some l → rest.filter (fun a => key a == k) = l :=
      ih (List.length_set.trans hlen) hset
    by_cases hij : j = i
    · subst hij
      obtain rfl := Option.some.inj (hl.symm.trans hget)
      rw [List.filter_cons, if_pos (beq_iff_eq.mpr (hkeys hget hk a List.mem_cons_self)), hrest (List.getElem?_set_self hj)]
    · have hne : key a ≠ k := by
        rintro rfl
        have hkj : keys[j]? = some keys[j] := List.getElem?_eq_getElem (hlen ▸ hj)
        have hkey := hkeys hget hkj a List.mem_cons_self
        rw [hkey, ← hkj] at hk
        exact hij ((List.getElem?_inj (hlen ▸ hj) hnodup).mp hk.symm)
      rw [List.filter_cons, if_neg (by simpa using hne)]
      exact hrest ((List.getElem?_set_ne hij).trans hl)

end Interleaves

open Trace

/-- A trace in which some visits are over: no span is open, every span that was started has ended once, and those of a run are the
spans of its visit. -/
structure Trace.Covers (t : Trace) (qs : List Visit) : Prop where
  closed : t.requests = [] ∧ t.compiles = [] ∧ t.evaluations = []
  once : (t.ended.map Span.id).Perm (List.range t.started)
  known : ∀ s ∈ t.ended, ∃ q ∈ qs, s.run = q.run
  spans : ∀ q ∈ qs, ∃ request compilation evaluation,
    t.ended.filter (fun s => s.run == q.run) = q.spans request compilation evaluation

namespace VisitsAux

variable {qs : List Visit} {rs : List Report}

theorem mem_reports (h : Interleaves (qs.map Visit.reports) rs) {r : Report} : r ∈ rs ↔ ∃ q ∈ qs, r ∈ q.reports := by
  rw [h.perm.mem_iff, ← List.flatMap_def, List.mem_flatMap]

theorem filter_run (hruns : (qs.map Visit.run).Nodup) (h : Interleaves (qs.map Visit.reports) rs) {q : Visit} (hq : q ∈ qs) :
    rs.filter (fun r => r.run == q.run) = q.reports := by
  obtain ⟨i, hi, rfl⟩ := List.getElem_of_mem hq
  refine h.filter_key hruns (by rw [List.length_map, List.length_map]) (fun hl hk r hr => ?_) (i := i) ?_ ?_
  · rw [List.getElem?_map, Option.map_eq_some_iff] at hl hk
    obtain ⟨q, hq, rfl⟩ := hl
    obtain ⟨q', hq', rfl⟩ := hk
    obtain rfl := Option.some.inj (hq.symm.trans hq')
    exact Visit.run_of_mem_reports hr
  · rw [List.getElem?_map, List.getElem?_eq_getElem hi, Option.map_some]
  · rw [List.getElem?_map, List.getElem?_eq_getElem hi, Option.map_some]

/-- Visits of different runs start no work twice. -/
theorem starts_nodup (hruns : (qs.map Visit.run).Nodup) (h : Interleaves (qs.map Visit.reports) rs) :
    (rs.filterMap Report.starts?).Nodup := by
  have hperm := h.perm.filterMap Report.starts?
  rw [← List.flatMap_def, List.filterMap_flatMap] at hperm
  simp only [Visit.starts_reports] at hperm
  rw [hperm.nodup_iff, List.nodup_flatMap]
  refine ⟨fun q _ => q.nodup_subjects, (List.pairwise_map.mp hruns).imp fun hne w hw hw' => hne ?_⟩
  exact (Visit.run_of_mem_subjects hw).symm.trans (Visit.run_of_mem_subjects hw')

end VisitsAux

open VisitsAux in
/-- Whatever order the reports of visits of different runs come in: when all have come, every span has ended, each just once, the
spans of a compilation and an evaluation are inside that of their own request, and the fixpoints of an evaluation have been added to
its own span. -/
theorem spans_of_visits {qs : List Visit} (hruns : (qs.map Visit.run).Nodup) {rs : List Report}
    (h : Interleaves (qs.map Visit.reports) rs) : (rs.foldl Trace.record {}).Covers qs := by
  have hnodup := starts_nodup hruns h
  have hbalanced := Trace.Balanced.new.foldl rs hnodup
  rw [List.nil_append] at hbalanced
  have hrun : ∀ w ∈ rs.filterMap Report.starts?, ∃ q ∈ qs, w.run = q.run := by
    intro w hw
    obtain ⟨r, hr, hstarts⟩ := List.mem_filterMap.mp hw
    obtain ⟨q, hq, hr⟩ := (mem_reports h).mp hr
    exact ⟨q, hq, (Report.run_of_starts? hstarts).trans (Visit.run_of_mem_reports hr)⟩
  have hown : ∀ q ∈ qs, ∃ n i j k, (rs.foldl Trace.record {}).of q.run = { started := n, ended := q.spans i j k } := by
    intro q hq
    obtain ⟨t, n, htakes, hof⟩ := Trace.foldl_of q.run rs Trace.Balanced.new hnodup
    rw [filter_run hruns h hq, q.map_event_reports] at htakes
    obtain ⟨_, i, j, k, rfl⟩ := Trace.Takes.visit (m := 0) htakes
    exact ⟨n, i, j, k, hof⟩
  have hempty : ∀ {κ : Type} (runOf : κ → Nat) {spans : List (κ × Span)}, (∀ e ∈ spans, ∃ q ∈ qs, runOf e.1 = q.run) →
      (∀ q ∈ qs, Trace.only runOf q.run spans = []) → spans = [] := by
    intro κ runOf spans hrun honly
    refine List.eq_nil_iff_forall_not_mem.mpr fun e he => ?_
    obtain ⟨q, hq, heq⟩ := hrun e he
    have hmem : e ∈ Trace.only runOf q.run spans := List.mem_filter.mpr ⟨he, beq_iff_eq.mpr heq⟩
    rw [honly q hq] at hmem
    cases hmem
  have hrequests : (rs.foldl Trace.record {}).requests = [] := by
    refine hempty id (fun e he => hrun _ (hbalanced.requests.past e he)) fun q hq => ?_
    obtain ⟨n, i, j, k, hof⟩ := hown q hq
    exact congrArg Trace.requests hof
  have hcompiles : (rs.foldl Trace.record {}).compiles = [] := by
    refine hempty Prod.fst (fun e he => hrun _ (hbalanced.compiles.past e he)) fun q hq => ?_
    obtain ⟨n, i, j, k, hof⟩ := hown q hq
    exact congrArg Trace.compiles hof
  have hevaluations : (rs.foldl Trace.record {}).evaluations = [] := by
    refine hempty id (fun e he => hrun _ (hbalanced.evaluations.past e he)) fun q hq => ?_
    obtain ⟨n, i, j, k, hof⟩ := hown q hq
    exact congrArg Trace.evaluations hof
  refine ⟨⟨hrequests, hcompiles, hevaluations⟩, hbalanced.ended_perm hrequests hcompiles hevaluations, fun s hs => ?_, fun q hq => ?_⟩
  · obtain ⟨w, hw, hws⟩ := hbalanced.ended s hs
    obtain ⟨q, hq, hwq⟩ := hrun w hw
    exact ⟨q, hq, hws.symm.trans hwq⟩
  · obtain ⟨n, i, j, k, hof⟩ := hown q hq
    exact ⟨i, j, k, congrArg Trace.ended hof⟩

namespace Sample

/-- A request that compiles a formula and evaluates it until it fails. -/
def evaluating : Visit where
  run := 1
  method := "POST"
  path := "/evaluate"
  route := "/evaluate"
  compilation := some ⟨Bytes.ofString "mu X,r.X", "xa", 2, 0, 2, none⟩
  evaluation := some ⟨Bytes.ofString "mu X,r.X", 2, 1, [⟨Bytes.ofString "X", true, 1⟩], some .canceled⟩
  status := 504

/-- A request that does not get the same formula compiled. -/
def compiling : Visit where
  run := 2
  method := "POST"
  path := "/compile"
  route := "/compile"
  compilation := some ⟨Bytes.ofString "mu X,r.X", "xa", 0, 0, 0, some .canceled⟩
  evaluation := none
  status := 504

/-- The reports of the two requests, those of the second one among those of the first. -/
def reports : List Report :=
  match evaluating.reports, compiling.reports with
  | [a₁, a₂, a₃, a₄, a₅, a₆, a₇], [b₁, b₂, b₃, b₄] => [a₁, b₁, b₂, a₂, a₃, a₄, b₃, a₅, b₄, a₆, a₇]
  | _, _ => []

theorem reports_interleaved : Interleaves ([evaluating, compiling].map Visit.reports) reports :=
  .next 0 rfl (.next 1 rfl (.next 1 rfl (.next 0 rfl (.next 0 rfl (.next 0 rfl (.next 1 rfl (.next 0 rfl (.next 1 rfl
    (.next 0 rfl (.next 0 rfl (.done (by simp))))))))))))

end Sample

/-- Two requests that have the same formula compiled at the same time end in spans of their own. -/
theorem spans_of_visits_sample : ([Sample.evaluating, Sample.compiling].map Visit.run).Nodup ∧
    Interleaves ([Sample.evaluating, Sample.compiling].map Visit.reports) Sample.reports ∧
    (Sample.reports.foldl Trace.record {}).Covers [Sample.evaluating, Sample.compiling] := by
  have hruns : ([Sample.evaluating, Sample.compiling].map Visit.run).Nodup := by decide
  exact ⟨hruns, Sample.reports_interleaved, spans_of_visits hruns Sample.reports_interleaved⟩

end ModalGraph
