import Mathlib.Data.List.Nodup
import Mathlib.Data.List.Perm.Basic
import ModalGraph.Trace

/-!
# Open spans

A span is open from the start of a piece of work (`Subject`) to its finish. As long as no work is started twice, every number that was
given to a span is at one place: under the work in the table of its kind, or among the spans that have ended (`Trace.Balanced`).

What a trace holds of one run, `Trace.of`, depends on the reports of that run alone, except for the numbers that its spans get
(`Trace.foldl_of`). So reports may be looked at run by run, in whatever order those of several runs come in.
-/

namespace ModalGraph

/-- What a span covers. -/
inductive Subject where
  | request (run : Nat)
  | compilation (run : Nat) (formula : Bytes)
  | evaluation (run : Nat)
deriving DecidableEq

/-- The run that a piece of work is part of. -/
def Subject.run : Subject → Nat
  | .request run => run
  | .compilation run _ => run
  | .evaluation run => run

/-- The work that a report says has started. -/
def Report.starts? (r : Report) : Option Subject :=
  match r.event with
  | .requestStart .. => some (.request r.run)
  | .compileStart formula _ => some (.compilation r.run formula)
  | .evaluateStart .. => some (.evaluation r.run)
  | _ => none

theorem Report.run_of_starts? {r : Report} {w : Subject} (h : r.starts? = some w) : w.run = r.run := by
  unfold Report.starts? at h
  split at h
  · rw [← Option.some.inj h, Subject.run]
  · rw [← Option.some.inj h, Subject.run]
  · rw [← Option.some.inj h, Subject.run]
  · cases h

namespace Trace

/-! ## Tables of spans -/

section

variable {κ : Type} {key : κ} {s : Span} {spans : List (κ × Span)} {runOf : κ → Nat} {run : Nat}

/-- The numbers of the spans of a table. -/
def ids (spans : List (κ × Span)) : List Nat :=
  spans.map fun e => e.2.id

/-- The spans of one run. -/
def only (runOf : κ → Nat) (run : Nat) (spans : List (κ × Span)) : List (κ × Span) :=
  spans.filter fun e => runOf e.1 == run

/-- A table in order: a key once, each from work that has started, and each span with the run of its key. -/
structure Tidy (runOf : κ → Nat) (past : κ → Prop) (spans : List (κ × Span)) : Prop where
  nodup : (spans.map Prod.fst).Nodup
  past : ∀ e ∈ spans, past e.1
  owned : ∀ e ∈ spans, e.2.run = runOf e.1

theorem Tidy.mono {past past' : κ → Prop} (h : Tidy runOf past spans) (hpast : ∀ k, past k → past' k) : Tidy runOf past' spans :=
  ⟨h.nodup, fun e he => hpast e.1 (h.past e he), h.owned⟩

variable [BEq κ]

theorem put_eq (key : κ) (s : Span) (spans : List (κ × Span)) : put key s spans = (key, s) :: drop key spans := rfl

theorem count_put (n : Nat) : (ids (put key s spans)).count n = (ids (drop key spans)).count n + if s.id = n then 1 else 0 := by
  rw [put_eq, ids, List.map_cons, List.count_cons]
  simp only [beq_iff_eq, ids]

theorem only_drop (key : κ) : only runOf run (drop key spans) = drop key (only runOf run spans) := by
  rw [only, drop, drop, only, List.filter_comm]

theorem only_put (h : runOf key = run) : only runOf run (put key s spans) = put key s (only runOf run spans) := by
  rw [put_eq, put_eq, ← only_drop, only, List.filter_cons_of_pos (by simpa using h)]
  rfl

variable [LawfulBEq κ]

theorem mem_drop {e : κ × Span} : e ∈ drop key spans ↔ e ∈ spans ∧ e.1 ≠ key := by
  rw [drop, List.mem_filter, bne_iff_ne]

theorem drop_of_absent (h : ∀ e ∈ spans, e.1 ≠ key) : drop key spans = spans :=
  List.filter_eq_self.mpr fun e he => bne_iff_ne.mpr (h e he)

theorem mem_of_lookup (h : spans.lookup key = some s) : (key, s) ∈ spans := by
  obtain ⟨before, after, rfl, -⟩ := List.lookup_eq_some_iff.mp h
  exact List.mem_append_right _ List.mem_cons_self

/-- A table is the span of a key and the table without the key. -/
theorem perm_of_lookup (h : spans.lookup key = some s) (hnodup : (spans.map Prod.fst).Nodup) :
    spans.Perm ((key, s) :: drop key spans) := by
  obtain ⟨before, after, rfl, hbefore⟩ := List.lookup_eq_some_iff.mp h
  rw [List.map_append, List.map_cons, List.nodup_middle, List.nodup_cons, ← List.map_append] at hnodup
  have hkey : key ∉ (before ++ after).map Prod.fst := hnodup.1
  have habsent : ∀ e ∈ before ++ after, e.1 ≠ key := fun e he heq => hkey (heq ▸ List.mem_map_of_mem he)
  have hdrop : drop key (before ++ (key, s) :: after) = before ++ after := by
    rw [drop, List.filter_append, List.filter_cons_of_neg (by simp), ← List.filter_append]
    exact drop_of_absent habsent
  rw [hdrop]
  exact List.perm_middle

theorem count_of_lookup (n : Nat) (h : spans.lookup key = some s) (hnodup : (spans.map Prod.fst).Nodup) :
    (ids spans).count n = (ids (drop key spans)).count n + if s.id = n then 1 else 0 := by
  rw [← count_put, put_eq]
  exact ((perm_of_lookup h hnodup).map _).count_eq n

/-- A span that goes from a table to the spans that have ended keeps its number at one place. -/
theorem count_ended {s' : Span} (n : Nat) (ended : List Span) (h : spans.lookup key = some s) (hnodup : (spans.map Prod.fst).Nodup)
    (hid : s'.id = s.id) : (ids (drop key spans)).count n + ((ended ++ [s']).map Span.id).count n =
      (ids spans).count n + (ended.map Span.id).count n := by
  have hspan := count_of_lookup n h hnodup
  rw [List.map_append, List.count_append, List.map_singleton, List.count_singleton, hid]
  simp only [beq_iff_eq]
  omega

namespace Tidy

variable {past : κ → Prop}

theorem drop (h : Tidy runOf past spans) (key : κ) : Tidy runOf past (Trace.drop key spans) :=
  ⟨h.nodup.sublist (List.filter_sublist.map _), fun e he => h.past e (mem_drop.mp he).1, fun e he => h.owned e (mem_drop.mp he).1⟩

theorem put (h : Tidy runOf past spans) (hkey : past key) (hrun : s.run = runOf key) : Tidy runOf past (put key s spans) := by
  have hrest := h.drop key
  refine ⟨?_, ?_, ?_⟩
  · rw [put_eq, List.map_cons, List.nodup_cons]
    refine ⟨fun hmem => ?_, hrest.nodup⟩
    obtain ⟨e, he, heq⟩ := List.mem_map.mp hmem
    exact (mem_drop.mp he).2 heq
  · intro e he
    rcases List.mem_cons.mp he with rfl | he
    · exact hkey
    · exact hrest.past e he
  · intro e he
    rcases List.mem_cons.mp he with rfl | he
    · exact hrun
    · exact hrest.owned e he

/-- A span for work that has not started before is one more. -/
theorem count_put (h : Tidy runOf past spans) (hkey : ¬ past key) (n : Nat) :
    (ids (Trace.put key s spans)).count n = (ids spans).count n + if s.id = n then 1 else 0 := by
  have hdrop : Trace.drop key spans = spans := drop_of_absent fun e he heq => hkey (heq ▸ h.past e he)
  rw [Trace.count_put, hdrop]

theorem run_of_lookup (h : Tidy runOf past spans) (hlook : spans.lookup key = some s) : s.run = runOf key :=
  h.owned _ (mem_of_lookup hlook)

end Tidy

/-- A key of another run does not matter. -/
theorem only_drop_other (h : runOf key ≠ run) : only runOf run (drop key spans) = only runOf run spans := by
  rw [only_drop]
  refine drop_of_absent fun e he heq => h ?_
  rw [← heq]
  exact beq_iff_eq.mp (List.mem_filter.mp he).2

theorem only_put_other (h : runOf key ≠ run) : only runOf run (put key s spans) = only runOf run spans := by
  rw [put_eq, only, List.filter_cons_of_neg (by simpa using h)]
  exact only_drop_other h

theorem lookup_only (runOf : κ → Nat) (key : κ) (h : runOf key = run) : (only runOf run spans).lookup key = spans.lookup key := by
  induction spans with
  | nil => rfl
  | cons e spans ih =>
    obtain ⟨k, s'⟩ := e
    rw [List.lookup_cons, only, List.filter_cons]
    by_cases hk : key = k
    · subst hk
      rw [if_pos (by simpa using h), List.lookup_cons]
      simp
    · have hne : (key == k) = false := by simpa using hk
      rw [hne]
      split
      · rw [List.lookup_cons, hne]
        exact ih
      · exact ih

end

/-! ## No span is lost -/

theorem count_range_succ (m n : Nat) : (List.range (m + 1)).count n = (List.range m).count n + if m = n then 1 else 0 := by
  rw [List.range_succ, List.count_append, List.count_singleton]
  simp only [beq_iff_eq]

/-- A trace in which every number given to a span is at one place. -/
structure Balanced (past : List Subject) (t : Trace) : Prop where
  requests : Tidy id (fun run => .request run ∈ past) t.requests
  compiles : Tidy Prod.fst (fun key => .compilation key.1 key.2 ∈ past) t.compiles
  evaluations : Tidy id (fun run => .evaluation run ∈ past) t.evaluations
  ended : ∀ s ∈ t.ended, ∃ w ∈ past, w.run = s.run
  numbers : ∀ n, (ids t.requests).count n + (ids t.compiles).count n + (ids t.evaluations).count n +
    (t.ended.map Span.id).count n = (List.range t.started).count n

@[simp] theorem id_addEvent (s : Span) (e : SpanEvent) : (s.addEvent e).id = s.id := by
  rw [Span.addEvent]

@[simp] theorem run_addEvent (s : Span) (e : SpanEvent) : (s.addEvent e).run = s.run := by
  rw [Span.addEvent]

/-- Of events that are added one after the other, a span keeps the latest. -/
theorem events_foldl_addEvent (es : List SpanEvent) {s : Span} (h : s.events.length ≤ Span.maxEvents) :
    (es.foldl Span.addEvent s).events = (s.events ++ es).drop ((s.events ++ es).length - Span.maxEvents) := by
  induction es generalizing s with
  | nil =>
    rw [List.append_nil, Nat.sub_eq_zero_of_le h]
    rfl
  | cons e es ih =>
    have hadd : (s.addEvent e).events = (s.events ++ [e]).drop ((s.events ++ [e]).length - Span.maxEvents) := by
      rw [Span.addEvent]
    have hlen : (s.addEvent e).events.length = min (s.events.length + 1) Span.maxEvents := by
      rw [hadd, List.length_drop, List.length_append, List.length_singleton]
      omega
    rw [List.foldl_cons, ih (hlen ▸ Nat.min_le_right _ _), List.length_append, hlen, hadd,
      ← List.drop_append_of_le_length (Nat.sub_le _ _), List.drop_drop, List.append_assoc, List.singleton_append]
    -- The events dropped at once are those dropped before and those dropped now.
    have hcount : (s.events ++ [e]).length - Span.maxEvents + (min (s.events.length + 1) Span.maxEvents + es.length - Span.maxEvents) =
        (s.events ++ e :: es).length - Span.maxEvents := by
      simp only [List.length_append, List.length_cons, List.length_nil]
      omega
    rw [hcount]

@[simp] theorem id_finish (s : Span) (failure : Option Failure) : (s.finish failure).id = s.id := by
  cases failure with
  | none => rfl
  | some f => simp only [Span.finish, id_addEvent]

@[simp] theorem run_finish (s : Span) (failure : Option Failure) : (s.finish failure).run = s.run := by
  cases failure with
  | none => rfl
  | some f => simp only [Span.finish, run_addEvent]

/-- A failure leaves an event in a span at its end. -/
theorem events_finish (s : Span) (failure : Option Failure) : (s.finish failure).events =
    ((failure.elim [] fun f => [⟨"exception", [("exception.message", f.message)]⟩]).foldl Span.addEvent s).events := by
  cases failure with
  | none => rfl
  | some f => simp only [Span.finish, Option.elim, List.foldl_cons, List.foldl_nil]

namespace Balanced

variable {past : List Subject} {t : Trace} {run : Nat}

theorem new : Balanced [] {} where
  requests := ⟨List.nodup_nil, nofun, nofun⟩
  compiles := ⟨List.nodup_nil, nofun, nofun⟩
  evaluations := ⟨List.nodup_nil, nofun, nofun⟩
  ended := nofun
  numbers := fun _ => rfl

/-- More work has started. -/
theorem mono (h : Balanced past t) (w : Subject) : Balanced (past ++ [w]) t where
  requests := h.requests.mono fun _ => List.mem_append_left _
  compiles := h.compiles.mono fun _ => List.mem_append_left _
  evaluations := h.evaluations.mono fun _ => List.mem_append_left _
  ended := fun s hs => by
    obtain ⟨w', hw', hrun⟩ := h.ended s hs
    exact ⟨w', List.mem_append_left _ hw', hrun⟩
  numbers := h.numbers

theorem mem_ended_append (h : Balanced past t) {s : Span} {w : Subject} (hw : w ∈ past) (hrun : w.run = s.run) :
    ∀ s' ∈ t.ended ++ [s], ∃ w ∈ past, w.run = s'.run := by
  intro s' hs'
  rcases List.mem_append.mp hs' with hs' | hs'
  · exact h.ended s' hs'
  · obtain rfl := List.mem_singleton.mp hs'
    exact ⟨w, hw, hrun⟩

section

variable {formula : Bytes} {s s' : Span}

theorem startRequest (h : Balanced past t) (hnew : .request run ∉ past) (hid : s.id = t.started) (hrun : s.run = run) :
    Balanced (past ++ [.request run]) { t with started := t.started + 1, requests := put run s t.requests } := by
  have hmore := h.mono (.request run)
  refine ⟨hmore.requests.put (by simp) hrun, hmore.compiles, hmore.evaluations, hmore.ended, fun n => ?_⟩
  have hnumbers := h.numbers n
  dsimp only
  rw [h.requests.count_put hnew, count_range_succ, hid]
  omega

theorem startCompilation (h : Balanced past t) (hnew : .compilation run formula ∉ past) (hid : s.id = t.started) (hrun : s.run = run) :
    Balanced (past ++ [.compilation run formula]) { t with started := t.started + 1, compiles := put (run, formula) s t.compiles } := by
  have hmore := h.mono (.compilation run formula)
  refine ⟨hmore.requests, hmore.compiles.put (by simp) hrun, hmore.evaluations, hmore.ended, fun n => ?_⟩
  have hnumbers := h.numbers n
  dsimp only
  rw [h.compiles.count_put hnew, count_range_succ, hid]
  omega

theorem startEvaluation (h : Balanced past t) (hnew : .evaluation run ∉ past) (hid : s.id = t.started) (hrun : s.run = run) :
    Balanced (past ++ [.evaluation run]) { t with started := t.started + 1, evaluations := put run s t.evaluations } := by
  have hmore := h.mono (.evaluation run)
  refine ⟨hmore.requests, hmore.compiles, hmore.evaluations.put (by simp) hrun, hmore.ended, fun n => ?_⟩
  have hnumbers := h.numbers n
  dsimp only
  rw [h.evaluations.count_put hnew, count_range_succ, hid]
  omega

theorem endRequest (h : Balanced past t) (hlook : t.requests.lookup run = some s) (hid : s'.id = s.id) (hrun : s'.run = s.run) :
    Balanced past { t with requests := drop run t.requests, ended := t.ended ++ [s'] } := by
  refine ⟨h.requests.drop run, h.compiles, h.evaluations, ?_, fun n => ?_⟩
  · exact h.mem_ended_append (h.requests.past _ (mem_of_lookup hlook)) (hrun.trans (h.requests.run_of_lookup hlook)).symm
  · have hnumbers := h.numbers n
    have hmoved := count_ended n t.ended hlook h.requests.nodup hid
    dsimp only
    omega

theorem endCompilation (h : Balanced past t) (hlook : t.compiles.lookup (run, formula) = some s) (hid : s'.id = s.id)
    (hrun : s'.run = s.run) : Balanced past { t with compiles := drop (run, formula) t.compiles, ended := t.ended ++ [s'] } := by
  refine ⟨h.requests, h.compiles.drop (run, formula), h.evaluations, ?_, fun n => ?_⟩
  · exact h.mem_ended_append (h.compiles.past _ (mem_of_lookup hlook)) (hrun.trans (h.compiles.run_of_lookup hlook)).symm
  · have hnumbers := h.numbers n
    have hmoved := count_ended n t.ended hlook h.compiles.nodup hid
    dsimp only
    omega

theorem endEvaluation (h : Balanced past t) (hlook : t.evaluations.lookup run = some s) (hid : s'.id = s.id) (hrun : s'.run = s.run) :
    Balanced past { t with evaluations := drop run t.evaluations, ended := t.ended ++ [s'] } := by
  refine ⟨h.requests, h.compiles, h.evaluations.drop run, ?_, fun n => ?_⟩
  · exact h.mem_ended_append (h.evaluations.past _ (mem_of_lookup hlook)) (hrun.trans (h.evaluations.run_of_lookup hlook)).symm
  · have hnumbers := h.numbers n
    have hmoved := count_ended n t.ended hlook h.evaluations.nodup hid
    dsimp only
    omega

/-- An open span of an evaluation changes, but not its number and not its run. -/
theorem noteEvaluation (h : Balanced past t) (hlook : t.evaluations.lookup run = some s) (hid : s'.id = s.id) (hrun : s'.run = s.run) :
    Balanced past { t with evaluations := put run s' t.evaluations } := by
  have hpast := h.evaluations.past _ (mem_of_lookup hlook)
  have hput := h.evaluations.put hpast (hrun.trans (h.evaluations.run_of_lookup hlook))
  refine ⟨h.requests, h.compiles, hput, h.ended, fun n => ?_⟩
  have hnumbers := h.numbers n
  have hspan := count_of_lookup n hlook h.evaluations.nodup
  dsimp only
  rw [count_put, hid]
  omega

end

/-- A report keeps a trace balanced if the work that it starts has not been started before. -/
theorem record (h : Balanced past t) (r : Report) (hnew : ∀ w, r.starts? = some w → w ∉ past) :
    Balanced (past ++ r.starts?.toList) (t.record r) := by
  obtain ⟨run, e⟩ := r
  cases e with
  | requestStart => exact h.startRequest (hnew _ rfl) rfl rfl
  | compileStart => exact h.startCompilation (hnew _ rfl) rfl rfl
  | evaluateStart => exact h.startEvaluation (hnew _ rfl) rfl rfl
  | requestFinish =>
    simp only [Report.starts?, Option.toList_none, List.append_nil, Trace.record]
    split
    · exact h
    · rename_i s hlook
      exact h.endRequest hlook rfl rfl
  | compileFinish =>
    simp only [Report.starts?, Option.toList_none, List.append_nil, Trace.record]
    split
    · exact h
    · rename_i s hlook
      exact h.endCompilation hlook (id_finish _ _) (run_finish _ _)
  | fixpointConverged =>
    simp only [Report.starts?, Option.toList_none, List.append_nil, Trace.record]
    split
    · exact h
    · rename_i s hlook
      exact h.noteEvaluation hlook (id_addEvent _ _) (run_addEvent _ _)
  | evaluateFinish =>
    simp only [Report.starts?, Option.toList_none, List.append_nil, Trace.record]
    split
    · exact h
    · rename_i s hlook
      exact h.endEvaluation hlook (id_finish _ _) (run_finish _ _)

theorem starts_cons (r : Report) (rs : List Report) :
    (r :: rs).filterMap Report.starts? = r.starts?.toList ++ rs.filterMap Report.starts? := by
  rw [List.filterMap_cons]
  cases r.starts? <;> rfl

/-- The first of some reports that start no work twice. -/
theorem record_cons (h : Balanced past t) {r : Report} {rs : List Report}
    (hnodup : (past ++ (r :: rs).filterMap Report.starts?).Nodup) :
    Balanced (past ++ r.starts?.toList) (t.record r) ∧ (past ++ r.starts?.toList ++ rs.filterMap Report.starts?).Nodup := by
  rw [starts_cons, ← List.append_assoc] at hnodup
  refine ⟨h.record r fun w hw hmem => ?_, hnodup⟩
  have hdisjoint := (List.nodup_append.mp (hnodup.sublist (List.sublist_append_left _ _))).2.2
  rw [hw] at hdisjoint
  exact hdisjoint w hmem w (List.mem_singleton.mpr rfl) rfl

/-- Reports keep a trace balanced as long as they start no work twice. -/
theorem foldl (rs : List Report) : ∀ {past : List Subject} {t : Trace}, Balanced past t →
    (past ++ rs.filterMap Report.starts?).Nodup → Balanced (past ++ rs.filterMap Report.starts?) (rs.foldl Trace.record t) := by
  induction rs with
  | nil =>
    intro past t h _
    rwa [List.filterMap_nil, List.append_nil]
  | cons r rs ih =>
    intro past t h hnodup
    obtain ⟨hrecord, hrest⟩ := h.record_cons hnodup
    rw [starts_cons, ← List.append_assoc]
    exact ih hrecord hrest

/-- If no span is open, then every span that was started has ended once. -/
theorem ended_perm (h : Balanced past t) (hrequests : t.requests = []) (hcompiles : t.compiles = [])
    (hevaluations : t.evaluations = []) : (t.ended.map Span.id).Perm (List.range t.started) := by
  refine List.perm_iff_count.mpr fun n => ?_
  have hnumbers := h.numbers n
  rw [hrequests, hcompiles, hevaluations] at hnumbers
  simpa [ids] using hnumbers

end Balanced

/-! ## What a trace holds of one run -/

/-- The part of a trace that one run has to do with. -/
def of (t : Trace) (run : Nat) : Trace :=
  { t with
    requests := only id run t.requests
    compiles := only Prod.fst run t.compiles
    evaluations := only id run t.evaluations
    ended := t.ended.filter fun s => s.run == run }

section

variable {past : List Subject} {t : Trace} {run : Nat}

theorem parent_of : (t.of run).parent run = t.parent run := by
  rw [parent, parent]
  exact congrArg (Option.map Span.id) (lookup_only id run rfl)

theorem filter_ended (s : Span) (h : s.run = run) :
    (t.ended ++ [s]).filter (fun s => s.run == run) = t.ended.filter (fun s => s.run == run) ++ [s] := by
  simp [List.filter_append, h]

theorem filter_ended_other (s : Span) (h : s.run ≠ run) :
    (t.ended ++ [s]).filter (fun s => s.run == run) = t.ended.filter fun s => s.run == run := by
  simp [List.filter_append, h]

/-- A report of a run is recorded in the run's part as in the whole. -/
theorem record_of (h : Balanced past t) (e : Event) : (t.record ⟨run, e⟩).of run = (t.of run).record ⟨run, e⟩ := by
  have hrequests : (only id run t.requests).lookup run = t.requests.lookup run := lookup_only id run rfl
  have hevaluations : (only id run t.evaluations).lookup run = t.evaluations.lookup run := lookup_only id run rfl
  cases e with
  | requestStart | evaluateStart | compileStart =>
    simp only [record, parent_of]
    simp only [of, start, only_put, id]
  | requestFinish method path route status =>
    simp only [record, of, hrequests]
    split
    · rfl
    · rename_i s hlook
      have hrun : s.run = run := h.requests.run_of_lookup hlook
      simp only [only_drop]
      rw [filter_ended]
      exact hrun
  | compileFinish formula mode created reused layers failure =>
    have hcompiles : (only Prod.fst run t.compiles).lookup (run, formula) = t.compiles.lookup (run, formula) :=
      lookup_only Prod.fst (run, formula) rfl
    simp only [record, of, hcompiles]
    split
    · rfl
    · rename_i s hlook
      have hrun : s.run = run := h.compiles.run_of_lookup hlook
      simp only [only_drop]
      rw [filter_ended]
      exact (run_finish _ _).trans hrun
  | fixpointConverged key least iterations =>
    simp only [record, of, hevaluations]
    split
    · rfl
    · simp only [only_put, id]
  | evaluateFinish formula nodes graphs failure =>
    simp only [record, of, hevaluations]
    split
    · rfl
    · rename_i s hlook
      have hrun : s.run = run := h.evaluations.run_of_lookup hlook
      simp only [only_drop]
      rw [filter_ended]
      exact (run_finish _ _).trans hrun

/-- A report of another run only changes how many spans have been started. -/
theorem record_of_other (run : Nat) (h : Balanced past t) {r : Report} (hr : r.run ≠ run) :
    ∃ n, (t.record r).of run = { t.of run with started := n } := by
  obtain ⟨other, e⟩ := r
  have hother : id other ≠ run := hr
  cases e with
  | requestStart =>
    refine ⟨t.started + 1, ?_⟩
    simp only [record, of, only_put_other hother]
  | compileStart formula mode =>
    refine ⟨t.started + 1, ?_⟩
    have hkey : (Prod.fst (other, formula)) ≠ run := hr
    simp only [record, of, only_put_other hkey]
  | evaluateStart =>
    refine ⟨t.started + 1, ?_⟩
    simp only [record, of, only_put_other hother]
  | requestFinish method path route status =>
    refine ⟨t.started, ?_⟩
    simp only [record]
    split
    · rfl
    · rename_i s hlook
      have hrun : s.run ≠ run := fun heq => hr ((h.requests.run_of_lookup hlook).symm.trans heq)
      simp only [of, only_drop_other hother]
      rw [filter_ended_other]
      exact hrun
  | compileFinish formula mode created reused layers failure =>
    refine ⟨t.started, ?_⟩
    have hkey : (Prod.fst (other, formula)) ≠ run := hr
    simp only [record]
    split
    · rfl
    · rename_i s hlook
      have hrun : s.run ≠ run := fun heq => hr ((h.compiles.run_of_lookup hlook).symm.trans heq)
      simp only [of, only_drop_other hkey]
      rw [filter_ended_other]
      rwa [run_finish]
  | fixpointConverged key least iterations =>
    refine ⟨t.started, ?_⟩
    simp only [record]
    split
    · rfl
    · simp only [of, only_put_other hother]
  | evaluateFinish formula nodes graphs failure =>
    refine ⟨t.started, ?_⟩
    simp only [record]
    split
    · rfl
    · rename_i s hlook
      have hrun : s.run ≠ run := fun heq => hr ((h.evaluations.run_of_lookup hlook).symm.trans heq)
      simp only [of, only_drop_other hother]
      rw [filter_ended_other]
      rwa [run_finish]

end

/-- A trace takes some reports of one run, between which spans of other runs may be started. -/
inductive Takes (run : Nat) : Trace → List Event → Trace → Prop where
  | done (t : Trace) : Takes run t [] t
  | event {t t' : Trace} {e : Event} {es : List Event} (n : Nat) :
      Takes run ({ t with started := n }.record ⟨run, e⟩) es t' → Takes run t (e :: es) t'

section

variable {run : Nat} {t t' : Trace}

theorem Takes.cons {e : Event} {es : List Event} (h : Takes run t (e :: es) t') :
    ∃ n, Takes run ({ t with started := n }.record ⟨run, e⟩) es t' := by
  cases h with
  | event n h => exact ⟨n, h⟩

theorem Takes.nil (h : Takes run t [] t') : t' = t := by
  cases h with
  | done => rfl

/-- How many spans were started before does not matter to the first report. -/
theorem Takes.started {es : List Event} {m : Nat} (h : Takes run { t with started := m } es t') :
    ∃ t'' n, Takes run t es t'' ∧ t' = { t'' with started := n } := by
  cases h with
  | done => exact ⟨t, m, .done t, rfl⟩
  | event n h => exact ⟨t', t'.started, .event n h, rfl⟩

/-- What reports leave of one run in a trace is what its own reports leave. -/
theorem foldl_of (run : Nat) (rs : List Report) : ∀ {past : List Subject} {t : Trace}, Balanced past t →
    (past ++ rs.filterMap Report.starts?).Nodup →
      ∃ t' n, Takes run (t.of run) ((rs.filter fun r => r.run == run).map Report.event) t' ∧
        (rs.foldl record t).of run = { t' with started := n } := by
  induction rs with
  | nil => exact fun {_ t} _ _ => ⟨t.of run, t.started, .done _, rfl⟩
  | cons r rs ih =>
    intro past t h hnodup
    obtain ⟨hrecord, hrest⟩ := h.record_cons hnodup
    obtain ⟨t', n, htakes, hof⟩ := ih hrecord hrest
    by_cases hrun : r.run = run
    · subst hrun
      refine ⟨t', n, ?_, hof⟩
      rw [List.filter_cons, if_pos (beq_self_eq_true r.run), List.map_cons]
      have hown : (t.record r).of r.run = (t.of r.run).record r := record_of h r.event
      rw [hown] at htakes
      exact .event t.started htakes
    · obtain ⟨m, hm⟩ := record_of_other run h hrun
      rw [hm] at htakes
      obtain ⟨t'', n', htakes, rfl⟩ := htakes.started
      refine ⟨t'', n, ?_, hof⟩
      rwa [List.filter_cons_of_neg (by simpa using hrun)]

end

end Trace

end ModalGraph
