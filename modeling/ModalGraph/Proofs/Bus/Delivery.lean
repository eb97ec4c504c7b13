import Mathlib.Data.List.Perm.Basic
import ModalGraph.Proofs.Bus.Standing

/-!
# What emissions deliver

An emission calls what stood when it began, whatever has been done since (`Run.delivers`): the list that it goes through has this in
its cells, and every change of the bus spares it. The invariant of a run (`Run.Coherent`) says so of the emissions that are running,
of the bus, and of the emissions that have ended.
-/

namespace ModalGraph

namespace Bus

variable {τ η : Type} [BEq τ]

/-- The emission as it began. -/
def Emission.mark (e : Emission τ η) : Nat × τ :=
  (e.began, e.topic)

/-- The subscriptions that an emission is to call: those that stood when it began. -/
def Emission.due (actions : List (Action τ η)) (e : Emission τ η) : List (Subscription η) :=
  standing (actions.take e.began) e.topic

theorem Emission.due_append {actions : List (Action τ η)} {e : Emission τ η} (h : e.began ≤ actions.length)
    (later : List (Action τ η)) : e.due (actions ++ later) = e.due actions := by
  rw [due, due, List.take_append_of_le_length h]

/-- A running emission goes through a list that is never written to, in which there is what it is to call. -/
structure Emission.Goes (actions : List (Action τ η)) (b : Bus τ η) (e : Emission τ η) : Prop where
  began_le : e.began ≤ actions.length
  spares : b.Spares e.list
  cells : b.memory.cells e.list = e.due actions
  called : e.called <+: e.due actions

/-- What holds of every run. -/
structure Run.Coherent (r : Run τ η) : Prop where
  told : Told r.past r.bus r.tickets
  begun : ((r.running ++ r.ended).map Emission.mark).Perm (begun r.past)
  running : ∀ e ∈ r.running, e.Goes r.past r.bus
  ended : ∀ e ∈ r.ended, e.began ≤ r.past.length ∧ e.called = e.due r.past

theorem Run.Coherent.empty : Run.Coherent ({} : Run τ η) :=
  { told := .empty
    begun := .nil
    running := fun _ h => nomatch h
    ended := fun _ h => nomatch h }

/-! ## Emissions that go on -/

section

variable {actions : List (Action τ η)} {b : Bus τ η} {tickets : List (Ticket τ)}

/-- A running emission goes on through its list when the list is spared. -/
theorem Emission.Goes.append {e : Emission τ η} (h : e.Goes actions b) {b' : Bus τ η}
    (hspared : b'.Spares e.list ∧ b'.memory.cells e.list = b.memory.cells e.list) (a : Action τ η) : e.Goes (actions ++ [a]) b' := by
  have hdue := Emission.due_append h.began_le [a]
  refine ⟨?_, hspared.1, ?_, ?_⟩
  · rw [List.length_append]
    exact Nat.le_add_right_of_le h.began_le
  · rw [hdue, hspared.2, h.cells]
  · rw [hdue]
    exact h.called

/-- An emission that begins goes through the subscriptions of its topic. -/
theorem Told.goes (h : Told actions b tickets) (topic : τ) (a : Action τ η) :
    Emission.Goes (actions ++ [a]) b ⟨actions.length, topic, b.list topic, []⟩ := by
  refine ⟨?_, h.sound.spares_list topic, ?_, List.nil_prefix⟩
  · rw [List.length_append]
    exact Nat.le_add_right _ _
  · rw [Emission.due, List.take_left]
    exact h.contents topic

end

/-- What begins a list, with what comes next in the list. -/
theorem prefix_append_getElem? {α : Type} {xs ys : List α} (h : xs <+: ys) {x : α} (hx : ys[xs.length]? = some x) : xs ++ [x] <+: ys := by
  obtain ⟨rest, rfl⟩ := h
  rw [List.getElem?_append_right (Nat.le_refl _), Nat.sub_self] at hx
  cases rest with
  | nil => cases hx
  | cons y rest =>
    cases hx
    exact ⟨rest, List.append_assoc _ _ _⟩

namespace Run

variable {grow : Nat → Nat → Nat} {r r' : Run τ η}

theorem Coherent.ended_append (h : r.Coherent) (a : Action τ η) :
    ∀ e ∈ r.ended, e.began ≤ (r.past ++ [a]).length ∧ e.called = e.due (r.past ++ [a]) := by
  intro e he
  obtain ⟨hle, hcalled⟩ := h.ended e he
  rw [Emission.due_append hle]
  exact ⟨by rw [List.length_append]; exact Nat.le_add_right_of_le hle, hcalled⟩

/-- Running emissions go on while the bus changes. -/
theorem Coherent.goes_append (h : r.Coherent) {b : Bus τ η}
    (hspared : ∀ v, r.bus.Spares v → b.Spares v ∧ b.memory.cells v = r.bus.memory.cells v) (a : Action τ η) :
    ∀ e ∈ r.running, e.Goes (r.past ++ [a]) b :=
  fun e he => (h.running e he).append (hspared _ (h.running e he).spares) a

/-- What the latest of the running emissions calls next is the first of what it is to call and has not called yet. -/
theorem Coherent.at?_list (h : r.Coherent) {e : Emission τ η} (he : e ∈ r.running) (k : Nat) :
    r.bus.at? e.list k = (e.due r.past)[k]? := by
  rw [Bus.at?, Memory.cell?, (h.running e he).cells]

theorem Coherent.length_list (h : r.Coherent) {e : Emission τ η} (he : e ∈ r.running) : e.list.length = (e.due r.past).length := by
  rw [← (h.running e he).cells, Memory.length_cells (h.running e he).spares.fits]

theorem Coherent.next (h : r.Coherent) {e : Emission τ η} {outer : List (Emission τ η)} (hrunning : r.running = e :: outer) :
    match (e.due r.past)[e.called.length]? with
    | some s => r.step grow .finish = none ∧
        ∃ r', r.step grow .call = some r' ∧ r'.running = { e with called := e.called ++ [s] } :: outer
    | none =>
        r.step grow .call = none ∧ ∃ r', r.step grow .finish = some r' ∧ r'.running = outer ∧ r'.ended = r.ended ++ [e] := by
  have he : e ∈ r.running := hrunning ▸ List.mem_cons_self
  have hat := h.at?_list he e.called.length
  have hlength := h.length_list he
  split
  · rename_i s hs
    have hlt : e.called.length < (e.due r.past).length := (List.getElem?_eq_some_iff.mp hs).1
    refine ⟨Option.eq_none_iff_forall_ne_some.mpr fun r' hfinish => ?_, _, step_call_iff.mpr ⟨e, outer, s, hrunning, ?_, rfl⟩, rfl⟩
    · obtain ⟨e', outer', hrunning', hle, -⟩ := step_finish_iff.mp hfinish
      rw [hrunning] at hrunning'
      cases hrunning'
      omega
    · rw [hat, hs]
  · rename_i hnone
    refine ⟨Option.eq_none_iff_forall_ne_some.mpr fun r' hcall => ?_, _, step_finish_iff.mpr ⟨e, outer, hrunning, ?_, rfl⟩, rfl, rfl⟩
    · obtain ⟨e', outer', s, hrunning', hs, -⟩ := step_call_iff.mp hcall
      rw [hrunning] at hrunning'
      cases hrunning'
      rw [hat, hnone] at hs
      cases hs
    · rw [hlength]
      exact List.getElem?_eq_none_iff.mp hnone

theorem Coherent.called_pairwise (h : r.Coherent) {e : Emission τ η} (he : e ∈ r.running ++ r.ended) :
    (e.called.map Subscription.id).Pairwise (· < ·) := by
  have hbegins : e.called <+: e.due r.past := by
    rcases List.mem_append.mp he with he | he
    · exact (h.running e he).called
    · exact (h.ended e he).2 ▸ List.prefix_refl _
  exact (standing_pairwise _ _).sublist (hbegins.map _).sublist

/-! ## What a step keeps -/

variable [LawfulBEq τ]

theorem Coherent.step (h : r.Coherent) {a : Action τ η} (hstep : r.step grow a = some r') :
    r'.Coherent ∧ r'.past = r.past ++ [a] := by
  cases a with
  | subscribe topic handler =>
    cases hstep
    refine ⟨⟨h.told.changes_subscribe grow topic handler, ?_, ?_, h.ended_append _⟩, rfl⟩
    · rw [begun_append_one, List.append_nil]
      exact h.begun
    · exact h.goes_append (h.told.sound.subscribe grow topic handler).spared _
  | unsubscribe n =>
    obtain ⟨t, ht, rfl⟩ := step_unsubscribe_iff.mp hstep
    refine ⟨⟨h.told.changes_unsubscribe grow ht, ?_, ?_, h.ended_append _⟩, rfl⟩
    · rw [begun_append_one, List.append_nil]
      exact h.begun
    · exact h.goes_append (h.told.unsubscribe grow ht).spared _
  | emit topic =>
    cases hstep
    refine ⟨⟨h.told.other rfl fun _ => rfl, ?_, ?_, h.ended_append _⟩, rfl⟩
    · rw [begun_append_one, List.cons_append, List.map_cons]
      exact (List.perm_append_singleton _ _).symm.trans (h.begun.append_right _)
    · intro e he
      rcases List.mem_cons.mp he with rfl | he
      · exact h.told.goes topic _
      · exact h.goes_append (fun _ hv => ⟨hv, rfl⟩) _ e he
  | call =>
    obtain ⟨e, outer, s, hrunning, hs, rfl⟩ := step_call_iff.mp hstep
    have he : e ∈ r.running := hrunning ▸ List.mem_cons_self
    refine ⟨⟨h.told.other rfl fun _ => rfl, ?_, ?_, h.ended_append _⟩, rfl⟩
    · rw [begun_append_one, List.append_nil]
      have hbegun := h.begun
      rw [hrunning] at hbegun
      exact hbegun
    · intro e' he'
      rcases List.mem_cons.mp he' with rfl | he'
      · have hgoes := h.goes_append (fun _ hv => ⟨hv, rfl⟩) .call e he
        refine ⟨hgoes.began_le, hgoes.spares, hgoes.cells, ?_⟩
        rw [h.at?_list he, ← Emission.due_append (h.running e he).began_le [.call]] at hs
        exact prefix_append_getElem? hgoes.called hs
      · exact h.goes_append (fun _ hv => ⟨hv, rfl⟩) _ e' (hrunning ▸ List.mem_cons_of_mem _ he')
  | finish =>
    obtain ⟨e, outer, hrunning, hall, rfl⟩ := step_finish_iff.mp hstep
    have he : e ∈ r.running := hrunning ▸ List.mem_cons_self
    refine ⟨⟨h.told.other rfl fun _ => rfl, ?_, ?_, ?_⟩, rfl⟩
    · rw [begun_append_one, List.append_nil]
      have hbegun := h.begun
      rw [hrunning, List.cons_append] at hbegun
      refine List.Perm.trans (List.Perm.map _ ?_) hbegun
      rw [← List.append_assoc]
      exact List.perm_append_singleton _ _
    · exact fun e' he' => h.goes_append (fun _ hv => ⟨hv, rfl⟩) _ e' (hrunning ▸ List.mem_cons_of_mem _ he')
    · intro e' he'
      rcases List.mem_append.mp he' with he' | he'
      · exact h.ended_append _ e' he'
      · cases List.mem_singleton.mp he'
        have hgoes := h.goes_append (fun _ hv => ⟨hv, rfl⟩) .finish e he
        rw [h.length_list he, ← Emission.due_append (h.running e he).began_le [.finish]] at hall
        exact ⟨hgoes.began_le, hgoes.called.eq_of_length_le hall⟩

theorem Coherent.steps {actions : List (Action τ η)} (h : r.Coherent) (hsteps : r.steps grow actions = some r') :
    r'.Coherent ∧ r'.past = r.past ++ actions := by
  induction actions generalizing r with
  | nil =>
    cases hsteps
    exact ⟨h, (List.append_nil _).symm⟩
  | cons a actions ih =>
    obtain ⟨r₁, hstep, hrest⟩ := Option.bind_eq_some_iff.mp hsteps
    obtain ⟨h₁, hpast⟩ := h.step hstep
    obtain ⟨h', hpast'⟩ := ih h₁ hrest
    exact ⟨h', by rw [hpast', hpast, List.append_assoc]; rfl⟩

theorem Coherent.unsubscribe (h : r.Coherent) {n : Nat} (hn : n < (made r.past).length) :
    ∃ r', r.step grow (.unsubscribe n) = some r' ∧
      (∀ topic, r'.bus.contents topic = (r.bus.contents topic).filter fun s => s.id != n + 1) ∧
      (revoked r.past n = true → r'.bus = r.bus) := by
  have hlt : n < r.tickets.length := by
    rw [h.told.tickets, List.length_map, List.length_zipIdx]
    exact hn
  have ht := List.getElem?_eq_getElem hlt
  have hstep : r.step grow (.unsubscribe n) = some _ := step_unsubscribe_iff.mpr ⟨_, ht, rfl⟩
  refine ⟨_, hstep, fun topic => ?_, fun hused => ?_⟩
  · obtain ⟨hnext, hpast⟩ := h.step hstep
    rw [hnext.told.contents, hpast, standing_append_unsubscribe, h.told.contents]
  · refine unsubscribe_of_mem_used ?_ grow
    rw [(h.told.ticket ht).2.1, h.told.used]
    exact hused

/-! ## Every run -/

/-- What the emissions of a run deliver, and what its tickets end, told by the actions that were taken. -/
structure Delivers (grow : Nat → Nat → Nat) (actions : List (Action τ η)) (r : Run τ η) : Prop where
  /-- The emissions that have begun are those that are running and those that have ended. -/
  begun : ((r.running ++ r.ended).map Emission.mark).Perm (Bus.begun actions)
  /-- An emission that has ended has called what stood when it began, all of it and in this order. -/
  ended : ∀ e ∈ r.ended, e.called = standing (actions.take e.began) e.topic
  /-- A running emission has called the first of what stood when it began. -/
  running : ∀ e ∈ r.running, e.called <+: standing (actions.take e.began) e.topic
  /-- The latest of the running emissions calls the next of it, and ends when there is no next. -/
  next : ∀ e outer, r.running = e :: outer →
    match (standing (actions.take e.began) e.topic)[e.called.length]? with
    | some s => r.step grow .finish = none ∧
        ∃ r', r.step grow .call = some r' ∧ r'.running = { e with called := e.called ++ [s] } :: outer
    | none => r.step grow .call = none ∧ ∃ r', r.step grow .finish = some r' ∧ r'.running = outer ∧ r'.ended = r.ended ++ [e]
  /-- No emission calls a subscription twice, or one after a later one. -/
  ordered : ∀ e ∈ r.running ++ r.ended, (e.called.map Subscription.id).Pairwise (· < ·)
  /-- The subscriptions of a topic are those that stand. -/
  contents : ∀ topic, r.bus.contents topic = standing actions topic
  /-- A ticket can be used any number of times. The first use ends the subscription that it belongs to and no other, and any other use
  changes nothing. -/
  unsubscribe : ∀ n, n < (made actions).length → ∃ r', r.step grow (.unsubscribe n) = some r' ∧
    (∀ topic, r'.bus.contents topic = (r.bus.contents topic).filter fun s => s.id != n + 1) ∧
    (revoked actions n = true → r'.bus = r.bus)

/-- On every run, whatever handlers do in between, each emission calls the subscriptions that stood when it began. -/
theorem delivers {actions : List (Action τ η)} (h : Run.of grow actions = some r) : r.Delivers grow actions := by
  obtain ⟨hcoherent, hpast⟩ := Coherent.empty.steps h
  obtain rfl : r.past = actions := hpast
  exact
    { begun := hcoherent.begun
      ended := fun e he => (hcoherent.ended e he).2
      running := fun e he => (hcoherent.running e he).called
      next := fun _ _ hrunning => hcoherent.next hrunning
      ordered := fun _ he => hcoherent.called_pairwise he
      contents := hcoherent.told.contents
      unsubscribe := fun _ hn => hcoherent.unsubscribe hn }

/-- A handler that ends another subscription, makes one and emits. -/
def sampleActions : List (Action Bool Nat) :=
  [.subscribe true 0, .subscribe true 1, .subscribe false 2, .emit true, .call, .unsubscribe 1, .subscribe true 3, .emit true, .call, .call,
    .finish, .unsubscribe 1, .call, .finish, .emit true, .call]

theorem delivers_sample : ∃ r, Run.of (fun room _ => 2 * room) sampleActions = some r ∧ r.Delivers (fun room _ => 2 * room) sampleActions ∧
    r.ended.map (fun e => e.called.map Subscription.handler) = [[0, 3], [0, 1]] :=
  ⟨_, rfl, delivers rfl, rfl⟩

end Run

end Bus

end ModalGraph
