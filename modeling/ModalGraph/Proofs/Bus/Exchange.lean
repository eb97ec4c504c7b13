import ModalGraph.Bus.Exchange
import ModalGraph.Proofs.Bus.Delivery

/-!
# What an exchange does to its buses

Whatever is done on an exchange, each of its buses is what a run has come to (`Exchange.Comes.run`). So an emission calls the handlers
that were subscribed to its topic when it began, also if they subscribe, end subscriptions or emit (`Exchange.Comes.perform_emit`).
-/

namespace ModalGraph

namespace Exchange

open Bus

/-- What a handler does when it is called, and the call. -/
def handle (fuel : Nat) (topic : String) (payload : Int) (p : Exchange × List Call) (s : Subscription Handler) : Exchange × List Call :=
  let calls := p.2 ++ [⟨s.handler.name, topic, payload⟩]
  match s.handler.after with
  | none => (p.1, calls)
  | some c => ((perform fuel p.1 c).1, calls ++ (perform fuel p.1 c).2)

/-- An emission goes through the cells of a list. -/
theorem perform_emit_eq (fuel : Nat) (x : Exchange) (shared : Bool) (topic : String) (payload : Int) :
    perform (fuel + 1) x (.emit shared topic payload) =
      match x.target shared with
      | none => (x, [])
      | some i => (List.range ((x.bus i).list topic).length).foldl
          (fun p k => (((p.1.bus i).at? ((x.bus i).list topic) k).map (handle fuel topic payload p)).getD p) (x, []) := by
  rw [perform]
  cases x.target shared with
  | none => rfl
  | some i =>
    dsimp only
    congr 1
    funext p k
    cases (p.1.bus i).at? ((x.bus i).list topic) k with
    | none => rfl
    | some s =>
      obtain ⟨id, name, after⟩ := s
      cases after <;> rfl

/-! ## Buses and tickets by number -/

/-- An exchange whose numbers are those of its buses. -/
structure Ordered (x : Exchange) : Prop where
  atHand : x.atHand < x.buses.length
  installed : ∀ i, x.installed = some i → i < x.buses.length
  tickets : ∀ name i t, (name, some (i, t)) ∈ x.tickets → i < x.buses.length

theorem Ordered.target {x : Exchange} (h : x.Ordered) {shared : Bool} {i : Nat} (hi : x.target shared = some i) : i < x.buses.length := by
  unfold Exchange.target at hi
  split at hi
  · exact h.installed i hi
  · exact Option.some.inj hi ▸ h.atHand

theorem bus_setBus_self {x : Exchange} {i : Nat} (hi : i < x.buses.length) (b : Bus String Handler) : (x.setBus i b).bus i = b := by
  rw [bus, setBus, List.getElem?_set_self hi]
  rfl

theorem bus_setBus_ne (x : Exchange) {i j : Nat} (h : j ≠ i) (b : Bus String Handler) : (x.setBus j b).bus i = x.bus i := by
  rw [bus, bus, setBus, List.getElem?_set_ne h]

theorem bus_append (x : Exchange) (i : Nat) : (x.buses ++ [.empty])[i]?.getD .empty = x.bus i := by
  rw [bus]
  by_cases hi : i < x.buses.length
  · rw [List.getElem?_append_left hi]
  · rw [List.getElem?_append_right (Nat.le_of_not_lt hi), List.getElem?_eq_none (Nat.le_of_not_lt hi)]
    cases i - x.buses.length <;> rfl

/-! ## Runs on the buses -/

/-- A run that has come to what there is under a number: the bus, and at least the tickets that it has handed out and that are kept. -/
structure Tracks (x : Exchange) (i : Nat) (r : Run String Handler) : Prop where
  bus : x.bus i = r.bus
  tickets : ∀ name t, (name, some (i, t)) ∈ x.tickets → t ∈ r.tickets

/-- A run goes on, the emissions that are running in it being where they were, and comes to what there is under a number. -/
def Follows (r : Run String Handler) (x : Exchange) (i : Nat) : Prop :=
  ∃ actions r', r.steps grow actions = some r' ∧ r'.running = r.running ∧ x.Tracks i r'

/-- What is done between two exchanges goes on with the runs on all buses. -/
def Leads (x x' : Exchange) : Prop :=
  x.Ordered → x'.Ordered ∧ ∀ i r, x.Tracks i r → Follows r x' i

theorem Leads.refl (x : Exchange) : Leads x x :=
  fun h => ⟨h, fun _ r hr => ⟨[], r, rfl, rfl, hr⟩⟩

theorem Leads.trans {x x' x'' : Exchange} (h : Leads x x') (h' : Leads x' x'') : Leads x x'' := by
  intro hx
  obtain ⟨hx', hfollows⟩ := h hx
  obtain ⟨hx'', hfollows'⟩ := h' hx'
  refine ⟨hx'', fun i r hr => ?_⟩
  obtain ⟨actions, r', hsteps, hrunning, hr'⟩ := hfollows i r hr
  obtain ⟨later, r'', hlater, hrunning', hr''⟩ := hfollows' i r' hr'
  exact ⟨actions ++ later, r'', Run.steps_append hsteps hlater, hrunning'.trans hrunning, hr''⟩

/-- Nothing is done to any bus. -/
theorem Leads.of_bus_eq {x x' : Exchange} (hordered : x.Ordered → x'.Ordered) (hbus : ∀ i, x'.bus i = x.bus i)
    (htickets : ∀ name i t, (name, some (i, t)) ∈ x'.tickets → (name, some (i, t)) ∈ x.tickets) : Leads x x' :=
  fun hx => ⟨hordered hx, fun i r hr =>
    ⟨[], r, rfl, rfl, (hbus i).trans hr.bus, fun name t ht => hr.tickets name t (htickets name i t ht)⟩⟩

/-- One bus is changed by an action, and tickets for it may be handed out. -/
theorem leads_setBus {x : Exchange} {j : Nat} (hj : j < x.buses.length) {b : Bus String Handler}
    {tickets : List (String × Option (Nat × Ticket String))}
    (hkept : ∀ name i t, (name, some (i, t)) ∈ tickets → (name, some (i, t)) ∈ x.tickets ∨ i = j)
    (hstep : ∀ r, x.Tracks j r → ∃ a r', r.step grow a = some r' ∧ r'.running = r.running ∧ b = r'.bus ∧
      ∀ name t, (name, some (j, t)) ∈ tickets → t ∈ r'.tickets) :
    Leads x { x.setBus j b with tickets := tickets } := by
  have hlength : (x.setBus j b).buses.length = x.buses.length := List.length_set
  intro hx
  refine ⟨⟨hlength ▸ hx.atHand, fun i hi => hlength ▸ hx.installed i hi, fun name i t ht => hlength ▸ ?_⟩, fun i r hr => ?_⟩
  · exact (hkept name i t ht).elim (hx.tickets name i t) fun heq => heq ▸ hj
  · by_cases hij : i = j
    · subst hij
      obtain ⟨a, r', ha, hrunning, hb, htickets⟩ := hstep r hr
      exact ⟨[a], r', Run.steps_one ha, hrunning, (bus_setBus_self hj b).trans hb, htickets⟩
    · exact ⟨[], r, rfl, rfl, (bus_setBus_ne x (Ne.symm hij) b).trans hr.bus,
        fun name t ht => hr.tickets name t ((hkept name i t ht).resolve_right hij)⟩

theorem leads_subscribe (x : Exchange) (shared : Bool) (name topic : String) (after : Option Command) :
    Leads x (x.subscribe shared name topic after) := by
  unfold Exchange.subscribe
  split
  · refine Leads.of_bus_eq (fun h => ⟨h.atHand, h.installed, fun name' i t ht => ?_⟩) (fun _ => rfl) fun name' i t ht => ?_
    · exact h.tickets name' i t (by simpa using ht)
    · simpa using ht
  · rename_i j hj
    intro hx
    refine leads_setBus (hx.target hj) (fun name' i t ht => ?_) (fun r hr => ?_) hx
    · rcases List.mem_cons.mp ht with heq | ht
      · cases heq
        exact .inr rfl
      · exact .inl ht
    · refine ⟨.subscribe topic ⟨name, after⟩, _, rfl, rfl, by rw [hr.bus], fun name' t ht => ?_⟩
      rw [List.mem_append, List.mem_singleton, ← hr.bus]
      rcases List.mem_cons.mp ht with heq | ht
      · cases heq
        exact .inr rfl
      · exact .inl (hr.tickets name' t ht)

theorem leads_unsubscribe (x : Exchange) (name : String) : Leads x (x.unsubscribe name) := by
  unfold Exchange.unsubscribe
  split
  · rename_i j t hlookup
    have ht : (name, some (j, t)) ∈ x.tickets := by
      obtain ⟨before, after, heq, -⟩ := List.lookup_eq_some_iff.mp hlookup
      rw [heq]
      exact List.mem_append_right _ List.mem_cons_self
    intro hx
    refine leads_setBus (hx.tickets name j t ht) (fun name' i t ht => .inl ht) (fun r hr => ?_) hx
    obtain ⟨n, hn⟩ := List.mem_iff_getElem?.mp (hr.tickets name t ht)
    exact ⟨.unsubscribe n, _, Run.step_unsubscribe_iff.mpr ⟨t, hn, rfl⟩, rfl, by rw [hr.bus], hr.tickets⟩
  · exact Leads.refl x

theorem leads_handle {fuel : Nat} (h : ∀ x c, Leads x (perform fuel x c).1) (topic : String) (payload : Int) (p : Exchange × List Call)
    (s : Subscription Handler) : Leads p.1 (handle fuel topic payload p s).1 := by
  unfold handle
  dsimp only
  split
  · exact Leads.refl _
  · exact h _ _

theorem leads_foldl {α β : Type} {f : Exchange × β → α → Exchange × β} (h : ∀ p a, Leads p.1 (f p a).1) (as : List α)
    (p : Exchange × β) : Leads p.1 (as.foldl f p).1 := by
  induction as generalizing p with
  | nil => exact Leads.refl _
  | cons a as ih => exact (h p a).trans (ih (f p a))

/-- What is no emission is done whatever fuel there is. -/
theorem leads_perform_other {c : Command} (h : ∀ shared topic payload, c ≠ .emit shared topic payload) (fuel : Nat) (x : Exchange) :
    Leads x (perform fuel x c).1 := by
  cases c with
  | on shared name topic after =>
    rw [perform]
    exact leads_subscribe x shared name topic after
  | off name =>
    rw [perform]
    exact leads_unsubscribe x name
  | emit shared topic payload => exact absurd rfl (h shared topic payload)
  | install =>
    rw [perform]
    refine Leads.of_bus_eq (fun hx => ⟨hx.atHand, fun i hi => ?_, hx.tickets⟩) (fun _ => rfl) fun _ _ _ ht => ht
    exact Option.some.inj hi ▸ hx.atHand
  | uninstall =>
    rw [perform]
    exact Leads.of_bus_eq (fun hx => ⟨hx.atHand, fun i hi => (nomatch hi), hx.tickets⟩) (fun _ => rfl) fun _ _ _ ht => ht
  | renew =>
    rw [perform]
    have hlength : (x.buses ++ [Bus.empty]).length = x.buses.length + 1 := List.length_append
    refine Leads.of_bus_eq (fun hx => ⟨?_, fun i hi => ?_, fun name i t ht => ?_⟩) (bus_append x) fun _ _ _ ht => ht
    · exact hlength ▸ Nat.lt_succ_self _
    · exact hlength ▸ Nat.lt_succ_of_lt (hx.installed i hi)
    · exact hlength ▸ Nat.lt_succ_of_lt (hx.tickets name i t ht)

/-- Whatever is done on an exchange goes on with the runs on its buses. -/
theorem leads_perform (fuel : Nat) (x : Exchange) (c : Command) : Leads x (perform fuel x c).1 := by
  induction fuel generalizing x c with
  | zero =>
    by_cases hemit : ∃ shared topic payload, c = .emit shared topic payload
    · obtain ⟨shared, topic, payload, rfl⟩ := hemit
      rw [perform]
      exact Leads.refl x
    · exact leads_perform_other (fun shared topic payload heq => hemit ⟨shared, topic, payload, heq⟩) 0 x
  | succ fuel ih =>
    by_cases hemit : ∃ shared topic payload, c = .emit shared topic payload
    · obtain ⟨shared, topic, payload, rfl⟩ := hemit
      rw [perform_emit_eq]
      split
      · exact Leads.refl x
      · rename_i i hi
        refine leads_foldl (fun p k => ?_) _ (x, [])
        cases (p.1.bus i).at? ((x.bus i).list topic) k with
        | none => exact Leads.refl _
        | some s => exact leads_handle ih topic payload p s
    · exact leads_perform_other (fun shared topic payload heq => hemit ⟨shared, topic, payload, heq⟩) (fuel + 1) x

/-! ## Exchanges that are come to -/

/-- The exchanges that commands come to, from the one with a new bus at hand. -/
inductive Comes : Exchange → Prop where
  | start : Comes {}
  | perform {x : Exchange} (fuel : Nat) (c : Command) : Comes x → Comes (x.perform fuel c).1

/-- What there is under a number is what a run has come to, on a new bus and with all its emissions ended. -/
theorem Comes.run {x : Exchange} (h : Comes x) : x.Ordered ∧
    ∀ i, ∃ actions r, Run.of grow actions = some r ∧ r.running = [] ∧ x.Tracks i r := by
  induction h with
  | start =>
    refine ⟨⟨Nat.zero_lt_one, fun i hi => (nomatch hi), fun name i t ht => (nomatch ht)⟩, fun i => ?_⟩
    refine ⟨[], {}, rfl, rfl, ?_, fun name t ht => (nomatch ht)⟩
    exact bus_append { buses := [] } i
  | perform fuel c _ ih =>
    obtain ⟨hx, hruns⟩ := ih
    obtain ⟨hx', hfollows⟩ := leads_perform fuel _ c hx
    refine ⟨hx', fun i => ?_⟩
    obtain ⟨actions, r, hsteps, hrunning, hr⟩ := hruns i
    obtain ⟨later, r', hlater, hrunning', hr'⟩ := hfollows i r hr
    exact ⟨actions ++ later, r', Run.steps_append hsteps hlater, hrunning'.trans hrunning, hr'⟩

/-- What is in the cells that an emission goes through is what was subscribed to its topic when it began. -/
theorem Leads.at?_list {x x' : Exchange} (h : Leads x x') (hx : x.Ordered) {i : Nat} {r : Run String Handler} (hr : x.Tracks i r)
    (hcoherent : r.Coherent) (topic : String) (k : Nat) :
    (x'.bus i).at? ((x.bus i).list topic) k = ((x.bus i).contents topic)[k]? := by
  -- The run in which an emission has just begun goes on, and the emission is still running in it.
  obtain ⟨e, r₁, hemit, he, hlist, hr₁⟩ : ∃ e r₁, r.step grow (.emit topic) = some r₁ ∧ e ∈ r₁.running ∧ e.list = (x.bus i).list topic ∧
      x.Tracks i r₁ :=
    ⟨_, _, rfl, List.mem_cons_self, by rw [hr.bus], hr.bus, hr.tickets⟩
  obtain ⟨actions, r₂, hsteps, hrunning, hr₂⟩ := (h hx).2 i r₁ hr₁
  have hcoherent₁ := (hcoherent.step hemit).1
  obtain ⟨hcoherent₂, hpast⟩ := hcoherent₁.steps hsteps
  have hgoes := hcoherent₁.running e he
  have hcontents : (x.bus i).contents topic = e.due r₁.past := by
    rw [contents, ← hlist, hr₁.bus, hgoes.cells]
  rw [← hlist, hr₂.bus, hcoherent₂.at?_list (hrunning ▸ he), hpast, Emission.due_append hgoes.began_le, hcontents]

/-- Going through what is in a list by numbers is going through the list, as long as what is read under a number is what is in the
list there. -/
theorem foldl_range_eq {α β : Type} (f : β → α → β) (read : β → Nat → Option α) (as : List α) (good : β → Prop)
    (hread : ∀ p, good p → ∀ k, read p k = as[k]?) (hgood : ∀ p a, good p → good (f p a)) {p : β} (hp : good p) :
    (List.range as.length).foldl (fun p k => ((read p k).map (f p)).getD p) p = as.foldl f p := by
  have htake : ∀ n ≤ as.length, (List.range n).foldl (fun p k => ((read p k).map (f p)).getD p) p = (as.take n).foldl f p ∧
      good ((as.take n).foldl f p) := by
    intro n hn
    induction n with
    | zero => exact ⟨rfl, hp⟩
    | succ n ih =>
      obtain ⟨heq, hgoodn⟩ := ih (Nat.le_of_succ_le hn)
      have hat : as[n]? = some as[n] := List.getElem?_eq_getElem hn
      rw [List.range_succ, List.foldl_append, heq, List.take_add_one, hat, List.foldl_append]
      dsimp only [List.foldl_cons, List.foldl_nil, Option.toList_some]
      rw [hread _ hgoodn, hat]
      exact ⟨rfl, hgood _ _ hgoodn⟩
  rw [(htake as.length (Nat.le_refl _)).1, List.take_length]

/-- An emission calls the handlers of the subscriptions that its topic has when it begins, and each of them does what it does. -/
theorem Comes.perform_emit {x : Exchange} (h : Comes x) (fuel : Nat) (shared : Bool) (topic : String) (payload : Int) :
    x.perform (fuel + 1) (.emit shared topic payload) =
      match x.target shared with
      | none => (x, [])
      | some i => ((x.bus i).contents topic).foldl (handle fuel topic payload) (x, []) := by
  rw [perform_emit_eq]
  cases x.target shared with
  | none => rfl
  | some i =>
    obtain ⟨hx, hruns⟩ := h.run
    obtain ⟨actions, r, hr, -, htracks⟩ := hruns i
    have hcoherent := (Run.Coherent.empty.steps hr).1
    have hlength : ((x.bus i).list topic).length = ((x.bus i).contents topic).length := by
      rw [contents, htracks.bus, Memory.length_cells (hcoherent.told.sound.fits topic)]
    dsimp only
    rw [hlength]
    exact foldl_range_eq (handle fuel topic payload) (fun p k => (p.1.bus i).at? ((x.bus i).list topic) k) _ (fun p => Leads x p.1)
      (fun p hp k => hp.at?_list hx htracks hcoherent topic k)
      (fun p s hp => hp.trans (leads_handle (leads_perform fuel) topic payload p s)) (Leads.refl x)

end Exchange

end ModalGraph
