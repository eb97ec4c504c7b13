import ModalGraph.Proofs.Bus.Run
import ModalGraph.Proofs.Bus.Subscriptions

/-!
# Which subscriptions stand

Which subscriptions stand is told by the actions that were taken alone (`Bus.standing`): those made for a topic whose tickets have not
been used. It is also what is in the lists of the bus, with every action that changes them (`Bus.Told`).
-/

namespace ModalGraph

namespace Bus

variable {τ η : Type}

/-- The subscriptions made, in their order. -/
def made (actions : List (Action τ η)) : List (τ × η) :=
  actions.filterMap fun
    | .subscribe topic handler => some (topic, handler)
    | _ => none

/-- Whether an action uses the ticket of a subscription. -/
def Action.uses (n : Nat) : Action τ η → Bool
  | .unsubscribe m => m == n
  | _ => false

/-- Whether the ticket of a subscription has been used. -/
def revoked (actions : List (Action τ η)) (n : Nat) : Bool :=
  actions.any (Action.uses n)

/-- The subscriptions to a topic that have been made and not been ended, in the order in which they were made. Each has a number of its
own: one more than were made before it. -/
def standing [BEq τ] (actions : List (Action τ η)) (topic : τ) : List (Subscription η) :=
  ((made actions).zipIdx.filter fun m => m.1.1 == topic && !revoked actions m.2).map fun m => ⟨m.2 + 1, m.1.2⟩

/-- The emissions begun, each by the number of actions taken before it, and its topic. -/
def begun (actions : List (Action τ η)) : List (Nat × τ) :=
  actions.zipIdx.filterMap fun
    | (.emit topic, n) => some (n, topic)
    | _ => none

theorem made_append (actions later : List (Action τ η)) : made (actions ++ later) = made actions ++ made later :=
  List.filterMap_append

theorem revoked_append (actions later : List (Action τ η)) (n : Nat) :
    revoked (actions ++ later) n = (revoked actions n || revoked later n) :=
  List.any_append

theorem begun_append_one (actions : List (Action τ η)) (a : Action τ η) :
    begun (actions ++ [a]) = begun actions ++
      match a with
      | .emit topic => [(actions.length, topic)]
      | _ => [] := by
  rw [begun, begun, List.zipIdx_append, List.filterMap_append]
  cases a <;> simp

section

variable [BEq τ]

/-- The numbers of what stands go up. -/
theorem standing_pairwise (actions : List (Action τ η)) (topic : τ) :
    ((standing actions topic).map Subscription.id).Pairwise (· < ·) := by
  have hall : (made actions).zipIdx.Pairwise fun m m' => m.2 < m'.2 := by
    rw [← List.pairwise_map (f := Prod.snd) (R := (· < ·)), List.zipIdx_map_snd]
    exact List.pairwise_lt_range'
  rw [standing, List.map_map, List.pairwise_map]
  exact (hall.filter _).imp fun hlt => Nat.succ_lt_succ hlt

theorem standing_nodup (actions : List (Action τ η)) (topic : τ) : ((standing actions topic).map Subscription.id).Nodup :=
  (standing_pairwise actions topic).imp Nat.ne_of_lt

theorem mem_standing [LawfulBEq τ] {actions : List (Action τ η)} {topic : τ} {s : Subscription η} (h : s ∈ standing actions topic) :
    ∃ n, s.id = n + 1 ∧ (made actions)[n]? = some (topic, s.handler) ∧ revoked actions n = false := by
  obtain ⟨⟨⟨other, handler⟩, n⟩, hfilter, rfl⟩ := List.mem_map.mp h
  obtain ⟨hm, hstands⟩ := List.mem_filter.mp hfilter
  rw [Bool.and_eq_true, beq_iff_eq, Bool.not_eq_true'] at hstands
  obtain ⟨rfl, hrevoked⟩ := hstands
  exact ⟨n, rfl, List.mk_mem_zipIdx_iff_getElem?.mp hm, hrevoked⟩

/-- An action that neither makes a subscription nor uses a ticket changes nothing about what stands. -/
theorem standing_append_other {a : Action τ η} (hmade : made [a] = []) (hrevoked : ∀ n, revoked [a] n = false)
    (actions : List (Action τ η)) (topic : τ) : standing (actions ++ [a]) topic = standing actions topic := by
  simp only [standing, made_append, revoked_append, hmade, hrevoked, List.append_nil, Bool.or_false]

theorem standing_append_unsubscribe (actions : List (Action τ η)) (n : Nat) (topic : τ) :
    standing (actions ++ [.unsubscribe n]) topic = (standing actions topic).filter fun s => s.id != n + 1 := by
  have hrevoked : ∀ m, revoked [(.unsubscribe n : Action τ η)] m = (n == m) := fun m => Bool.or_false _
  have hmade : made [(.unsubscribe n : Action τ η)] = [] := rfl
  simp only [standing, made_append, revoked_append, hmade, hrevoked, List.append_nil, List.filter_map, List.filter_filter]
  congr 1
  apply List.filter_congr
  intro m _
  simp only [Function.comp]
  cases hn : n == m.2 <;> grind

theorem standing_append_subscribe {actions : List (Action τ η)} (hnew : revoked actions (made actions).length = false)
    (topic : τ) (handler : η) (other : τ) : standing (actions ++ [.subscribe topic handler]) other =
      standing actions other ++ if topic == other then [⟨(made actions).length + 1, handler⟩] else [] := by
  have hrevoked : ∀ m, revoked [(.subscribe topic handler : Action τ η)] m = false := fun _ => rfl
  have hmade : made [(.subscribe topic handler : Action τ η)] = [(topic, handler)] := rfl
  simp only [standing, made_append, revoked_append, hmade, hrevoked, Bool.or_false, List.zipIdx_append, List.filter_append,
    List.map_append]
  congr 1
  cases htopic : topic == other <;> simp [htopic, hnew]

/-! ## What is in the lists -/

/-- A bus and the tickets handed out are told by the actions taken. -/
structure Told (actions : List (Action τ η)) (b : Bus τ η) (tickets : List (Ticket τ)) : Prop where
  sound : b.Sound
  last : b.last = (made actions).length
  tickets : tickets = (made actions).zipIdx.map fun m => ⟨m.1.1, m.2 + 1⟩
  revoked_lt : ∀ n, revoked actions n = true → n < (made actions).length
  used : ∀ n, n + 1 ∈ b.used ↔ revoked actions n = true
  contents : ∀ topic, b.contents topic = standing actions topic

theorem Told.empty : Told ([] : List (Action τ η)) .empty [] :=
  { sound := sound_empty
    last := rfl
    tickets := rfl
    revoked_lt := fun _ h => nomatch h
    used := fun _ => ⟨fun h => absurd h List.not_mem_nil, fun h => absurd h Bool.false_ne_true⟩
    contents := fun _ => rfl }

variable {actions : List (Action τ η)} {b : Bus τ η} {tickets : List (Ticket τ)}

theorem Told.other (h : Told actions b tickets) {a : Action τ η} (hmade : made [a] = []) (hrevoked : ∀ n, revoked [a] n = false) :
    Told (actions ++ [a]) b tickets := by
  have hmade' : made (actions ++ [a]) = made actions := by rw [made_append, hmade, List.append_nil]
  have hrevoked' : ∀ n, revoked (actions ++ [a]) n = revoked actions n := fun n => by
    rw [revoked_append, hrevoked, Bool.or_false]
  refine ⟨h.sound, hmade' ▸ h.last, hmade' ▸ h.tickets, fun n hn => ?_, fun n => ?_, fun topic => ?_⟩
  · rw [hmade']
    exact h.revoked_lt n (hrevoked' n ▸ hn)
  · rw [hrevoked', h.used]
  · rw [standing_append_other hmade hrevoked, h.contents]

theorem Told.ticket (h : Told actions b tickets) {n : Nat} {t : Ticket τ} (ht : tickets[n]? = some t) :
    n < (made actions).length ∧ t.id = n + 1 ∧ (made actions)[n]?.map Prod.fst = some t.topic := by
  rw [h.tickets] at ht
  grind

variable [LawfulBEq τ]

theorem Told.changes_subscribe (h : Told actions b tickets) (grow : Nat → Nat → Nat) (topic : τ) (handler : η) :
    Told (actions ++ [.subscribe topic handler]) (b.subscribe grow topic handler).1
      (tickets ++ [(b.subscribe grow topic handler).2]) := by
  have hchanges := h.sound.subscribe grow topic handler
  have hmade : made (actions ++ [.subscribe topic handler]) = made actions ++ [(topic, handler)] := made_append _ _
  have hrevoked : ∀ n, revoked (actions ++ [.subscribe topic handler]) n = revoked actions n := fun n => by
    rw [revoked_append]
    exact Bool.or_false _
  refine ⟨hchanges.sound, ?_, ?_, fun n hn => ?_, fun n => ?_, fun other => ?_⟩
  · rw [hmade, List.length_append, ← h.last]
    rfl
  · rw [hmade, List.zipIdx_append, List.map_append, ← h.tickets, List.zipIdx_singleton, List.map_singleton, Nat.zero_add, ← h.last]
    rfl
  · rw [hmade, List.length_append]
    exact Nat.lt_add_right 1 (h.revoked_lt n (hrevoked n ▸ hn))
  · rw [hrevoked]
    exact h.used n
  · have hnew : revoked actions (made actions).length = false :=
      Bool.eq_false_iff.mpr fun hrev => Nat.lt_irrefl _ (h.revoked_lt _ hrev)
    rw [standing_append_subscribe hnew]
    by_cases hother : other = topic
    · rw [hother, hchanges.contents_self, h.contents, h.last, beq_self_eq_true, if_pos rfl]
    · rw [hchanges.contents_ne other hother, h.contents, show (topic == other) = false by simpa using Ne.symm hother]
      exact (List.append_nil _).symm

/-- What using a ticket that was handed out does to the bus. -/
theorem Told.unsubscribe (h : Told actions b tickets) (grow : Nat → Nat → Nat) {n : Nat} {t : Ticket τ} (ht : tickets[n]? = some t) :
    Changes b (b.unsubscribe grow t) t.topic ((b.contents t.topic).filter fun s => s.id != t.id) := by
  obtain ⟨-, hid, -⟩ := h.ticket ht
  refine h.sound.unsubscribe grow t ?_ fun hused s hs heq => ?_
  · rw [h.contents]
    exact standing_nodup actions t.topic
  · rw [h.contents] at hs
    obtain ⟨m, hm, -, hstands⟩ := mem_standing hs
    rw [hid, h.used] at hused
    have hmn : m = n := by omega
    rw [hmn, hused] at hstands
    exact absurd hstands (by decide)

theorem Told.changes_unsubscribe (h : Told actions b tickets) (grow : Nat → Nat → Nat) {n : Nat} {t : Ticket τ}
    (ht : tickets[n]? = some t) : Told (actions ++ [.unsubscribe n]) (b.unsubscribe grow t) tickets := by
  have hchanges := h.unsubscribe grow ht
  obtain ⟨hlt, hid, htopic⟩ := h.ticket ht
  have hmade : made (actions ++ [.unsubscribe n]) = made actions := by
    rw [made_append]
    exact List.append_nil _
  have hrevoked : ∀ m, revoked (actions ++ [.unsubscribe n]) m = (revoked actions m || n == m) := fun m => by
    rw [revoked_append]
    exact congrArg _ (Bool.or_false _)
  refine ⟨hchanges.sound, ?_, hmade ▸ h.tickets, fun m hm => ?_, fun m => ?_, fun other => ?_⟩
  · rw [unsubscribe_last, hmade, h.last]
  · rw [hmade]
    rw [hrevoked, Bool.or_eq_true, beq_iff_eq] at hm
    exact hm.elim (h.revoked_lt m) fun heq => heq ▸ hlt
  · rw [mem_used_unsubscribe, hrevoked, Bool.or_eq_true, beq_iff_eq, h.used, hid, or_comm, Nat.succ.injEq, eq_comm (a := m)]
  · rw [standing_append_unsubscribe]
    by_cases hother : other = t.topic
    · rw [hother, hchanges.contents_self, h.contents, hid]
    · rw [hchanges.contents_ne other hother, h.contents, filter_id_eq_self]
      intro s hs heq
      obtain ⟨m, hm, hmade, -⟩ := mem_standing hs
      have hmn : m = n := by omega
      rw [hmn] at hmade
      rw [hmade] at htopic
      exact hother (Option.some.inj htopic)

end

end Bus

end ModalGraph
