import ModalGraph.Bus.Basic

/-!
# Runs on a bus

What is done to one bus, by whomever: handlers are subscribed, tickets are used, and emissions begin, call handlers one after the
other, and end. A handler may do all of this itself while it handles, so emissions are running within each other, and it is the
latest of them that calls its next handler or ends. What the handlers do is left open: every sequence of actions is a run if each
of them can be taken where it stands (`Run.of`). An emission goes through the cells of the list that its topic has when it begins,
and reads each cell when it comes to it.
-/

namespace ModalGraph

namespace Bus

/-- Something that is done to a bus. -/
inductive Action (τ η : Type) where
  /-- Subscribes a handler. -/
  | subscribe (topic : τ) (handler : η)
  /-- Uses the ticket of a subscription, by the number of those made before it. -/
  | unsubscribe (n : Nat)
  /-- Begins an emission, within those that are running. -/
  | emit (topic : τ)
  /-- The latest of the running emissions calls its next handler. -/
  | call
  /-- The latest of the running emissions ends: it has come to the end of its list. -/
  | finish
deriving Repr

/-- An emission: how many actions were taken before it began, its topic, the list that it goes through, and the subscriptions that it
has called so far. -/
structure Emission (τ η : Type) where
  began : Nat
  topic : τ
  list : Stretch
  called : List (Subscription η) := []
deriving Repr

/-- How far a run has come: the bus, the tickets handed out, the actions taken, the emissions that are running, the latest first, and
those that have ended. -/
structure Run (τ η : Type) where
  bus : Bus τ η := .empty
  tickets : List (Ticket τ) := []
  past : List (Action τ η) := []
  running : List (Emission τ η) := []
  ended : List (Emission τ η) := []

namespace Run

variable {τ η : Type} [BEq τ]

/-- Takes an action, if it can be taken. -/
def step (grow : Nat → Nat → Nat) (r : Run τ η) (a : Action τ η) : Option (Run τ η) :=
  let past := r.past ++ [a]
  match a with
  | .subscribe topic handler =>
    let (bus, ticket) := r.bus.subscribe grow topic handler
    some { r with past := past, bus := bus, tickets := r.tickets ++ [ticket] }
  | .unsubscribe n =>
    match r.tickets[n]? with
    | none => none
    | some ticket => some { r with past := past, bus := r.bus.unsubscribe grow ticket }
  | .emit topic =>
    let e := { began := r.past.length, topic := topic, list := r.bus.list topic }
    some { r with past := past, running := e :: r.running }
  | .call =>
    match r.running with
    | [] => none
    | e :: outer =>
      match r.bus.at? e.list e.called.length with
      | none => none
      | some s => some { r with past := past, running := { e with called := e.called ++ [s] } :: outer }
  | .finish =>
    match r.running with
    | [] => none
    | e :: outer =>
      if e.called.length < e.list.length then none
      else some { r with past := past, running := outer, ended := r.ended ++ [e] }

/-- Takes actions one after the other. -/
def steps (grow : Nat → Nat → Nat) (r : Run τ η) (actions : List (Action τ η)) : Option (Run τ η) :=
  actions.foldlM (step grow) r

/-- The run of some actions on a new bus. -/
def of (grow : Nat → Nat → Nat) (actions : List (Action τ η)) : Option (Run τ η) :=
  steps grow {} actions

/-! ## What a step does -/

variable {grow : Nat → Nat → Nat} {r r' r'' : Run τ η}

theorem steps_one {a : Action τ η} (h : r.step grow a = some r') : r.steps grow [a] = some r' := by
  rw [steps, List.foldlM_cons, h]
  rfl

theorem steps_append {actions later : List (Action τ η)} (h : r.steps grow actions = some r') (hlater : r'.steps grow later = some r'') :
    r.steps grow (actions ++ later) = some r'' := by
  rw [steps, List.foldlM_append, Option.bind_eq_bind, Option.bind_eq_some_iff]
  exact ⟨r', h, hlater⟩

theorem step_unsubscribe_iff {n : Nat} : r.step grow (.unsubscribe n) = some r' ↔
    ∃ ticket, r.tickets[n]? = some ticket ∧
      { r with past := r.past ++ [.unsubscribe n], bus := r.bus.unsubscribe grow ticket } = r' := by
  unfold step
  dsimp only
  cases r.tickets[n]? with
  | none => simp
  | some ticket => simp

theorem step_call_iff : r.step grow .call = some r' ↔
    ∃ e outer s, r.running = e :: outer ∧ r.bus.at? e.list e.called.length = some s ∧
      { r with past := r.past ++ [.call], running := { e with called := e.called ++ [s] } :: outer } = r' := by
  unfold step
  dsimp only
  cases r.running with
  | nil => simp
  | cons e outer =>
    dsimp only
    constructor
    · intro h
      split at h
      · cases h
      · exact ⟨e, outer, _, rfl, ‹_›, Option.some.inj h⟩
    · rintro ⟨_, _, s, heq, hs, rfl⟩
      cases heq
      rw [hs]

theorem step_finish_iff : r.step grow .finish = some r' ↔
    ∃ e outer, r.running = e :: outer ∧ e.list.length ≤ e.called.length ∧
      { r with past := r.past ++ [.finish], running := outer, ended := r.ended ++ [e] } = r' := by
  unfold step
  dsimp only
  cases r.running with
  | nil => simp
  | cons e outer =>
    dsimp only
    constructor
    · intro h
      split at h
      · cases h
      · rename_i hlt
        exact ⟨e, outer, rfl, Nat.le_of_not_lt hlt, Option.some.inj h⟩
    · rintro ⟨_, _, heq, hle, rfl⟩
      cases heq
      rw [if_neg (Nat.not_lt_of_le hle)]

end Run

end Bus

end ModalGraph
