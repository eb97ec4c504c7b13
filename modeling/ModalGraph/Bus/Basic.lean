import ModalGraph.Bus.Memory

/-!
# A bus of handlers

Handlers subscribe to a topic on a bus. For every topic there is a list of its subscriptions, in the order in which they were made;
what is emitted on the topic goes through the list that there is when the emission begins (`Bus.list`), cell by cell (`Bus.at?`).
Whoever subscribes is handed a ticket, which ends the subscription when it is used for the first time.
-/

namespace ModalGraph

/-- A handler subscribed to a topic, under a number of its own. -/
structure Subscription (η : Type) where
  id : Nat
  handler : η
deriving DecidableEq, Repr

/-- What ends a subscription. -/
structure Ticket (τ : Type) where
  topic : τ
  id : Nat
deriving DecidableEq, Repr

/-- The last number given, the cells of all lists, the list of every topic that has one, and the numbers on the tickets that have been
used. -/
structure Bus (τ η : Type) where
  last : Nat := 0
  memory : Memory (Subscription η) := {}
  lists : List (τ × Stretch) := []
  used : List Nat := []

namespace Bus

variable {τ η : Type}

/-- A bus without subscriptions. -/
def empty : Bus τ η := {}

section

variable [BEq τ]

/-- The list of a topic. -/
def list (b : Bus τ η) (topic : τ) : Stretch :=
  (b.lists.lookup topic).getD .nil

/-- The bus with another list for a topic. A topic without subscriptions has none. -/
def setList (b : Bus τ η) (topic : τ) (s : Stretch) : Bus τ η :=
  let others := b.lists.filter fun e => e.1 != topic
  { b with lists := if s.length = 0 then others else (topic, s) :: others }

/-- The subscription that is in a cell of a list now. -/
def at? (b : Bus τ η) (s : Stretch) (k : Nat) : Option (Subscription η) :=
  b.memory.cell? s k

/-- The bus with a handler subscribed to a topic, and the ticket of the subscription. -/
def subscribe (grow : Nat → Nat → Nat) (b : Bus τ η) (topic : τ) (handler : η) : Bus τ η × Ticket τ :=
  let id := b.last + 1
  let (memory, s) := b.memory.append grow (b.list topic) [⟨id, handler⟩]
  ({ b with last := id, memory := memory }.setList topic s, ⟨topic, id⟩)

/-- The bus after a ticket is used. Only the first use ends the subscription. -/
def unsubscribe (grow : Nat → Nat → Nat) (b : Bus τ η) (t : Ticket τ) : Bus τ η :=
  if b.used.contains t.id then b
  else
    let b := { b with used := t.id :: b.used }
    let s := b.list t.topic
    match (b.memory.cells s).findIdx? fun subscription => subscription.id == t.id with
    | none => b.setList t.topic s
    | some k =>
      let (memory, rest) := b.memory.remove grow s k
      { b with memory := memory }.setList t.topic rest

end

end Bus

end ModalGraph
