import ModalGraph.Bus.Basic

/-!
# Buses that handlers act on

A handler may itself act while it handles: subscribe, end a subscription, or emit. An exchange holds the buses there are, one of
them at hand and at most one installed for everybody; a command acts on one of these two. An emission goes through the list of
subscriptions that it finds when it begins, and reads a cell of it when the handler in it is to be called, after all that the handlers
before it have done. Where nothing is installed, what is meant for everybody does nothing.
-/

namespace ModalGraph

/-- Something to do on an exchange; `shared` selects the installed bus in place of the one at hand. -/
inductive Command where
  /-- Subscribes a handler of some name, which does `after` each time it is called. -/
  | on (shared : Bool) (name topic : String) (after : Option Command)
  /-- Ends the latest subscription of a name. -/
  | off (name : String)
  /-- Emits a number on a topic. -/
  | emit (shared : Bool) (topic : String) (payload : Int)
  /-- Installs the bus at hand. -/
  | install
  /-- Installs nothing. -/
  | uninstall
  /-- Takes a new bus at hand. -/
  | renew
deriving Repr, Inhabited

/-- A handler: its name, and what it does when it is called. -/
structure Handler where
  name : String
  after : Option Command

/-- A call of a handler. -/
structure Call where
  name : String
  topic : String
  payload : Int
deriving DecidableEq, Repr

/-- The buses there are by number, the one at hand, the installed one, and the latest subscription of every name. -/
structure Exchange where
  buses : List (Bus String Handler) := [.empty]
  atHand : Nat := 0
  installed : Option Nat := none
  tickets : List (String × Option (Nat × Ticket String)) := []

namespace Exchange

/-- Whether a bus is installed. -/
def isEnabled (x : Exchange) : Bool :=
  x.installed.isSome

/-- The number of the bus that a command acts on. -/
def target (x : Exchange) (shared : Bool) : Option Nat :=
  if shared then x.installed else some x.atHand

/-- How much room a list gets that has outgrown its block. -/
def grow (room _ : Nat) : Nat :=
  2 * room

/-- A bus by number. -/
def bus (x : Exchange) (i : Nat) : Bus String Handler :=
  x.buses[i]?.getD .empty

/-- The exchange with another bus under a number. -/
def setBus (x : Exchange) (i : Nat) (b : Bus String Handler) : Exchange :=
  { x with buses := x.buses.set i b }

/-- The exchange with a handler subscribed. -/
def subscribe (x : Exchange) (shared : Bool) (name topic : String) (after : Option Command) : Exchange :=
  match x.target shared with
  | none => { x with tickets := (name, none) :: x.tickets }
  | some i =>
    let (b, ticket) := (x.bus i).subscribe grow topic ⟨name, after⟩
    { x.setBus i b with tickets := (name, some (i, ticket)) :: x.tickets }

/-- The exchange without the latest subscription of a name. -/
def unsubscribe (x : Exchange) (name : String) : Exchange :=
  match x.tickets.lookup name with
  | some (some (i, ticket)) => x.setBus i ((x.bus i).unsubscribe grow ticket)
  | _ => x

/-- Does a command, and all that handlers do in turn, and lists the calls in order. Calls nest at most as deep as there is
fuel. -/
def perform : Nat → Exchange → Command → Exchange × List Call
  | _, x, .on shared name topic after => (x.subscribe shared name topic after, [])
  | _, x, .off name => (x.unsubscribe name, [])
  | _, x, .install => ({ x with installed := some x.atHand }, [])
  | _, x, .uninstall => ({ x with installed := none }, [])
  | _, x, .renew => ({ x with buses := x.buses ++ [.empty], atHand := x.buses.length }, [])
  | 0, x, .emit .. => (x, [])
  | fuel + 1, x, .emit shared topic payload =>
    match x.target shared with
    | none => (x, [])
    | some i =>
      let s := (x.bus i).list topic
      (List.range s.length).foldl
        (fun (x, calls) k =>
          match (x.bus i).at? s k with
          | none => (x, calls)
          | some ⟨_, h⟩ =>
            let calls := calls ++ [⟨h.name, topic, payload⟩]
            match h.after with
            | none => (x, calls)
            | some c =>
              let (x, more) := perform fuel x c
              (x, calls ++ more))
        (x, [])

end Exchange

end ModalGraph
