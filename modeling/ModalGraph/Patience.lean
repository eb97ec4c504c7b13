/-!
# Patience

A caller may give up while work for them is going on: they leave, or the time is up that they allow. The work does not notice until it
asks. `Patience` says how often it will be told that the caller still waits; a caller who has given up does not come back.
-/

namespace ModalGraph

/-- How long a caller waits: to the end, or until they have been asked a number of times. -/
inductive Patience where
  | endless
  | times (n : Nat)
deriving DecidableEq, Repr

namespace Patience

/-- Whether the caller still waits. -/
def waits : Patience → Bool
  | .endless => true
  | .times n => 0 < n

/-- The patience that is left after the caller has been asked once. -/
def spent : Patience → Patience
  | .endless => .endless
  | .times n => .times (n - 1)

/-- A caller who waits to the end, or one who has given up. -/
def ofLive (live : Bool) : Patience :=
  if live then .endless else .times 0

end Patience

end ModalGraph
