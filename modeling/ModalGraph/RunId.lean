/-!
# Run ids

Work that belongs together carries one run id, so that reports of it can be matched. `RunIds` deals out numbers that were not
dealt out before, and keeps the one that the work at hand carries.
-/

namespace ModalGraph

/-- The next run id, and the one that the work at hand carries, if any. -/
structure RunIds where
  next : Nat := 0
  current : Option Nat := none
deriving DecidableEq, Repr

namespace RunIds

/-- Gives the work at hand a new run id. -/
def renew (r : RunIds) : RunIds :=
  ⟨r.next + 1, some r.next⟩

/-- Gives the work at hand a run id unless it carries one. -/
def ensure (r : RunIds) : RunIds :=
  if r.current.isSome then r else r.renew

/-- Turns to work without a run id. -/
def clear (r : RunIds) : RunIds :=
  { r with current := none }

end RunIds

end ModalGraph
