/-!
# Faults

A book trusts its own links, indexes and counters. When one of them is wrong there is no answer to
give, and the operation ends with a fault that says which trust was broken.
-/

namespace PriceTime

/-- A broken promise inside a book. -/
inductive Fault where
  /-- A slot that should hold an order is free. -/
  | freeSlot
  /-- A level key that should name a level is free. -/
  | freeLevel
  /-- A resting order is in no level. -/
  | unlinkedOrder
  /-- More was taken from a sum or a count than it held. -/
  | underflow
  /-- A walk along a queue did not come to an end. -/
  | endlessQueue
deriving DecidableEq

/-- The words for a fault. -/
def Fault.message : Fault → String
  | freeSlot => "Invalid order handle"
  | freeLevel => "invalid key"
  | unlinkedOrder => "resident order is linked to a level"
  | underflow => "attempt to subtract with overflow"
  | endlessQueue => "endless queue"

end PriceTime
