import PriceTime.Side

/-!
# Resting orders

An order waits in the queue of one price level. The queue is threaded through the orders
themselves: each knows its older and its newer neighbour and the level that holds it, all by number,
so an order leaves its queue without a search.
-/

namespace PriceTime

/-- Where an order is kept. -/
abbrev Slot := Nat

/-- Where a price level is kept. -/
abbrev LevelKey := Nat

/-- An order that rests in a book. -/
structure Order where
  /-- The name the feed gave the order. -/
  id : UInt64 := 0
  price : Int32 := 0
  /-- What remains to be traded. -/
  size : UInt32 := 0
  side : Side := .bid
  /-- When the order last went to the end of a queue. -/
  time : UInt64 := 0
  /-- Set once a trade took all that remained. -/
  filled : Bool := false
  /-- The next older order of the same level. -/
  prev : Option Slot := none
  /-- The next newer order of the same level. -/
  next : Option Slot := none
  /-- The level that holds the order. -/
  level : Option LevelKey := none
deriving DecidableEq, Inhabited

namespace Order

/-- An order belongs to no queue when it has neither neighbours nor a level. -/
def isUnlinked (o : Order) : Bool :=
  o.prev.isNone && o.next.isNone && o.level.isNone

/-- Take up to `quantity` from what remains: the amount taken and the order afterwards. An order
with nothing left is filled. -/
def fill (o : Order) (quantity : UInt32) : UInt32 × Order :=
  let taken := min quantity o.size
  let size := o.size - taken
  (taken, { o with size, filled := o.filled || size == 0 })

end Order

end PriceTime
