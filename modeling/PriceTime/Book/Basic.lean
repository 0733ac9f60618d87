import PriceTime.Ladder
import PriceTime.Queues

/-!
# The resting book

A book holds the resting orders of both sides: the queues of its levels, one ladder and one price
index for each side, and an index of the orders by id. The indexes and ladders only repeat what the
queues hold, so that a level is found by price and an order by id without a search.
-/

namespace PriceTime

/-- What a book knows of one side. -/
structure HalfBook where
  /-- The levels, best first. -/
  ladder : Ladder
  /-- The levels by price. -/
  index : Std.ExtTreeMap Int32 LevelKey := ∅
  /-- The number of resting orders. -/
  count : UInt64 := 0

namespace HalfBook

/-- A side without orders. -/
def empty (side : Side) : HalfBook :=
  { ladder := { side } }

/-- A side that has lost all its orders. -/
def clear (h : HalfBook) : HalfBook :=
  { ladder := h.ladder.clear }

/-- Enter a new level. -/
def insertLevel (h : HalfBook) (price : Int32) (key : LevelKey) : HalfBook :=
  { h with ladder := h.ladder.insert price key, index := h.index.insert price key }

/-- Strike out a level. -/
def eraseLevel (h : HalfBook) (price : Int32) : HalfBook :=
  { h with ladder := (h.ladder.remove price).2, index := h.index.erase price }

end HalfBook

/-- The resting orders of both sides. -/
structure Book where
  queues : Queues := .empty
  bids : HalfBook := .empty .bid
  asks : HalfBook := .empty .ask
  /-- Where each resting order is, by id. -/
  index : Std.ExtTreeMap UInt64 Slot := ∅

namespace Book

/-- A book without orders. -/
def empty : Book := {}

instance : Inhabited Book := ⟨empty⟩

/-- A book that has lost all its orders. Slots and levels are numbered from zero again. -/
def clear (b : Book) : Book :=
  { bids := b.bids.clear, asks := b.asks.clear }

/-- What the book knows of a side. -/
def half (b : Book) : Side → HalfBook
  | .bid => b.bids
  | .ask => b.asks

/-- Change what the book knows of a side. -/
def onHalf (b : Book) (side : Side) (f : HalfBook → HalfBook) : Book :=
  match side with
  | .bid => { b with bids := f b.bids }
  | .ask => { b with asks := f b.asks }

/-- Change the queues. -/
@[inline] def onQueues (b : Book) (f : Queues → Except Fault Queues) : Except Fault Book :=
  let ⟨queues, bids, asks, index⟩ := b
  match f queues with
  | .ok queues => .ok ⟨queues, bids, asks, index⟩
  | .error fault => .error fault

/-- Change the queues with a change that also has an answer. -/
@[inline] def fromQueues {α : Type} (b : Book) (f : Queues → Except Fault (α × Queues)) :
    Except Fault (α × Book) :=
  let ⟨queues, bids, asks, index⟩ := b
  match f queues with
  | .ok (x, queues) => .ok (x, ⟨queues, bids, asks, index⟩)
  | .error fault => .error fault

/-! ## Levels -/

/-- The key of the level at a price of a side. -/
def levelKey? (b : Book) (side : Side) (price : Int32) : Option LevelKey :=
  (b.half side).index[price]?

/-- The level at a price of a side. -/
def level? (b : Book) (side : Side) (price : Int32) : Option Level :=
  (b.levelKey? side price).bind b.queues.levels.get?

/-- The levels of a side, best first. -/
def levels (b : Book) (side : Side) : List Level :=
  (b.half side).ladder.keys.filterMap b.queues.levels.get?

/-- The number of levels of a side. -/
def levelCount (b : Book) (side : Side) : Nat :=
  (b.half side).ladder.size

/-- The best level of a side. -/
def best? (b : Book) (side : Side) : Option Level :=
  (b.half side).ladder.best?.bind fun (_, key) => b.queues.levels.get? key

/-- The best price of a side. -/
def bestPrice? (b : Book) (side : Side) : Option Int32 :=
  (b.half side).ladder.best?.map Prod.fst

/-- The volume at the best price of a side. -/
def bestVolume? (b : Book) (side : Side) : Option UInt64 :=
  (b.best? side).map Level.volume

/-- The best price of a side and the volume there. -/
def bestQuote? (b : Book) (side : Side) : Option (Int32 × UInt64) :=
  (b.half side).ladder.best?.bind fun (price, key) =>
    (b.queues.levels.get? key).map fun level => (price, level.volume)

/-! ## Orders -/

/-- Whether an order rests in the book. -/
def contains (b : Book) (id : UInt64) : Bool :=
  b.index.contains id

/-- The resting order with an id. -/
def get? (b : Book) (id : UInt64) : Option Order :=
  b.index[id]?.bind b.queues.orders.get?

/-- The orders of a level with their slots, oldest first. -/
def ordersOf (b : Book) (level : Level) : List (Slot × Order) :=
  b.queues.ordersOf level

/-- The ids of the orders at a price of a side, oldest first. -/
def idsAt (b : Book) (side : Side) (price : Int32) : List UInt64 :=
  match b.level? side price with
  | some level => (b.ordersOf level).map fun (_, order) => order.id
  | none => []

/-- Whether no order rests in the book. -/
def isEmpty (b : Book) : Bool :=
  b.index.isEmpty

/-- The number of resting orders. -/
def count (b : Book) : UInt64 :=
  b.bids.count + b.asks.count

/-! ## Prices between the two sides -/

/-- The mean of the best prices, rounded toward zero. -/
def midPrice? (b : Book) : Option Int32 := do
  let bid ← b.bestPrice? .bid
  let ask ← b.bestPrice? .ask
  return ((bid.toInt64 + ask.toInt64) / 2).toInt32

/-- How far the best ask price is above the best bid price; negative while the book is crossed. -/
def spread? (b : Book) : Option Int64 := do
  let bid ← b.bestPrice? .bid
  let ask ← b.bestPrice? .ask
  return ask.toInt64 - bid.toInt64

end Book

end PriceTime
