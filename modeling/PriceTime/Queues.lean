import PriceTime.Level

/-!
# Level queues over one pool

All levels of a book keep their orders in one pool. The operations here change one level together
with the pool, and name both by number.
-/

namespace PriceTime

/-- The levels of a book and the pool their orders are in. -/
structure Queues where
  orders : Pool := .empty
  levels : Arena Level := .empty

namespace Queues

/-- No levels and no orders. -/
def empty : Queues := {}

/-- The level with a key; a free key is a fault. -/
def fetchLevel (q : Queues) (key : LevelKey) : Except Fault Level :=
  match q.levels.get? key with
  | some level => .ok level
  | none => .error .freeLevel

/-- Put the order in a slot at the end of a level. -/
def append (q : Queues) (key : LevelKey) (slot : Slot) : Except Fault Queues := do
  let level ← q.fetchLevel key
  let ⟨orders, levels⟩ := q
  let (level, orders) ← level.append slot orders
  return ⟨orders, levels.set key level⟩

/-- Take the order in a slot out of a level: its size and the queues afterwards. -/
def unlink (q : Queues) (key : LevelKey) (slot : Slot) : Except Fault (UInt32 × Queues) := do
  let level ← q.fetchLevel key
  let ⟨orders, levels⟩ := q
  let (size, level, orders) ← level.unlink slot orders
  return (size, ⟨orders, levels.set key level⟩)

/-- Take `quantity` off the sum of the sizes of a level. -/
def reduce (q : Queues) (key : LevelKey) (quantity : UInt32) : Except Fault Queues := do
  let level ← q.fetchLevel key
  let level ← level.reduce quantity
  return { q with levels := q.levels.set key level }

/-- Change the order in a slot. -/
def update (q : Queues) (slot : Slot) (f : Order → Order) : Except Fault Queues := do
  let ⟨orders, levels⟩ := q
  let orders ← orders.update slot f
  return ⟨orders, levels⟩

/-- Take up to `quantity` from the order in a slot. -/
def fill (q : Queues) (slot : Slot) (quantity : UInt32) : Except Fault (UInt32 × Queues) := do
  let ⟨orders, levels⟩ := q
  let (taken, orders) ← orders.fill slot quantity
  return (taken, ⟨orders, levels⟩)

/-- Put an order into the pool, in no level. -/
def acquire (q : Queues) (order : Order) : Slot × Queues :=
  let ⟨orders, levels⟩ := q
  let (slot, orders) := orders.insert order
  (slot, ⟨orders, levels⟩)

/-- Take the order in a slot out of the pool. -/
def release (q : Queues) (slot : Slot) : Except Fault (Order × Queues) :=
  let ⟨orders, levels⟩ := q
  match orders.get? slot with
  | some order => .ok (order, ⟨orders.vacate slot, levels⟩)
  | none => .error .freeSlot

/-- Make a level without orders. -/
def openLevel (q : Queues) (price : Int32) (side : Side) : LevelKey × Queues :=
  let ⟨orders, levels⟩ := q
  let (key, levels) := levels.insert { price, side }
  (key, ⟨orders, levels⟩)

/-- Give up a level. -/
def closeLevel (q : Queues) (key : LevelKey) : Queues :=
  { q with levels := q.levels.vacate key }

/-- The orders of the level with a key, oldest first. -/
def ordersOf (q : Queues) (level : Level) : List (Slot × Order) :=
  level.orders q.orders

end Queues

end PriceTime
