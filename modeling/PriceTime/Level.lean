import PriceTime.Arena
import PriceTime.Fault
import PriceTime.Order

/-!
# Price levels

A level is the queue of the orders at one price of one side, oldest first. The queue is threaded
through the orders, which stay in a pool shared by all levels; the level itself knows only the two
ends, the sum of the sizes and the number of the orders.

* `Level.append` puts an order at the end, `Level.unlink` takes one out from anywhere.
* `Level.orders` reads the queue from its oldest order on.
-/

namespace PriceTime

/-- The orders of all levels. -/
abbrev Pool := Arena Order

namespace Pool

/-- The order in a slot; a free slot is a fault. -/
def fetch (pool : Pool) (slot : Slot) : Except Fault Order :=
  match pool.get? slot with
  | some order => .ok order
  | none => .error .freeSlot

/-- Change the order in a slot; a free slot is a fault. -/
def update (pool : Pool) (slot : Slot) (f : Order → Order) : Except Fault Pool :=
  match pool.get? slot with
  | some _ => .ok (pool.modify slot f)
  | none => .error .freeSlot

/-- Take up to `quantity` from the order in a slot: the amount taken and the pool afterwards. -/
def fill (pool : Pool) (slot : Slot) (quantity : UInt32) : Except Fault (UInt32 × Pool) :=
  match pool.get? slot with
  | some order =>
    let (taken, order) := order.fill quantity
    .ok (taken, pool.set slot order)
  | none => .error .freeSlot

end Pool

/-- The queue of the orders at one price of one side. -/
structure Level where
  price : Int32
  side : Side
  /-- The sum of the sizes of the orders. -/
  volume : UInt64 := 0
  /-- The number of the orders. -/
  count : UInt32 := 0
  /-- The oldest order, the first to be matched. -/
  head : Option Slot := none
  /-- The newest order. -/
  tail : Option Slot := none
deriving DecidableEq

namespace Level

/-- A level has no orders when it has no ends and counts none. -/
def isEmpty (l : Level) : Bool :=
  l.head.isNone && l.tail.isNone && l.count == 0

/-- Put an order at the end of the queue. -/
def append (l : Level) (slot : Slot) (pool : Pool) : Except Fault (Level × Pool) := do
  let order ← pool.fetch slot
  let pool : Pool := pool.modify slot fun o => { o with prev := l.tail, next := none }
  let pool ← match l.tail with
    | some tail => pool.update tail fun o => { o with next := some slot }
    | none => pure pool
  let head := match l.tail with
    | some _ => l.head
    | none => some slot
  let volume := l.volume + order.size.toUInt64
  return ({ l with head, tail := some slot, count := l.count + 1, volume }, pool)

/-- Take an order out of the queue, wherever it stands: its size, the level and the pool afterwards.
-/
def unlink (l : Level) (slot : Slot) (pool : Pool) : Except Fault (UInt32 × Level × Pool) := do
  let order ← pool.fetch slot
  let (head, pool) ← match order.prev with
    | some prev => do
      let pool ← pool.update prev fun o => { o with next := order.next }
      pure (l.head, pool)
    | none => pure (order.next, pool)
  let (tail, pool) ← match order.next with
    | some next => do
      let pool ← pool.update next fun o => { o with prev := order.prev }
      pure (l.tail, pool)
    | none => pure (order.prev, pool)
  let pool := pool.modify slot fun o => { o with prev := none, next := none }
  if l.count = 0 ∨ l.volume < order.size.toUInt64 then
    throw .underflow
  let volume := l.volume - order.size.toUInt64
  return (order.size, { l with head, tail, count := l.count - 1, volume }, pool)

/-- Take `quantity` off the sum of the sizes, after an order of the queue became smaller. -/
def reduce (l : Level) (quantity : UInt32) : Except Fault Level :=
  if l.volume < quantity.toUInt64 then .error .underflow
  else .ok { l with volume := l.volume - quantity.toUInt64 }

/-- Follow the links to newer orders for at most `steps` orders. A free slot ends the walk. -/
def walk (pool : Pool) : (steps : Nat) → Option Slot → List (Slot × Order)
  | 0, _ => []
  | _, none => []
  | steps + 1, some slot =>
    match pool.get? slot with
    | some order => (slot, order) :: walk pool steps order.next
    | none => []

/-- The orders of a level with their slots, oldest first. A queue without a loop has at most as many
orders as the pool. -/
def orders (l : Level) (pool : Pool) : List (Slot × Order) :=
  walk pool pool.size l.head

end Level

end PriceTime
