import PriceTime.Book.Basic
import PriceTime.Event

/-!
# Operations on the resting book

Orders are added, removed, modified and traded against. Orders at one price of one side wait in the
order of their arrival, and a level lives exactly as long as it has orders.

An operation that is rejected leaves the book as it was. Every operation reports the levels it made
and gave up, and what looked wrong about its arguments.
-/

namespace PriceTime

/-- What an operation on a state of type `σ` leaves behind: its answer, the state afterwards and
what was reported on the way. -/
structure Step (σ α : Type) where
  result : Except BookError α
  state : σ
  events : List Event := []

/-- Change the answer of an operation. -/
def Step.map {σ α β : Type} (f : α → β) (step : Step σ α) : Step σ β :=
  { result := step.result.map f, state := step.state, events := step.events }

/-- What a modify did to its order. -/
inductive ModifyOutcome where
  /-- The order was not in the book, and was added. -/
  | added
  /-- The size changed in place, and the order kept its turn. -/
  | resized
  /-- The order grew, and went to the end of its level. -/
  | requeued
  /-- The order went to the end of the level of another price. -/
  | repriced
deriving DecidableEq

/-- What a trade did to the resting orders. -/
structure TradeReport where
  /-- The order that came to trade. -/
  aggressor : UInt64
  /-- The size taken from resting orders. -/
  traded : UInt32 := 0
  /-- The size that found no resting order at the price. -/
  unmatched : UInt32
  /-- The resting orders that were taken completely. -/
  filled : UInt32 := 0
  /-- The resting orders that were left with a smaller size. -/
  reduced : UInt32 := 0
deriving DecidableEq

namespace Book

/-! ## Levels come and go -/

/-- The level at a price of a side, made first if there is none. -/
def levelFor (b : Book) (side : Side) (price : Int32) : LevelKey × Book × List Event :=
  match b.levelKey? side price with
  | some key => (key, b, [])
  | none =>
    let ⟨queues, bids, asks, index⟩ := b
    let (key, queues) := queues.openLevel price side
    let b : Book := ⟨queues, bids, asks, index⟩
    (key, b.onHalf side (·.insertLevel price key), [.levelCreated price side])

/-- Give up a level. -/
def closeLevel (b : Book) (key : LevelKey) (level : Level) : Book :=
  let ⟨queues, bids, asks, index⟩ := b
  let b : Book := ⟨queues.closeLevel key, bids, asks, index⟩
  b.onHalf level.side (·.eraseLevel level.price)

/-- Put an order at the end of a level. -/
def link (b : Book) (key : LevelKey) (slot : Slot) : Except Fault Book :=
  b.onQueues fun queues => do
    let queues ← queues.append key slot
    queues.update slot fun order => { order with level := some key }

/-- Take an order out of its level, and give the level up if the order was its last. -/
def detach (b : Book) (slot : Slot) : Except Fault (Book × List Event) := do
  let order ← b.queues.orders.fetch slot
  match order.level with
  | none => return (b, [])
  | some key =>
    let (_, b) ← b.fromQueues fun queues => do
      let queues ← queues.update slot fun order => { order with level := none }
      queues.unlink key slot
    let level ← b.queues.fetchLevel key
    if level.isEmpty then
      return (b.closeLevel key level, [.levelReleased level.price level.side])
    else
      return (b, [])

/-- The level that holds a resting order. -/
def levelOf (b : Book) (slot : Slot) : Except Fault LevelKey := do
  let order ← b.queues.orders.fetch slot
  match order.level with
  | some key => return key
  | none => throw .unlinkedOrder

/-! ## Counts -/

/-- Count one more order on a side. -/
def countUp (b : Book) (side : Side) : Book :=
  b.onHalf side fun h => { h with count := h.count + 1 }

/-- Count one order less on a side. -/
def countDown (b : Book) (side : Side) : Except Fault Book :=
  if (b.half side).count = 0 then .error .underflow
  else .ok (b.onHalf side fun h => { h with count := h.count - 1 })

/-- Give back the slot of an order that is in no level. -/
def take (b : Book) (slot : Slot) : Except Fault (Order × Book) :=
  b.fromQueues (·.release slot)

/-! ## Add and remove -/

/-- Put a new order at the end of the level of its price. -/
def add (b : Book) (id : UInt64) (price : Int32) (size : UInt32) (side : Side) (time : UInt64) :
    Except Fault (Step Book Slot) := do
  if b.contains id then
    return { result := .error (.duplicateOrder id), state := b }
  else
    let (key, b, events) := b.levelFor side price
    let ⟨queues, bids, asks, index⟩ := b
    let (slot, queues) := queues.acquire { id, price, size, side, time }
    let b : Book := ⟨queues, bids, asks, index.insert id slot⟩
    let b ← b.link key slot
    return { result := .ok slot, state := b.countUp side, events }

/-- Take an order out of the book. -/
def remove (b : Book) (id : UInt64) : Except Fault (Step Book Order) := do
  match b.index[id]? with
  | none => return { result := .error (.unknownOrder id), state := b }
  | some slot =>
    let ⟨queues, bids, asks, index⟩ := b
    let b : Book := ⟨queues, bids, asks, index.erase id⟩
    let (b, events) ← b.detach slot
    let (order, b) ← b.take slot
    return { result := .ok order, state := ← b.countDown order.side, events }

/-! ## Modify -/

/-- Move a resting order to the end of the level of another price. -/
def reprice (b : Book) (slot : Slot) (price : Int32) (size : UInt32) (side : Side) (time : UInt64) :
    Except Fault (Book × List Event) := do
  let (b, released) ← b.detach slot
  let (key, b, created) := b.levelFor side price
  let b ← b.onQueues (·.update slot fun order => { order with price, size, time })
  let b ← b.link key slot
  return (b, released ++ created)

/-- Let a resting order grow, and move it to the end of its level. -/
def requeue (b : Book) (slot : Slot) (size : UInt32) (time : UInt64) : Except Fault Book := do
  let key ← b.levelOf slot
  b.onQueues fun queues => do
    let (_, queues) ← queues.unlink key slot
    let queues ← queues.update slot fun order => { order with size, time }
    queues.append key slot

/-- Let a resting order shrink by `less` to `size`, in place. -/
def resize (b : Book) (slot : Slot) (less size : UInt32) : Except Fault Book := do
  let key ← b.levelOf slot
  b.onQueues fun queues => do
    let queues ← queues.reduce key less
    queues.update slot fun order => { order with size }

/-- Change the price or the size of an order. An order that is not in the book is added. A resting
order that gets another price or grows loses its turn; one that shrinks, or stays as it is, keeps
it. -/
def modify (b : Book) (id : UInt64) (price : Int32) (size : UInt32) (side : Side) (time : UInt64) :
    Except Fault (Step Book ModifyOutcome) := do
  match b.index[id]? with
  | none =>
    let step ← b.add id price size side time
    return { step.map fun _ => .added with events := .modifyAdds id price :: step.events }
  | some slot =>
    let order ← b.queues.orders.fetch slot
    if order.side ≠ side then
      return {
        result := .error (.sideMismatch id order.side side)
        state := b
        events := [.modifySwitchesSides id order.side side] }
    else if order.price ≠ price then
      let (b, events) ← b.reprice slot price size side time
      return { result := .ok .repriced, state := b, events }
    else if order.size < size then
      return { result := .ok .requeued, state := ← b.requeue slot size time }
    else
      return { result := .ok .resized, state := ← b.resize slot (order.size - size) size }

/-! ## Trade -/

/-- Take `remaining` off the order at the head of a level, which is larger. -/
def tradePart (b : Book) (key : LevelKey) (slot : Slot) (remaining : UInt32) : Except Fault Book :=
  b.onQueues fun queues => do
    let queues ← queues.update slot fun order => { order with size := order.size - remaining }
    queues.reduce key remaining

/-- Take all that remains of the order at the head of a level, and take it out of the book: the
amount taken and the book afterwards. The order is counted on the side that the trade meets. -/
def tradeWhole (b : Book) (side : Side) (key : LevelKey) (slot : Slot) (id : UInt64)
    (remaining : UInt32) : Except Fault (UInt32 × Book × List Event) := do
  let (taken, b) ← b.fromQueues fun queues => do
    let (taken, queues) ← queues.fill slot remaining
    let queues ← queues.reduce key taken
    return (taken, queues)
  let ⟨queues, bids, asks, index⟩ := b
  let b : Book := ⟨queues, bids, asks, index.erase id⟩
  let (b, events) ← b.detach slot
  let (_, b) ← b.take slot
  return (taken, ← b.countDown side, events)

/-- Match what is unmatched of a trade against a level of a side from `cursor` on. Each turn but the
last one takes an order out of the book, so `turns` need not exceed the number of orders by more than
one. -/
def tradeAlong (side : Side) (key : LevelKey) :
    (turns : Nat) → Option Slot → TradeReport → Book → List Event →
      Except Fault (TradeReport × Book × List Event)
  | 0, _, _, _, _ => .error .endlessQueue
  | _ + 1, none, report, b, events => .ok (report, b, events)
  | turns + 1, some slot, report, b, events => do
    if report.unmatched = 0 then
      return (report, b, events)
    let order ← b.queues.orders.fetch slot
    if report.unmatched < order.size then
      let b ← b.tradePart key slot report.unmatched
      let report := { report with
        traded := report.traded + report.unmatched
        unmatched := 0
        reduced := report.reduced + 1 }
      return (report, b, events)
    else
      let next := order.next
      let (taken, b, more) ← b.tradeWhole side key slot order.id report.unmatched
      let report := { report with
        traded := report.traded + taken
        unmatched := report.unmatched - taken
        filled := report.filled + 1 }
      tradeAlong side key turns next report b (events ++ more)

/-- Match a trade against the side opposite to the aggressor: the orders at exactly the price of the
trade, the oldest first. An order that is taken completely leaves the book at once. -/
def trade (b : Book) (id : UInt64) (price : Int32) (size : UInt32) (side : Side) :
    Except Fault (TradeReport × Book × List Event) := do
  let report : TradeReport := { aggressor := id, unmatched := size }
  let resting := side.opposite
  match b.levelKey? resting price with
  | none => return (report, b, [.tradeFindsNoLevel price resting])
  | some key =>
    let level ← b.queues.fetchLevel key
    tradeAlong resting key (b.queues.orders.size + 1) level.head report b []

end Book

end PriceTime
