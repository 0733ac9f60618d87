import PriceTime.Proofs.Run

/-!
# Plain books

A plain book is nothing but queues: for each side and price a list of the orders that wait there,
the oldest first, and for each id the place where the order waits. It says what the operations of a
book are about without slots, links, levels or counters. Its operations always have an answer.

* `PlainBook.add`, `PlainBook.remove`, `PlainBook.modify`, `PlainBook.trade`: the operations.
* `PlainBook.step`: what a call does.
* `Book.plain`: the plain book that a book stands for.
-/

namespace PriceTime

/-- What a queue knows of an order that waits in it. -/
structure Entry where
  id : UInt64
  size : UInt32
  time : UInt64
deriving DecidableEq

/-- The queue of each side and price, and the place of each order by id. -/
@[ext] structure PlainBook where
  queue : Side → Int32 → List Entry
  place : UInt64 → Option (Side × Int32)

namespace PlainBook

/-- A book without orders. -/
def empty : PlainBook where
  queue _ _ := []
  place _ := none

/-- Replace the queue at a price of a side. -/
def setQueue (b : PlainBook) (side : Side) (price : Int32) (entries : List Entry) : PlainBook :=
  { b with queue := fun s p => if s = side ∧ p = price then entries else b.queue s p }

/-- Replace the place of an order. -/
def setPlace (b : PlainBook) (id : UInt64) (place : Option (Side × Int32)) : PlainBook :=
  { b with place := fun i => if i = id then place else b.place i }

/-- The order with an id and the place where it waits. -/
def find? (b : PlainBook) (id : UInt64) : Option (Side × Int32 × Entry) :=
  (b.place id).bind fun (side, price) =>
    ((b.queue side price).find? fun entry => entry.id == id).map fun entry => (side, price, entry)

/-- Put a new order at the end of a queue. -/
def enqueue (b : PlainBook) (side : Side) (price : Int32) (entry : Entry) : PlainBook :=
  (b.setQueue side price (b.queue side price ++ [entry])).setPlace entry.id (some (side, price))

/-- Take an order out of a queue, wherever it stands. -/
def dequeue (b : PlainBook) (side : Side) (price : Int32) (id : UInt64) : PlainBook :=
  (b.setQueue side price ((b.queue side price).eraseP fun entry => entry.id == id)).setPlace id none

/-! ## Operations -/

/-- A new order goes to the end of the queue of its side and price. -/
def add (b : PlainBook) (id : UInt64) (price : Int32) (size : UInt32) (side : Side) (time : UInt64) :
    Except BookError Unit × PlainBook :=
  if (b.place id).isSome then (.error (.duplicateOrder id), b)
  else (.ok (), b.enqueue side price { id, size, time })

/-- An order is taken out and handed back as it was added or modified last. -/
def remove (b : PlainBook) (id : UInt64) : Except BookError Order × PlainBook :=
  match b.find? id with
  | none => (.error (.unknownOrder id), b)
  | some (side, price, entry) =>
    (.ok { id, price, size := entry.size, side, time := entry.time }, b.dequeue side price id)

/-- An order is added, moves to the end of another queue or of its own, or changes its size. -/
def modify (b : PlainBook) (id : UInt64) (price : Int32) (size : UInt32) (side : Side)
    (time : UInt64) : Except BookError ModifyOutcome × PlainBook :=
  match b.find? id with
  | none => (.ok .added, b.enqueue side price { id, size, time })
  | some (side', price', entry) =>
    if side' ≠ side then (.error (.sideMismatch id side' side), b)
    else if price' ≠ price then
      (.ok .repriced, (b.dequeue side price' id).enqueue side price { id, size, time })
    else if entry.size < size then
      (.ok .requeued, (b.dequeue side price id).enqueue side price { id, size, time })
    else
      (.ok .resized, b.setQueue side price ((b.queue side price).map fun entry =>
        if entry.id = id then { entry with size } else entry))

/-- Match what is unmatched of a trade against the orders of a queue, the oldest first. -/
def tradeAlong (side : Side) (price : Int32) :
    List Entry → TradeReport → PlainBook → TradeReport × PlainBook
  | [], report, b => (report, b)
  | entry :: rest, report, b =>
    if report.unmatched = 0 then (report, b)
    else if report.unmatched < entry.size then
      ({ report with
          traded := report.traded + report.unmatched
          unmatched := 0
          reduced := report.reduced + 1 },
        b.setQueue side price ({ entry with size := entry.size - report.unmatched } :: rest))
    else
      tradeAlong side price rest { report with
          traded := report.traded + entry.size
          unmatched := report.unmatched - entry.size
          filled := report.filled + 1 }
        ((b.setQueue side price rest).setPlace entry.id none)

/-- A trade takes from the orders at exactly its price on the other side. -/
def trade (b : PlainBook) (id : UInt64) (price : Int32) (size : UInt32) (side : Side) :
    TradeReport × PlainBook :=
  tradeAlong side.opposite price (b.queue side.opposite price)
    { aggressor := id, unmatched := size } b

/-- A message is one of the operations. No slot is known here, so it is left at zero. -/
def process (b : PlainBook) (m : Message) : Except BookError Applied × PlainBook :=
  match m.action with
  | .add =>
    let (result, b) := b.add m.id m.price m.size m.side m.time
    (result.map fun _ => .added 0, b)
  | .cancel =>
    let (result, b) := b.remove m.id
    (result.map fun order => .cancelled order.id, b)
  | .modify =>
    let (result, b) := b.modify m.id m.price m.size m.side m.time
    (result.map .modified, b)
  | .trade =>
    let (report, b) := b.trade m.id m.price m.size m.side
    (.ok (.traded report), b)

/-- What a call does, and its answer unless that is a figure. -/
def step (b : PlainBook) : Call → Option Answer × PlainBook
  | .process m =>
    let (result, b) := b.process m
    (some (.processed result), b)
  | .add id price size side time =>
    let (result, b) := b.add id price size side time
    (some (.added (result.map fun _ => 0)), b)
  | .remove id =>
    let (result, b) := b.remove id
    (some (.removed result), b)
  | .modify id price size side time =>
    let (result, b) := b.modify id price size side time
    (some (.modified result), b)
  | .trade id price size side =>
    let (report, b) := b.trade id price size side
    (some (.traded report), b)
  | .drawVolumes => (some .done, b)
  | .drawImbalance | .drawSkew | .drawChange | .drawMid => (none, b)
  | .reset => (some .done, empty)

end PlainBook

/-! ## Answers without slots -/

/-- What a message did, but for the slot it used. -/
def Applied.withoutSlot : Applied → Applied
  | .added _ => .added 0
  | applied => applied

/-- An answer, but for the slot it names. -/
def Answer.withoutSlot : Answer → Answer
  | .processed result => .processed (result.map Applied.withoutSlot)
  | .added result => .added (result.map fun _ => 0)
  | answer => answer

/-! ## What a book stands for -/

/-- What a queue knows of an order. -/
def Order.entry (o : Order) : Entry :=
  { id := o.id, size := o.size, time := o.time }

/-- The queues of a book, read off its levels, and the places of its orders. -/
def Book.plain (b : Book) : PlainBook where
  queue side price :=
    match b.level? side price with
    | some level => (b.ordersOf level).map fun slotted => slotted.2.entry
    | none => []
  place id := (b.get? id).map fun order => (order.side, order.price)

end PriceTime
