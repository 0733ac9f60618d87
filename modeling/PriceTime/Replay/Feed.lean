import PriceTime.Book.Basic
import PriceTime.Fifo
import PriceTime.Message

/-!
# A synthetic feed

A feed that is the same every time: it adds orders around a slowly drifting price, cancels and
modifies the oldest orders it remembers, and trades at the best prices of the book it feeds. It
forgets its oldest orders when they are no longer in the book.
-/

namespace PriceTime

/-- An order as the feed remembers it. -/
structure LiveOrder where
  id : UInt64
  price : Int32
  side : Side
  size : UInt32
deriving DecidableEq

/-- A feed between two messages. -/
structure Feed where
  /-- The number of messages so far. -/
  seq : UInt64 := 0
  /-- The id of the next new order. -/
  nextId : UInt64 := 1
  /-- The time of the last message. -/
  time : UInt64
  /-- The orders the feed remembers, oldest first. -/
  live : Fifo LiveOrder := .empty

namespace Feed

/-- The price in the middle. -/
def mid (f : Feed) : Int32 :=
  10000 + (f.seq / 500 % 40).toUInt32.toInt32 - 20

/-- Forget the oldest orders up to the first one that is still in the book; there are at most `n` to
forget. -/
def forgetGone (b : Book) : (n : Nat) → Fifo LiveOrder → Fifo LiveOrder
  | 0, live => live
  | n + 1, live =>
    match live.head? with
    | none => live
    | some order => if b.contains order.id then live else forgetGone b n live.tail

/-- Move on to the next message. -/
def advance (f : Feed) (b : Book) : Feed :=
  let ⟨seq, nextId, time, live⟩ := f
  let seq := seq + 1
  ⟨seq, nextId, time + 1000 + seq % 13 * 100, forgetGone b live.size live⟩

/-- Add a new order, on each side in turn. -/
def add (f : Feed) : Message × Feed :=
  let offset : Int32 := 1 + (f.seq % 5).toUInt32.toInt32
  let size : UInt32 := 1 + (f.seq % 7).toUInt32 * 10
  let (side, price) : Side × Int32 :=
    if f.seq % 2 = 0 then (.bid, f.mid - offset) else (.ask, f.mid + offset)
  let ⟨seq, id, time, live⟩ := f
  ({ action := .add, id, price, size, side, time },
    ⟨seq, id + 1, time, live.push { id, price, side, size }⟩)

/-- Cancel an order, which is no longer remembered. -/
def cancel (f : Feed) (order : LiveOrder) (rest : Fifo LiveOrder) : Message × Feed :=
  let ⟨id, price, side, size⟩ := order
  ({ action := .cancel, id, price, size, side, time := f.time }, { f with live := rest })

/-- The next size of an order: every other time it is about half, and then five more. -/
def nextSize (f : Feed) (size : UInt32) : UInt32 :=
  if f.seq % 20 = 7 then size / 2 + 1 else size + 5

/-- Modify the oldest order. -/
def modify (f : Feed) (order : LiveOrder) : Message × Feed :=
  let size := f.nextSize order.size
  let ⟨seq, nextId, time, live⟩ := f
  ({ action := .modify, id := order.id, price := order.price, size, side := order.side, time },
    ⟨seq, nextId, time, live.modifyHead fun order => { order with size }⟩)

/-- Trade at a price. -/
def trade (f : Feed) (price : Int32) (side : Side) : Message × Feed :=
  ({ action := .trade, id := f.nextId, price, size := 15, side, time := f.time },
    { f with nextId := f.nextId + 1 })

/-- Trade at the best ask every third time, at the best bid otherwise. -/
def tradeAtBest (f : Feed) (b : Book) : Message × Feed :=
  match b.bestPrice? .bid, b.bestPrice? .ask with
  | some bid, some ask => if f.seq % 3 = 0 then f.trade ask .bid else f.trade bid .ask
  | none, some ask => if f.seq % 3 = 0 then f.trade ask .bid else f.add
  | some bid, none => f.trade bid .ask
  | none, none => f.add

/-- The next message to a book, and the feed afterwards. -/
def next (f : Feed) (b : Book) : Message × Feed :=
  let f := f.advance b
  match f.seq % 10 with
  | 5 | 6 =>
    if 64 < f.live.size then
      match f.live.pop? with
      | some (order, rest) => f.cancel order rest
      | none => f.add
    else f.add
  | 7 =>
    match f.live.head? with
    | some order => f.modify order
    | none => f.add
  | 8 => f.tradeAtBest b
  | _ => f.add

end Feed

end PriceTime
