import PriceTime.Book.Operation
import PriceTime.BookConfig
import PriceTime.Calendar
import PriceTime.Indicators
import PriceTime.Message
import PriceTime.Snapshot
import PriceTime.Tape

/-!
# Sessions

A session is a book with what surrounds it: the tape of its trades, the figures drawn from it, the
number of messages it was given and the time of the last of them. Messages count and move the clock
even if they are rejected; the operations called directly do neither.
-/

namespace PriceTime

/-- A book with its tape, its figures and its clock. -/
structure Session where
  config : BookConfig
  book : Book := .empty
  tape : Tape := {}
  indicators : Indicators
  /-- The number of messages processed. -/
  messages : UInt64 := 0
  /-- The time of the last message processed. -/
  clock : UInt64 := 0

/-- What a message did. -/
inductive Applied where
  | added (slot : Slot)
  | cancelled (id : UInt64)
  | modified (outcome : ModifyOutcome)
  | traded (report : TradeReport)
deriving DecidableEq

namespace Session

/-- A session with nothing in it. -/
def ofConfig (config : BookConfig) : Session where
  config
  indicators := .fresh config.volumeDepth.toNat config.historyCapacity.toNat

/-- Start over, with the same settings. -/
def reset (s : Session) : Session where
  config := s.config
  book := s.book.clear
  tape := {}
  indicators := s.indicators.clear
  messages := 0
  clock := 0

/-! ## Operations -/

/-- Run an operation of the book. -/
@[inline] def onBook {α : Type} (s : Session) (f : Book → Except Fault (Step Book α)) :
    Except Fault (Step Session α) :=
  let ⟨config, book, tape, indicators, messages, clock⟩ := s
  match f book with
  | .ok step =>
    .ok ⟨step.result, ⟨config, step.state, tape, indicators, messages, clock⟩, step.events⟩
  | .error fault => .error fault

/-- Put a new order at the end of the level of its price. -/
def add (s : Session) (id : UInt64) (price : Int32) (size : UInt32) (side : Side) (time : UInt64) :
    Except Fault (Step Session Slot) :=
  s.onBook fun book => book.add id price size side time

/-- Take an order out of the book. -/
def remove (s : Session) (id : UInt64) : Except Fault (Step Session Order) :=
  s.onBook fun book => book.remove id

/-- Change the price or the size of an order. -/
def modify (s : Session) (id : UInt64) (price : Int32) (size : UInt32) (side : Side)
    (time : UInt64) : Except Fault (Step Session ModifyOutcome) :=
  s.onBook fun book => book.modify id price size side time

/-- Enter a trade on the tape and match it against the side opposite to the aggressor. -/
def trade (s : Session) (id : UInt64) (price : Int32) (size : UInt32) (side : Side) :
    Except Fault (TradeReport × Session × List Event) := do
  let ⟨config, book, tape, indicators, messages, clock⟩ := s
  let (report, book, events) ← book.trade id price size side
  return (report, ⟨config, book, tape.record price size, indicators, messages, clock⟩, events)

/-! ## Messages -/

/-- Count a message and move the clock to its time. -/
def tick (s : Session) (time : UInt64) : Session :=
  { s with messages := s.messages + 1, clock := time }

/-- Cancel an order. The side of the message need not be the side of the order, but a disagreement
is reported. -/
def cancel (s : Session) (id : UInt64) (side : Side) : Except Fault (Step Session UInt64) := do
  let step ← s.remove id
  match step.result with
  | .ok order =>
    let events :=
      if order.side = side then step.events
      else step.events ++ [.cancelSideDisagrees id order.side side]
    return { result := .ok order.id, state := step.state, events }
  | .error error =>
    let events := step.events ++ [.cancelRejected id error]
    return { result := .error error, state := step.state, events }

/-- Process a message. -/
def process (s : Session) (m : Message) : Except Fault (Step Session Applied) := do
  let s := s.tick m.time
  match m.action with
  | .add => return (← s.add m.id m.price m.size m.side m.time).map .added
  | .cancel => return (← s.cancel m.id m.side).map .cancelled
  | .modify => return (← s.modify m.id m.price m.size m.side m.time).map .modified
  | .trade =>
    let (report, state, events) ← s.trade m.id m.price m.size m.side
    return { result := .ok (.traded report), state, events }

/-! ## Figures -/

/-- Draw the volumes near the top. -/
def drawVolumes (s : Session) : Session :=
  { s with indicators := s.indicators.drawVolumes s.book }

/-- Draw the imbalance of the volumes drawn last. -/
def drawImbalance (s : Session) : Float × Session :=
  let (imbalance, indicators) := s.indicators.drawImbalance
  (imbalance, { s with indicators })

/-- Draw the skew of the best volumes. -/
def drawSkew (s : Session) : Option Float × Session :=
  let (skew, indicators) := s.indicators.drawSkew s.book
  (skew, { s with indicators })

/-- Draw the change of volume at the best prices. -/
def drawChange (s : Session) : Option Int64 × Session :=
  let (change, indicators) := s.indicators.drawChange s.book
  (change, { s with indicators })

/-- Enter the mid price into the history. -/
def drawMid (s : Session) : Option Int32 × Session :=
  let (mid, indicators) := s.indicators.drawMid s.book
  (mid, { s with indicators })

/-! ## Views -/

/-- Copy the best `depth` levels of each side. -/
def snapshot (s : Session) (depth : Nat) : Snapshot :=
  .ofBook s.book s.clock depth

/-- Copy as many of the best levels as the settings say. -/
def topLevels (s : Session) : Snapshot :=
  s.snapshot s.config.snapshotDepth.toNat

/-- The clock in the calendar. -/
def formattedTime (s : Session) : String :=
  Calendar.format s.clock

end Session

end PriceTime
