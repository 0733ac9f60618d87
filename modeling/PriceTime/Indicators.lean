import PriceTime.Book.Basic
import PriceTime.Window

/-!
# Indicators

Figures drawn from a book for a strategy: the volume near the top of each side, their imbalance, the
skew of the best volumes, the change of volume at the best prices, and the mid price. They are
computed on demand and kept until the next time. Drawing a figure reads the book and never changes
it.
-/

namespace PriceTime

/-- The figures last drawn from a book. -/
structure Indicators where
  /-- How many levels of each side count as near the top. -/
  depth : Nat
  bidVolume : UInt64 := 0
  askVolume : UInt64 := 0
  imbalance : Float := 0
  skew : Float := 0
  /-- The best bid and its volume when the change of volume was last drawn. -/
  lastBid : Option (Int32 × UInt64) := none
  /-- The best ask and its volume when the change of volume was last drawn. -/
  lastAsk : Option (Int32 × UInt64) := none
  /-- The changes of volume. -/
  changes : Window Int64
  /-- The mid prices. -/
  mids : Window Int32

namespace Indicators

/-- No figures yet. -/
def fresh (depth history : Nat) : Indicators :=
  { depth, changes := { capacity := history }, mids := { capacity := history } }

/-- The volume of the best `depth` levels of a side. -/
def volumeNearTop (depth : Nat) (b : Book) (side : Side) : UInt64 :=
  ((b.levels side).take depth).foldl (fun sum level => sum + level.volume) 0

/-- Draw the volumes near the top. -/
def drawVolumes (i : Indicators) (b : Book) : Indicators :=
  { i with
    bidVolume := volumeNearTop i.depth b .bid
    askVolume := volumeNearTop i.depth b .ask }

/-- Draw the imbalance of the volumes near the top: from minus one, all on the ask side, to one, all
on the bid side. -/
def drawImbalance (i : Indicators) : Float × Indicators :=
  let total := i.bidVolume + i.askVolume
  let imbalance :=
    if total = 0 then 0
    else (i.bidVolume.toFloat - i.askVolume.toFloat) / total.toFloat
  (imbalance, { i with imbalance })

/-- Draw the skew of the best volumes, in powers of ten. It stays as it was while a side is empty.
-/
def drawSkew (i : Indicators) (b : Book) : Option Float × Indicators :=
  match b.bestVolume? .bid, b.bestVolume? .ask with
  | some bid, some ask =>
    let skew := bid.toFloat.log10 - ask.toFloat.log10
    (some skew, { i with skew })
  | _, _ => (none, i)

/-- What one side contributes to the change of volume: all its volume if its best price got better,
the difference if the price held, nothing if it got worse. A smaller rank is a better price. -/
def contribution (side : Side) (last : Option (Int32 × UInt64)) (now : Int32 × UInt64) : Int64 :=
  match last with
  | none => now.2.toInt64
  | some (price, volume) =>
    if side.rank now.1 < side.rank price then now.2.toInt64
    else if now.1 = price then now.2.toInt64 - volume.toInt64
    else 0

/-- Draw the change of volume at the best prices since the last time, and enter it into the history.
Nothing is drawn while a side is empty. -/
def drawChange (i : Indicators) (b : Book) : Option Int64 × Indicators :=
  match b.bestQuote? .bid, b.bestQuote? .ask with
  | some bid, some ask =>
    let change := contribution .bid i.lastBid bid - contribution .ask i.lastAsk ask
    (some change,
      { i with changes := i.changes.record change, lastBid := some bid, lastAsk := some ask })
  | _, _ => (none, i)

/-- Enter the mid price into the history. Nothing is entered while a side is empty. -/
def drawMid (i : Indicators) (b : Book) : Option Int32 × Indicators :=
  match b.midPrice? with
  | some mid => (some mid, { i with mids := i.mids.record mid })
  | none => (none, i)

/-- Forget all figures. -/
def clear (i : Indicators) : Indicators :=
  { depth := i.depth, changes := i.changes.clear, mids := i.mids.clear }

end Indicators

end PriceTime
