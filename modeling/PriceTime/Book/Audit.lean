import PriceTime.Book.Basic
import PriceTime.BookError

/-!
# Audits

An audit reads a whole book and checks that its parts agree: every indexed order is linked once into
the level it names, the sums and counts of each level match its orders, the ladders, the price
indexes and the levels hold the same, and the counts of the sides match.
-/

namespace PriceTime

/-- What an audit found wrong. -/
inductive Violation where
  | freeLevelInLadder (side : Side) (price : Int32)
  | mislabelledLevel (side : Side) (price : Int32)
  | unindexedLevel (side : Side) (price : Int32)
  | emptyLevel (side : Side) (price : Int32)
  | ladderOutOfOrder (side : Side) (price : Int32)
  | staleBackReference (id : UInt64)
  | brokenPrevLink (id : UInt64)
  | misplacedOrder (id : UInt64)
  | unindexedOrder (id : UInt64)
  | tailMismatch (side : Side) (price : Int32)
  | wrongAggregates (side : Side) (price : Int32) (heldVolume : UInt64) (heldCount : UInt32)
      (volume : UInt64) (count : UInt32)
  | wrongSideCount (side : Side) (held linked : UInt64)
  | wrongOrderTotals (linked indexed pooled : Nat)
  | wrongLevelTotals (allocated inLadders indexed : Nat)
deriving DecidableEq

namespace Violation

/-- A price and a side in words. -/
def place (price : Int32) (side : Side) : String :=
  Decimal.ofInt price.toInt ++ " " ++ side.label

/-- The words for a violation. -/
def message : Violation → String
  | freeLevelInLadder side price =>
    "ladder " ++ side.label ++ " " ++ Decimal.ofInt price.toInt ++ " points to a free level"
  | mislabelledLevel side price => "level " ++ place price side ++ " mislabelled"
  | unindexedLevel side price => "level " ++ place price side ++ " missing from level index"
  | emptyLevel side price => "empty level " ++ place price side ++ " left in ladder"
  | ladderOutOfOrder side price =>
    side.label ++ " ladder out of order at " ++ Decimal.ofInt price.toInt
  | staleBackReference id => "order " ++ Decimal.ofNat id.toNat ++ " back-reference is stale"
  | brokenPrevLink id => "order " ++ Decimal.ofNat id.toNat ++ " prev link broken"
  | misplacedOrder id => "order " ++ Decimal.ofNat id.toNat ++ " sits at the wrong level"
  | unindexedOrder id => "order " ++ Decimal.ofNat id.toNat ++ " missing from id index"
  | tailMismatch side price => "level " ++ place price side ++ " tail mismatch"
  | wrongAggregates side price heldVolume heldCount volume count =>
    "level " ++ place price side ++ " aggregates " ++ Decimal.ofNat heldVolume.toNat ++ "/" ++
      Decimal.ofNat heldCount.toNat ++ " but members sum to " ++
      Decimal.ofNat volume.toNat ++ "/" ++ Decimal.ofNat count.toNat
  | wrongSideCount side held linked =>
    side.label ++ " count " ++ Decimal.ofNat held.toNat ++ " but " ++ Decimal.ofNat linked.toNat ++
      " linked"
  | wrongOrderTotals linked indexed pooled =>
    Decimal.ofNat linked ++ " linked orders, " ++ Decimal.ofNat indexed ++ " indexed, " ++
      Decimal.ofNat pooled ++ " pooled"
  | wrongLevelTotals allocated inLadders indexed =>
    Decimal.ofNat allocated ++ " levels allocated, " ++ Decimal.ofNat inLadders ++
      " in ladders, " ++ Decimal.ofNat indexed ++ " indexed"

end Violation

namespace Book

/-- What an audit has summed up of a level so far. -/
structure LevelTally where
  volume : UInt64 := 0
  count : UInt32 := 0
  /-- The last order seen. -/
  prev : Option Slot := none

/-- Check one order of a level, the next one after those in the tally. -/
def auditOrder (b : Book) (side : Side) (price : Int32) (key : LevelKey) (tally : LevelTally)
    (entry : Slot × Order) : Except Violation LevelTally :=
  let (slot, order) := entry
  if order.level ≠ some key then .error (.staleBackReference order.id)
  else if order.prev ≠ tally.prev then .error (.brokenPrevLink order.id)
  else if order.price ≠ price ∨ order.side ≠ side then .error (.misplacedOrder order.id)
  else if b.index[order.id]? ≠ some slot then .error (.unindexedOrder order.id)
  else .ok {
    volume := tally.volume + order.size.toUInt64
    count := tally.count + 1
    prev := some slot }

/-- Check one level of a ladder, the next one after a level at the price `last`: the number of its
orders. -/
def auditLevel (b : Book) (side : Side) (last : Option Int32) (price : Int32) (key : LevelKey) :
    Except Violation UInt32 :=
  match b.queues.levels.get? key with
  | none => .error (.freeLevelInLadder side price)
  | some level =>
    if level.price ≠ price ∨ level.side ≠ side then .error (.mislabelledLevel side price)
    else if b.levelKey? side price ≠ some key then .error (.unindexedLevel side price)
    else if level.isEmpty then .error (.emptyLevel side price)
    else if last.any fun last => side.rank price ≤ side.rank last then
      .error (.ladderOutOfOrder side price)
    else do
      let tally ← (b.ordersOf level).foldlM (b.auditOrder side price key) {}
      if level.tail ≠ tally.prev then .error (.tailMismatch side price)
      else if tally.volume ≠ level.volume ∨ tally.count ≠ level.count then
        .error (.wrongAggregates side price level.volume level.count tally.volume tally.count)
      else .ok tally.count

/-- Check the levels of a side, best first: the number of their orders. -/
def auditLevels (b : Book) (side : Side) :
    Option Int32 → List (Int32 × LevelKey) → Except Violation Nat
  | _, [] => .ok 0
  | last, (price, key) :: rest => do
    let count ← b.auditLevel side last price key
    let others ← auditLevels b side (some price) rest
    return count.toNat + others

/-- Check a side: the number of its orders. -/
def auditSide (b : Book) (side : Side) : Except Violation Nat := do
  let linked ← b.auditLevels side none (b.half side).ladder.toList
  if (b.half side).count ≠ linked.toUInt64 then
    throw (.wrongSideCount side (b.half side).count linked.toUInt64)
  return linked

/-- Check the whole book. -/
def findViolation (b : Book) : Except Violation Unit := do
  let bids ← b.auditSide .bid
  let asks ← b.auditSide .ask
  let linked := bids + asks
  if linked ≠ b.index.size ∨ linked ≠ b.queues.orders.size then
    throw (.wrongOrderTotals linked b.index.size b.queues.orders.size)
  let inLadders := b.levelCount .bid + b.levelCount .ask
  let indexed := b.bids.index.size + b.asks.index.size
  if b.queues.levels.size ≠ inLadders ∨ b.queues.levels.size ≠ indexed then
    throw (.wrongLevelTotals b.queues.levels.size inLadders indexed)

/-- Check the whole book. A violation is a fatal error. -/
def audit (b : Book) : Except BookError Unit :=
  b.findViolation.mapError fun v => .invariantViolation v.message

end Book

end PriceTime
