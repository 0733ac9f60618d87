import PriceTime.Book.Basic
import PriceTime.Decimal

/-!
# Snapshots

A snapshot copies the best levels of both sides out of a book, with the time of the book. As text it
has one line for each level, bids first; order counts are not shown.
-/

namespace PriceTime

/-- What a snapshot keeps of a level. -/
structure LevelView where
  price : Int32
  volume : UInt64
  count : UInt32
deriving DecidableEq

/-- The best levels of both sides, best first. -/
structure Snapshot where
  /-- The time of the book. -/
  time : UInt64 := 0
  bids : List LevelView := []
  asks : List LevelView := []
deriving DecidableEq

/-- Copy a level. -/
def Level.view (l : Level) : LevelView :=
  { price := l.price, volume := l.volume, count := l.count }

/-- A level of a snapshot, with what is told about it. -/
structure LevelRecord where
  level : LevelView
  side : Side
  time : UInt64
deriving DecidableEq

/-- A record as a line, without the newline. -/
def LevelRecord.line (r : LevelRecord) : String :=
  "limit_orderbook price=" ++ Decimal.ofInt r.level.price.toInt ++ "i,volume=" ++
    Decimal.ofNat r.level.volume.toNat ++ "i,side=" ++ (if r.side.isBid then "true" else "false") ++
    " " ++ Decimal.ofNat r.time.toNat

namespace Snapshot

/-- Copy the best `depth` levels of each side of a book. -/
def ofBook (b : Book) (time : UInt64) (depth : Nat) : Snapshot where
  time
  bids := ((b.levels .bid).take depth).map Level.view
  asks := ((b.levels .ask).take depth).map Level.view

/-- The levels as records, bids first. -/
def records (s : Snapshot) : List LevelRecord :=
  s.bids.map (fun level => { level, side := .bid, time := s.time }) ++
    s.asks.map fun level => { level, side := .ask, time := s.time }

/-- The levels as lines, bids first. -/
def lines (s : Snapshot) : List String :=
  s.records.map LevelRecord.line

/-- The levels as text: every line is followed by a newline. -/
def text (s : Snapshot) : String :=
  String.join (s.records.map fun record => record.line ++ "\n")

end Snapshot

end PriceTime
