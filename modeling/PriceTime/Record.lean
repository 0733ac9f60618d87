import PriceTime.Calendar

/-!
# Trading records

What a strategy notes at one moment: the best prices, its position, the trades so far and its
profit. A record has two written forms, a row of comma-separated values and a line of the line
protocol; both end with a newline.
-/

namespace PriceTime

/-- One observation of a strategy. -/
structure Record where
  /-- Nanoseconds since the epoch. -/
  time : UInt64
  bid : Int32
  ask : Int32
  position : Int64
  tradeCount : UInt64
  /-- Profit and loss. -/
  pnl : Float

namespace Record

/-- The first line of every trading log. -/
def header : String :=
  "timestamp,bid,ask,position,trade_count,pnl\n"

/-- The profit and loss with six places after the point. -/
def pnlText (r : Record) : String :=
  Decimal.fixed 6 r.pnl

/-- The record as a row under the header. -/
def row (r : Record) : String :=
  Calendar.format r.time ++ "," ++ Decimal.ofInt r.bid.toInt ++ "," ++ Decimal.ofInt r.ask.toInt ++
    "," ++ Decimal.ofInt r.position.toInt ++ "," ++ Decimal.ofNat r.tradeCount.toNat ++ "," ++
    r.pnlText ++ "\n"

/-- The record in the line protocol. -/
def line (r : Record) : String :=
  "trading_log bid=" ++ Decimal.ofInt r.bid.toInt ++ "i,ask=" ++ Decimal.ofInt r.ask.toInt ++
    "i,position=" ++ Decimal.ofInt r.position.toInt ++ "i,trade_count=" ++
    Decimal.ofNat r.tradeCount.toNat ++ "i,pnl=" ++ r.pnlText ++ " " ++
    Decimal.ofNat r.time.toNat ++ "\n"

end Record

end PriceTime
