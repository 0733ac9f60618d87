/-!
# A toy strategy

Hold one lot in the direction of the imbalance of the book, and mark it to the mid price.
-/

namespace PriceTime

/-- The strategy between two observations. -/
structure Strategy where
  /-- The lots held: one, none or minus one. -/
  position : Int64 := 0
  /-- How many resting orders were filled so far. -/
  trades : UInt64 := 0
  /-- Profit and loss. -/
  pnl : Float := 0
  /-- The last mid price that was seen. -/
  lastMid : Option Int32 := none

namespace Strategy

/-- The position for an imbalance. -/
def positionFor (imbalance : Float) : Int64 :=
  if 0.2 < imbalance then 1
  else if imbalance < -0.2 then -1
  else 0

/-- Observe the imbalance and the mid price. -/
def update (s : Strategy) (imbalance : Float) (mid : Option Int32) : Strategy :=
  let pnl := match s.lastMid, mid with
    | some last, some mid => s.pnl + s.position.toFloat * (mid - last).toFloat
    | _, _ => s.pnl
  { s with position := positionFor imbalance, pnl, lastMid := mid.orElse fun _ => s.lastMid }

/-- Note resting orders that were filled. -/
def noteFilled (s : Strategy) (filled : UInt32) : Strategy :=
  { s with trades := s.trades + filled.toUInt64 }

end Strategy

end PriceTime
