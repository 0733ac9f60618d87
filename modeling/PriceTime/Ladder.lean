import PriceTime.Order
import Std.Data.ExtTreeMap

/-!
# Ladders

A ladder holds the prices of one side with their levels, best price first. Prices are kept by rank,
so the best of them is the least on either side, and every walk over a ladder starts at the top of
the book. The best entry is kept beside the others, and reading it touches nothing else.
-/

namespace PriceTime

/-- The levels of one side by rank, and the best of them. -/
structure Ladder where
  side : Side
  rungs : Std.ExtTreeMap Int LevelKey := ∅
  first : Option (Int × LevelKey) := none

namespace Ladder

/-- The entry of least rank. -/
def leastRung (rungs : Std.ExtTreeMap Int LevelKey) : Option (Int × LevelKey) :=
  rungs.minKey?.bind fun rank => rungs[rank]?.map (rank, ·)

/-- Put a level at a price, in place of the one that was there. -/
def insert (l : Ladder) (price : Int32) (key : LevelKey) : Ladder :=
  let rank := l.side.rank price
  let isFirst := match l.first with
    | some (best, _) => decide (rank ≤ best)
    | none => true
  { l with
    rungs := l.rungs.insert rank key
    first := if isFirst then some (rank, key) else l.first }

/-- Take the level at a price out: its key, if there was one, and the ladder afterwards. -/
def remove (l : Ladder) (price : Int32) : Option LevelKey × Ladder :=
  let rank := l.side.rank price
  match l.rungs[rank]? with
  | none => (none, l)
  | some key =>
    let rungs := l.rungs.erase rank
    let wasFirst := match l.first with
      | some (best, _) => best == rank
      | none => false
    (some key, { l with rungs, first := if wasFirst then leastRung rungs else l.first })

/-- The best price and its level. -/
def best? (l : Ladder) : Option (Int32 × LevelKey) :=
  l.first.map fun (rank, key) => (l.side.priceOfRank rank, key)

/-- The prices with their levels, best first. -/
def toList (l : Ladder) : List (Int32 × LevelKey) :=
  l.rungs.toList.map fun (rank, key) => (l.side.priceOfRank rank, key)

/-- The levels, best first. -/
def keys (l : Ladder) : List LevelKey :=
  l.toList.map Prod.snd

/-- The number of levels. -/
def size (l : Ladder) : Nat :=
  l.rungs.size

/-- Whether the ladder has no levels. -/
def isEmpty (l : Ladder) : Bool :=
  l.rungs.isEmpty

/-- A ladder without levels, for the same side. -/
def clear (l : Ladder) : Ladder :=
  { side := l.side }

end Ladder

end PriceTime
