import PriceTime.Order

/-!
# The tape

The tape sums up all trades: the exact sum of price times size, the exact size, and from them the
volume-weighted average price.
-/

namespace PriceTime

/-- The sums over all trades. -/
structure Tape where
  /-- The sum of price times size. -/
  priceVolume : Int := 0
  /-- The sum of the sizes. -/
  volume : Nat := 0
  /-- The volume-weighted average price, once there was a trade of some size. -/
  vwap : Option Float := none

namespace Tape

/-- Enter a trade. A trade of size zero leaves no mark. -/
def record (t : Tape) (price : Int32) (size : UInt32) : Tape :=
  if size = 0 then t
  else
    let priceVolume := t.priceVolume + price.toInt * size.toNat
    let volume := t.volume + size.toNat
    { priceVolume, volume, vwap := some (Float.ofInt priceVolume / Float.ofNat volume) }

theorem record_zero (t : Tape) (price : Int32) : t.record price 0 = t := by simp [record]

/-- The sums are exact. -/
theorem sums_record (t : Tape) (price : Int32) (size : UInt32) :
    (t.record price size).priceVolume = t.priceVolume + price.toInt * size.toNat ∧
      (t.record price size).volume = t.volume + size.toNat := by
  unfold record
  split
  · subst size; simp
  · exact ⟨rfl, rfl⟩

end Tape

end PriceTime
