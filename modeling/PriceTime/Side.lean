/-!
# The two sides of a book

Bids are resting buy interest, asks are resting sell interest. The two sides differ only in which
end of the price range is best, so everything that walks a side best first goes through `Side.rank`:
a smaller rank is a better price, on either side.

* `Side.priceOfRank_rank`: a rank names its price, over all 32-bit prices.
-/

namespace PriceTime

/-- A side of the book. Bids come before asks wherever sides are ordered. -/
inductive Side where
  /-- Resting buy interest: the highest price is best. -/
  | bid
  /-- Resting sell interest: the lowest price is best. -/
  | ask
deriving DecidableEq, Inhabited

namespace Side

/-- Feeds say which side an event is on with a flag that is true for bids. -/
def ofIsBid (isBid : Bool) : Side :=
  if isBid then bid else ask

/-- Whether the side is the bid side. -/
def isBid : Side → Bool
  | bid => true
  | ask => false

/-- The other side. -/
def opposite : Side → Side
  | bid => ask
  | ask => bid

/-- The byte that stands for the side in an encoded book. -/
def tag : Side → UInt8
  | bid => 0
  | ask => 1

/-- The word for the side in messages to people. -/
def label : Side → String
  | bid => "Bid"
  | ask => "Ask"

instance : LT Side := ⟨fun a b => a.tag < b.tag⟩

instance : DecidableLT Side := fun a b => inferInstanceAs (Decidable (a.tag < b.tag))

/-- Where a price stands on a side: the smaller its rank, the better the price. Ranks are integers
of any size, so that the lowest bid price has one too. -/
def rank : Side → Int32 → Int
  | bid, price => -price.toInt
  | ask, price => price.toInt

/-- The price that stands at a rank. -/
def priceOfRank : Side → Int → Int32
  | bid, rank => Int32.ofInt (-rank)
  | ask, rank => Int32.ofInt rank

@[simp] theorem opposite_opposite (s : Side) : s.opposite.opposite = s := by cases s <;> rfl

@[simp] theorem opposite_ne (s : Side) : s.opposite ≠ s := by cases s <;> decide

@[simp] theorem ofIsBid_isBid (s : Side) : ofIsBid s.isBid = s := by cases s <;> rfl

/-- A rank names its price, the lowest and the highest one included. -/
@[simp] theorem priceOfRank_rank (s : Side) (price : Int32) :
    s.priceOfRank (s.rank price) = price := by
  cases s <;> simp [priceOfRank, rank]

theorem rank_injective {s : Side} {p q : Int32} (h : s.rank p = s.rank q) : p = q := by
  rw [← s.priceOfRank_rank p, h, priceOfRank_rank]

end Side

end PriceTime
