import PriceTime.Book.Basic
import PriceTime.Sha256

/-!
# The encoded book

The resting orders as a sequence of bytes. The levels follow each other, bids before asks and best
first on each side. A level is its side, price, volume and number of orders, then the id and the
size of each order, oldest first. Whole numbers are written with their least significant byte first.
Slots, times and capacities do not show.

The root of a book is the digest of its encoding.
-/

namespace PriceTime.Book

/-- The lowest `width` bytes of a number, the least significant first. -/
def littleEndian : (width : Nat) → Nat → List UInt8
  | 0, _ => []
  | width + 1, n => n.toUInt8 :: littleEndian width (n / 256)

/-- An order as bytes. -/
def encodeOrder (order : Order) : List UInt8 :=
  littleEndian 8 order.id.toNat ++ littleEndian 4 order.size.toNat

/-- The part of a level's bytes before its orders. -/
def encodeHeading (side : Side) (level : Level) : List UInt8 :=
  side.tag :: littleEndian 4 level.price.toUInt32.toNat ++
    littleEndian 8 level.volume.toNat ++ littleEndian 4 level.count.toNat

/-- A level of a side with its orders as bytes. -/
def encodeLevel (b : Book) (side : Side) (level : Level) : List UInt8 :=
  encodeHeading side level ++ (b.ordersOf level).flatMap fun (_, order) => encodeOrder order

/-- The resting orders as bytes. -/
def encode (b : Book) : List UInt8 :=
  [Side.bid, Side.ask].flatMap fun side => (b.levels side).flatMap (b.encodeLevel side)

/-- The digest of the resting orders. -/
def root (b : Book) : List UInt8 :=
  Sha256.digest ⟨b.encode.toArray⟩

end PriceTime.Book
