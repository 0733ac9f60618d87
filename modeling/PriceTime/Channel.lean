import PriceTime.Decimal
import PriceTime.Ring

/-!
# Channels

A channel is a ring between one producer and one consumer. The producer counts what it offered and
what was turned down because the ring was full; the consumer counts what it took. What is still in
the ring when the second of them lets go is lost.
-/

namespace PriceTime

/-- A ring with its producer and its consumer. -/
structure Channel (α : Type) where
  ring : Ring α
  /-- How often the producer offered an item. -/
  enqueued : UInt64 := 0
  /-- How often a full ring turned an item down. -/
  dropped : UInt64 := 0
  /-- How many items the consumer took. -/
  dequeued : UInt64 := 0
  /-- Whether the producer still holds the ring. -/
  hasProducer : Bool := true
  /-- Whether the consumer still holds the ring. -/
  hasConsumer : Bool := true

namespace Channel

variable {α : Type}

/-- A channel over a ring without items. -/
def ofSlots (n : Nat) : Channel α where
  ring := .ofSlots n

/-- Offer an item. It is handed back if the ring is full. -/
def enqueue (c : Channel α) (x : α) : Except α Unit × Channel α :=
  let ⟨ring, enqueued, dropped, dequeued, hasProducer, hasConsumer⟩ := c
  let (answer, ring) := ring.push x
  let dropped := match answer with
    | .ok _ => dropped
    | .error _ => dropped + 1
  (answer, ⟨ring, enqueued + 1, dropped, dequeued, hasProducer, hasConsumer⟩)

/-- Take the oldest item. -/
def dequeue (c : Channel α) : Option α × Channel α :=
  let ⟨ring, enqueued, dropped, dequeued, hasProducer, hasConsumer⟩ := c
  let (item, ring) := ring.pop
  let dequeued := match item with
    | some _ => dequeued + 1
    | none => dequeued
  (item, ⟨ring, enqueued, dropped, dequeued, hasProducer, hasConsumer⟩)

/-- Take items until there are none, at most `n` of them. -/
def drain (c : Channel α) : (n : Nat) → List α × Channel α
  | 0 => ([], c)
  | n + 1 =>
    match c.dequeue with
    | (none, c) => ([], c)
    | (some x, c) =>
      let (rest, c) := c.drain n
      (x :: rest, c)

/-- Give up the ring if nobody holds it: the items lost with it. -/
def settle (c : Channel α) : List α × Channel α :=
  if c.hasProducer ∨ c.hasConsumer then ([], c)
  else (c.ring.leftovers, { c with ring := .ofSlots c.ring.slots.size })

/-- The producer lets go: the items lost by it. -/
def dropProducer (c : Channel α) : List α × Channel α :=
  { c with hasProducer := false }.settle

/-- The consumer lets go: the items lost by it. -/
def dropConsumer (c : Channel α) : List α × Channel α :=
  { c with hasConsumer := false }.settle

/-! ## Words for people -/

/-- A value with named fields in words. -/
def describeFields (title : String) (fields : List (String × String)) : String :=
  let shown := fields.map fun (key, value) => key ++ ": " ++ value
  title ++ " \x7b " ++ String.intercalate ", " shown ++ " \x7d"

/-- The ring in words. -/
def describeRing (r : Ring α) : String :=
  describeFields "LockFreeQueue"
    [("capacity", Decimal.ofNat r.capacity), ("len", Decimal.ofNat r.size)]

/-- The producer in words. -/
def describeProducer (c : Channel α) : String :=
  describeFields "Producer" [
    ("queue", describeRing c.ring), ("enqueued", Decimal.ofNat c.enqueued.toNat),
    ("dropped", Decimal.ofNat c.dropped.toNat)]

/-- The consumer in words. -/
def describeConsumer (c : Channel α) : String :=
  describeFields "Consumer" [
    ("queue", describeRing c.ring), ("dequeued", Decimal.ofNat c.dequeued.toNat)]

end Channel

end PriceTime
