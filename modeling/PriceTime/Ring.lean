/-!
# Rings

A ring is a queue in a fixed circle of slots. Items lie in the slots from `head` up to, not
including, `tail`, past the last slot on to the first. One slot always stays empty, so that a full
ring differs from an empty one.
-/

namespace PriceTime

/-- A queue in a fixed circle of slots. -/
structure Ring (α : Type) where
  slots : Array (Option α)
  /-- The slot to read next. -/
  head : Nat := 0
  /-- The slot to write next. -/
  tail : Nat := 0

namespace Ring

variable {α : Type}

/-- A ring without items. -/
def ofSlots (n : Nat) : Ring α where
  slots := Array.replicate n none

/-- The largest number of items the ring can hold. -/
def capacity (r : Ring α) : Nat :=
  r.slots.size - 1

/-- The number of items. -/
def size (r : Ring α) : Nat :=
  (r.tail + r.slots.size - r.head) % r.slots.size

/-- Whether there are no items. -/
def isEmpty (r : Ring α) : Bool :=
  r.head == r.tail

/-- Whether there is no room for another item. -/
def isFull (r : Ring α) : Bool :=
  r.size == r.capacity

/-- The slot after a slot. -/
def after (r : Ring α) (slot : Nat) : Nat :=
  (slot + 1) % r.slots.size

/-- Put an item at the end. A full ring hands the item back. -/
def push (r : Ring α) (x : α) : Except α Unit × Ring α :=
  let next := r.after r.tail
  if next = r.head then (.error x, r)
  else
    let ⟨slots, head, tail⟩ := r
    (.ok (), ⟨slots.setIfInBounds tail (some x), head, next⟩)

/-- Take the oldest item out. -/
def pop (r : Ring α) : Option α × Ring α :=
  if r.head = r.tail then (none, r)
  else
    match r.slots[r.head]? with
    | some (some x) =>
      let next := r.after r.head
      let ⟨slots, head, tail⟩ := r
      (some x, ⟨slots.setIfInBounds head none, next, tail⟩)
    | _ => (none, r)

/-- The items in the order of their slots. -/
def leftovers (r : Ring α) : List α :=
  r.slots.toList.filterMap id

end Ring

end PriceTime
