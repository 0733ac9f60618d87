import PriceTime.Fifo

/-!
# Bounded histories

A window keeps the values recorded last, up to its capacity; a window of capacity zero keeps all.

* `Window.toList_record`: what recording does to the view `Window.toList`, oldest value first.
-/

namespace PriceTime

/-- The values recorded last. -/
structure Window (α : Type) where
  /-- How many values to keep; zero for all. -/
  capacity : Nat
  items : Fifo α := .empty

namespace Window

variable {α : Type}

/-- The values kept, oldest first. -/
def toList (w : Window α) : List α :=
  w.items.toList

/-- Record a value, and let go of the oldest one if the window is full. -/
def record (w : Window α) (x : α) : Window α :=
  let ⟨capacity, items⟩ := w
  let items := if 0 < capacity ∧ items.size = capacity then items.tail else items
  ⟨capacity, items.push x⟩

/-- The value with the given place in the window, counted from the oldest. -/
def fromOldest? (w : Window α) (i : Nat) : Option α :=
  w.toList[i]?

/-- The value with the given place in the window, counted from the newest. -/
def fromNewest? (w : Window α) (i : Nat) : Option α :=
  if i < w.items.size then w.toList[w.items.size - 1 - i]? else none

/-- A window without values, of the same capacity. -/
def clear (w : Window α) : Window α :=
  { capacity := w.capacity }

/-- A full window loses its oldest value to the new one. -/
theorem toList_record (w : Window α) (x : α) :
    (w.record x).toList =
      (if 0 < w.capacity ∧ w.toList.length = w.capacity then w.toList.tail
        else w.toList) ++ [x] := by
  simp only [record, toList, Fifo.length_toList, Fifo.toList_push]
  split <;> simp [Fifo.toList_tail]

end Window

end PriceTime
