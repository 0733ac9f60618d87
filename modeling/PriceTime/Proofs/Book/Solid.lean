import PriceTime.Proofs.Book.Fate

/-!
# Orders of some size

An order without size offers nothing and still makes its level look alive. No step leaves one
behind, unless an order comes in without size or is changed to none.

* `Book.Solid`: every order has a size.
-/

namespace PriceTime

namespace Book

variable {b b' : Book} {key : LevelKey} {slot : Slot} {id : UInt64} {side : Side} {price : Int32}
  {size : UInt32} {o : Order} {events : List Event} {report : TradeReport}

/-- Every order of a book has a size. -/
def Solid (b : Book) : Prop :=
  ∀ slot o, b.card slot = some o → 0 < o.size

namespace Solid

theorem empty : Book.empty.Solid := by
  intro slot o ho
  simp [card, Book.empty, Queues.card, Queues.empty] at ho

theorem of_revised {o' : Order} (h : b.Solid)
    (hcard : ∀ s, b'.card s = if s = slot then some o' else b.card s) (hsize : 0 < o'.size) :
    b'.Solid := by
  intro s o ho
  rw [hcard] at ho
  split at ho
  · cases ho
    exact hsize
  · exact h s o ho

theorem of_removed (h : b.Solid) (hremoved : b.Removed slot o key b' events) : b'.Solid := by
  intro s p hp
  rw [hremoved.card_eq] at hp
  split at hp
  · cases hp
  · exact h s p hp

theorem of_modified {time : UInt64} {result : Except BookError ModifyOutcome} (h : b.Solid)
    (hmodified : b.Modified id price size side time result b' events) (hsize : 0 < size) :
    b'.Solid := by
  cases hmodified with
  | added _ hadded => exact h.of_revised hadded.card_eq hsize
  | rejected => exact h
  | repriced _ _ _ _ _ hrepriced => exact h.of_revised hrepriced.card_eq hsize
  | requeued _ ho _ _ _ halters => exact h.of_revised (halters.card_of ho) hsize
  | resized _ ho _ _ _ halters => exact h.of_revised (halters.card_of ho) hsize

theorem of_traded (h : b.Solid) (hb : b.WellFormed)
    (htraded : b.Traded id price size side report b' events) : b'.Solid := by
  intro slot o ho
  cases hbefore : b.card slot with
  | none =>
    rw [htraded.card_eq_none hbefore] at ho
    cases ho
  | some p =>
    -- The order is still there, so the trade has left something of it.
    have hfate := htraded.fate hb hbefore
    rw [ho] at hfate
    cases hfate with
    | kept _ hpos => exact hpos (h slot p hbefore)

end Solid

end Book

end PriceTime
