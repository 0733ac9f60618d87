import PriceTime.Proofs.Book.Spare
import PriceTime.Proofs.Book.WellFormed

/-!
# The shape of a book

A well-formed book keeps most of what it knows twice: the links of the orders repeat the queues, the
sums and numbers of a level repeat its orders, the ladders repeat the price indexes, and the index
of the orders repeats their ids. What is left when all that is taken away is its outline: the orders
without their links, the order of the queues and the keys of the levels. Together with the places
that will be handed out next the outline makes the shape of the book, and two ways to the same shape
lead to the same book.

* `Book.SameOutline`: what follows from the outline.
* `Book.WellFormed.eq_of_sameShape`: a well-formed book is its shape.
* `Book.WellFormed.sameButSpare`: where the outline is the same, only the room can differ.
-/

namespace PriceTime

namespace Book

variable {b b' : Book}

/-- The same orders wait in the same queues, in levels with the same keys. -/
structure SameOutline (b b' : Book) : Prop where
  card_eq : ∀ slot, b'.card slot = b.card slot
  slotsAt_eq : ∀ side price, b'.slotsAt side price = b.slotsAt side price
  levelKey?_eq : ∀ side price, b'.levelKey? side price = b.levelKey? side price

/-- The outline is the same, and the same slots and keys will be handed out next. -/
structure SameShape (b b' : Book) : Prop extends SameOutline b b' where
  orders_room : Arena.SameRoom b.queues.orders b'.queues.orders
  levels_room : Arena.SameRoom b.queues.levels b'.queues.levels

namespace SameOutline

variable (houtline : b.SameOutline b') (h : b.WellFormed) (h' : b'.WellFormed)

include houtline h h'

/-- The links of an order follow from the queue it waits in. -/
theorem get?_orders_eq (slot : Slot) : b'.queues.orders.get? slot = b.queues.orders.get? slot := by
  have hcard := houtline.card_eq slot
  cases ho : b.card slot with
  | none =>
    rw [ho] at hcard
    rw [Queues.card_eq_none_iff.mp ho, Queues.card_eq_none_iff.mp hcard]
  | some o =>
    rw [ho] at hcard
    obtain ⟨p, hp, hbare⟩ := Queues.get?_of_card ho
    obtain ⟨p', hp', hbare'⟩ := Queues.get?_of_card hcard
    have hslot : slot ∈ b.slotsAt o.side o.price := h.mem_slotsAt.mpr ⟨o, ho, rfl, rfl⟩
    obtain ⟨older, newer, hslots⟩ := List.append_of_mem hslot
    obtain ⟨q, hq, hprev, hnext⟩ := Pool.links_eq_some.mp (h.links_eq older newer hslots)
    obtain ⟨q', hq', hprev', hnext'⟩ := Pool.links_eq_some.mp
      (h'.links_eq older newer ((houtline.slotsAt_eq ..).trans hslots))
    obtain rfl := Option.some.inj (hq.symm.trans hp)
    obtain rfl := Option.some.inj (hq'.symm.trans hp')
    rw [hp, hp', Order.eq_of_bare (hbare'.trans hbare.symm) (hprev'.trans hprev.symm)
      (hnext'.trans hnext.symm)]

/-- The ends, the sum and the number of a level follow from its queue. -/
theorem get?_levels_eq (key : LevelKey) :
    b'.queues.levels.get? key = b.queues.levels.get? key := by
  obtain ⟨members, hstands⟩ := h.stands
  obtain ⟨members', hstands'⟩ := h'.stands
  have hlabel : ∀ key, b'.queues.label key = b.queues.label key := by
    intro key
    refine Option.ext fun ⟨side, price⟩ => ?_
    rw [← hstands.shelved.levelKey?_iff, ← hstands'.shelved.levelKey?_iff, houtline.levelKey?_eq]
  have hkey := hlabel key
  cases hplace : b.queues.label key with
  | none =>
    rw [hplace] at hkey
    rw [Queues.label_eq_none_iff.mp hplace, Queues.label_eq_none_iff.mp hkey]
  | some place =>
    rw [hplace] at hkey
    obtain ⟨l, hl, hl_label⟩ := Queues.get?_of_label hplace
    obtain ⟨l', hl', hl'_label⟩ := Queues.get?_of_label hkey
    have hrep := (hstands.places.represents hl).frame fun s _ => houtline.get?_orders_eq h h' s
    have hrep' := hstands'.places.represents hl'
    rw [← hstands.slotsAt_of_label hplace] at hrep
    rw [← hstands'.slotsAt_of_label hkey, houtline.slotsAt_eq] at hrep'
    rw [hl, hl', hrep.eq_of_label hrep' (hl'_label.trans hl_label.symm)]

/-- The ladder, the price index and the count of a side follow from its levels and orders. -/
theorem half_eq (side : Side) : b'.half side = b.half side := by
  obtain ⟨members, hstands⟩ := h.stands
  obtain ⟨members', hstands'⟩ := h'.stands
  have hladder : (b'.half side).ladder = (b.half side).ladder := by
    refine (hstands.shelved.sound side).eq_of_key? (hstands'.shelved.sound side) ?_ ?_
    · rw [hstands.shelved.side_eq, hstands'.shelved.side_eq]
    · intro price
      rw [hstands.shelved.ladder_key?, hstands'.shelved.ladder_key?, houtline.levelKey?_eq]
  have hindex : (b'.half side).index = (b.half side).index :=
    Std.ExtTreeMap.ext_getElem? fun price => houtline.levelKey?_eq side price
  have hcount : (b'.half side).count = (b.half side).count := by
    rw [h.count_eq, h'.count_eq, ordersOn, ordersOn,
      Arena.total_congr _ (houtline.get?_orders_eq h h')]
  generalize b.half side = half at hladder hindex hcount
  generalize b'.half side = half' at hladder hindex hcount
  obtain ⟨ladder, index, count⟩ := half
  obtain ⟨ladder', index', count'⟩ := half'
  cases hladder
  cases hindex
  cases hcount
  rfl

theorem index_eq : b'.index = b.index := by
  refine Std.ExtTreeMap.ext_getElem? fun id => Option.ext fun slot => ?_
  rw [h.index_iff, h'.index_iff, houtline.card_eq]

end SameOutline

/-- Well-formed books of the same shape are the same. -/
theorem WellFormed.eq_of_sameShape (h : b.WellFormed) (h' : b'.WellFormed)
    (hshape : b.SameShape b') : b' = b := by
  have houtline := hshape.toSameOutline
  have horders := hshape.orders_room.eq_of_get? (houtline.get?_orders_eq h h')
  have hlevels := hshape.levels_room.eq_of_get? (houtline.get?_levels_eq h h')
  have hbids : b'.bids = b.bids := houtline.half_eq h h' .bid
  have hasks : b'.asks = b.asks := houtline.half_eq h h' .ask
  have hindex := houtline.index_eq h h'
  obtain ⟨⟨orders, levels⟩, bids, asks, index⟩ := b
  obtain ⟨⟨orders', levels'⟩, bids', asks', index'⟩ := b'
  cases horders
  cases hlevels
  cases hbids
  cases hasks
  cases hindex
  rfl

/-- Well-formed books of the same outline are the same but for spare places, if the one has no room
but that of the other and spare places. -/
theorem WellFormed.sameButSpare (h : b.WellFormed) (h' : b'.WellFormed)
    (houtline : b.SameOutline b') (horders : Arena.SpareRoom b.queues.orders b'.queues.orders)
    (hlevels : Arena.SpareRoom b.queues.levels b'.queues.levels) : b.SameButSpare b' := by
  obtain ⟨members, hstands⟩ := h.stands
  obtain ⟨members', hstands'⟩ := h'.stands
  refine ⟨⟨⟨h.tidy, h'.tidy, houtline.get?_orders_eq h h', horders⟩, ⟨hstands.places.levels_tidy,
    hstands'.places.levels_tidy, houtline.get?_levels_eq h h', hlevels⟩⟩, ?_, ?_, ?_⟩
  · exact houtline.half_eq h h' .bid
  · exact houtline.half_eq h h' .ask
  · exact houtline.index_eq h h'

end Book

end PriceTime
