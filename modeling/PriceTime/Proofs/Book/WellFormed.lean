import PriceTime.Proofs.Book.Stands

/-!
# Well-formed books

Between two operations a book stands, every order is in a place, no level is empty, the index finds
every order by its id, and the counts of the sides are right. The counts are kept in machine words,
so they are compared as such.

* `Book.WellFormed.empty`: a book without orders is well formed.
* `Book.WellFormed.mem_slotsAt`: an order waits in the queue of its side and price.
* `Book.total_add_eq`: a sum over all orders follows the change of one order.
-/

namespace PriceTime

namespace Book

variable {b b' : Book} {members : LevelKey → List Slot} {key : LevelKey} {slot : Slot}
  {side : Side} {price : Int32} {o o' : Order} {room : Prop}

/-- A sum over all orders does not look at links. -/
theorem share_card (f : Order → Nat) (hf : ∀ o, f o.bare = f o) (b : Book) (slot : Slot) :
    Arena.share f (b.queues.orders.get? slot) = Arena.share f (b.card slot) := by
  rw [card, Queues.card]
  cases b.queues.orders.get? slot with
  | none => rfl
  | some o => exact (hf o).symm

/-- A sum over all orders, before and after a change of one order. -/
theorem total_add_eq (slot : Slot) (f : Order → Nat) (hf : ∀ o, f o.bare = f o)
    (h : ∀ s, s ≠ slot → b'.card s = b.card s) :
    b'.queues.orders.total f + Arena.share f (b.card slot) =
      b.queues.orders.total f + Arena.share f (b'.card slot) := by
  rw [← share_card f hf, ← share_card f hf]
  refine Arena.total_add_eq f fun s hs => ?_
  rw [share_card f hf, share_card f hf, h s hs]

/-- A sum over all orders, when one comes in. -/
theorem total_of_arrival (f : Order → Nat) (hf : ∀ o, f o.bare = f o) (hfresh : b.card slot = none)
    (hcard : ∀ s, b'.card s = if s = slot then some o else b.card s) :
    b'.queues.orders.total f = b.queues.orders.total f + f o := by
  have htotal := total_add_eq slot f hf fun s hs => (hcard s).trans (if_neg hs)
  rw [hfresh, hcard, if_pos rfl] at htotal
  exact htotal

/-- A sum over all orders, when one leaves. -/
theorem total_of_removal (f : Order → Nat) (hf : ∀ o, f o.bare = f o) (ho : b.card slot = some o)
    (hcard : ∀ s, b'.card s = if s = slot then none else b.card s) :
    b'.queues.orders.total f + f o = b.queues.orders.total f := by
  have htotal := total_add_eq slot f hf fun s hs => (hcard s).trans (if_neg hs)
  rw [ho, hcard, if_pos rfl] at htotal
  exact htotal

/-- A sum over all orders, when one changes. -/
theorem total_of_revision (f : Order → Nat) (hf : ∀ o, f o.bare = f o) (ho : b.card slot = some o)
    (hcard : ∀ s, b'.card s = if s = slot then some o' else b.card s) :
    b'.queues.orders.total f + f o = b.queues.orders.total f + f o' := by
  have htotal := total_add_eq slot f hf fun s hs => (hcard s).trans (if_neg hs)
  rw [ho, hcard, if_pos rfl] at htotal
  exact htotal

/-- The number of orders, before and after a change of one order. -/
theorem size_add_eq (slot : Slot) (htidy : b.queues.orders.Tidy) (htidy' : b'.queues.orders.Tidy)
    (h : ∀ s, s ≠ slot → b'.card s = b.card s) :
    b'.queues.orders.size + Arena.share (fun _ => 1) (b.card slot) =
      b.queues.orders.size + Arena.share (fun _ => 1) (b'.card slot) := by
  rw [htidy.size_eq_total, htidy'.size_eq_total]
  exact total_add_eq slot (fun _ => 1) (fun _ => rfl) h

/-- Whether an order is on a side, as a number. -/
def onSide (side : Side) (o : Order) : Nat := if o.side = side then 1 else 0

/-- The number of orders of a side. -/
def ordersOn (b : Book) (side : Side) : Nat :=
  b.queues.orders.total (onSide side)

/-- An order that keeps its side counts as before. -/
theorem ordersOn_of_revision (ho : b.card slot = some o)
    (hcard : ∀ s, b'.card s = if s = slot then some o' else b.card s) (hside : o'.side = o.side)
    (side : Side) : b'.ordersOn side = b.ordersOn side := by
  have htotal := total_of_revision (onSide side) (fun _ => rfl) ho hcard
  have hsame : onSide side o' = onSide side o := by
    unfold onSide
    rw [hside]
  rw [hsame] at htotal
  exact Nat.add_right_cancel htotal

/-- What holds of a book between two operations. -/
structure WellFormed (b : Book) : Prop where
  stands : ∃ members, b.Stands members
  settled : ∀ {slot o}, b.card slot = some o → ∃ key, o.level = some key
  nonempty : ∀ {side price key}, b.levelKey? side price = some key → b.slotsAt side price ≠ []
  index_iff : ∀ {id slot}, b.index[id]? = some slot ↔ ∃ o, b.card slot = some o ∧ o.id = id
  count_eq : ∀ side, (b.half side).count = UInt64.ofNat (b.ordersOn side)

namespace WellFormed

theorem empty : Book.empty.WellFormed where
  stands := ⟨_, Stands.empty⟩
  settled h := by simp [card, Book.empty, Queues.card, Queues.empty] at h
  nonempty {side price key} h := by
    cases side <;> simp [levelKey?, half, Book.empty, HalfBook.empty] at h
  index_iff := by simp [card, Book.empty, Queues.card, Queues.empty]
  count_eq side := by cases side <;> rfl

/-- A cleared book is like a new one: its ladders are still those of their sides. -/
theorem clear_eq (h : b.WellFormed) : b.clear = Book.empty := by
  obtain ⟨members, hstands⟩ := h.stands
  have hbids : b.bids.ladder.side = .bid := hstands.shelved.side_eq .bid
  have hasks : b.asks.ladder.side = .ask := hstands.shelved.side_eq .ask
  unfold clear HalfBook.clear Ladder.clear
  rw [hbids, hasks]
  rfl

theorem tidy (h : b.WellFormed) : b.queues.orders.Tidy := by
  obtain ⟨members, hstands⟩ := h.stands
  exact hstands.places.orders_tidy

theorem nodup_slotsAt (h : b.WellFormed) (side : Side) (price : Int32) :
    (b.slotsAt side price).Nodup := by
  obtain ⟨members, hstands⟩ := h.stands
  exact hstands.nodup_slotsAt side price

/-- An order waits in the queue of its side and price, and in no other. -/
theorem mem_slotsAt (h : b.WellFormed) : slot ∈ b.slotsAt side price ↔
    ∃ o, b.card slot = some o ∧ o.side = side ∧ o.price = price := by
  obtain ⟨members, hstands⟩ := h.stands
  rw [hstands.mem_slotsAt]
  constructor
  · rintro ⟨o, key, ho, -, hside, hprice⟩
    exact ⟨o, ho, hside, hprice⟩
  · rintro ⟨o, ho, hside, hprice⟩
    obtain ⟨key, hkey⟩ := h.settled ho
    exact ⟨o, key, ho, hkey, hside, hprice⟩

/-- The order in a slot is the one the index means. -/
theorem id_eq (h : b.WellFormed) {id : UInt64} (hid : b.index[id]? = some slot)
    (ho : b.card slot = some o) : o.id = id := by
  obtain ⟨p, hp, hpid⟩ := h.index_iff.mp hid
  rw [ho] at hp
  cases hp
  exact hpid

/-- The order in a slot is the one its queue means. -/
theorem place_eq (h : b.WellFormed) (hslot : slot ∈ b.slotsAt side price)
    (ho : b.card slot = some o) : o.side = side ∧ o.price = price := by
  obtain ⟨p, hp, hplace⟩ := h.mem_slotsAt.mp hslot
  rw [ho] at hp
  cases hp
  exact hplace

/-- An order names the level at its side and price. -/
theorem level_eq (h : b.WellFormed) (ho : b.card slot = some o) :
    ∃ key, o.level = some key ∧ b.levelKey? o.side o.price = some key := by
  obtain ⟨members, hstands⟩ := h.stands
  obtain ⟨key, hkey⟩ := h.settled ho
  exact ⟨key, hkey, hstands.shelved.levelKey?_iff.mpr (hstands.places.labelled ho hkey)⟩

/-- There is a level exactly where orders wait. -/
theorem levelKey?_eq_none_iff (h : b.WellFormed) :
    b.levelKey? side price = none ↔ b.slotsAt side price = [] := by
  constructor
  · exact Stands.slotsAt_of_none
  · intro hnil
    cases hkey : b.levelKey? side price with
    | none => rfl
    | some key => exact absurd hnil (h.nonempty hkey)

theorem length_slotsAt_le (h : b.WellFormed) (side : Side) (price : Int32) :
    (b.slotsAt side price).length ≤ b.queues.orders.size := by
  obtain ⟨members, hstands⟩ := h.stands
  exact hstands.length_slotsAt_le side price

theorem ordersOn_le_size (h : b.WellFormed) (side : Side) :
    b.ordersOn side ≤ b.queues.orders.size := by
  rw [h.tidy.size_eq_total]
  unfold ordersOn Arena.total
  refine Finset.sum_le_sum fun k _ => ?_
  cases b.queues.orders.get? k with
  | none => exact Nat.le_refl 0
  | some o =>
    simp only [Arena.share_some, onSide]
    split <;> omega

theorem toNat_count (h : b.WellFormed) (hroom : b.queues.orders.size < 2 ^ 64) (side : Side) :
    (b.half side).count.toNat = b.ordersOn side := by
  rw [h.count_eq, UInt64.toNat_ofNat_of_lt' (lt_of_le_of_lt (h.ordersOn_le_size side) hroom)]

/-- Different orders have different ids. -/
theorem slot_unique (h : b.WellFormed) {slot slot' : Slot} {o o' : Order}
    (ho : b.card slot = some o) (ho' : b.card slot' = some o') (hid : o.id = o'.id) :
    slot = slot' := by
  have h₁ := h.index_iff.mpr ⟨o, ho, rfl⟩
  have h₂ := h.index_iff.mpr ⟨o', ho', rfl⟩
  rw [hid, h₂] at h₁
  exact (Option.some.inj h₁).symm

/-- The links of an order in the queue of a price. -/
theorem links_eq (h : b.WellFormed) (older newer : List Slot)
    (hslots : b.slotsAt side price = older ++ slot :: newer) :
    b.queues.orders.links slot = some (older.getLast?, newer.head?) := by
  obtain ⟨members, hstands⟩ := h.stands
  cases hkey : b.levelKey? side price with
  | none =>
    rw [Stands.slotsAt_of_none hkey] at hslots
    simp at hslots
  | some key =>
    obtain ⟨l, hl, -⟩ := hstands.level?_of_key hkey
    have hchain := (hstands.places.represents hl).chain
    rw [← hstands.slotsAt_of_key hkey, hslots] at hchain
    simpa using hchain.links_middle

theorem index_eq_none_iff (h : b.WellFormed) {id : UInt64} :
    b.index[id]? = none ↔ ∀ slot o, b.card slot = some o → o.id ≠ id := by
  constructor
  · intro hnone slot o ho hid
    rw [h.index_iff.mpr ⟨o, ho, hid⟩] at hnone
    cases hnone
  · intro hall
    cases hslot : b.index[id]? with
    | none => rfl
    | some slot =>
      obtain ⟨o, ho, hid⟩ := h.index_iff.mp hslot
      exact absurd hid (hall slot o ho)

end WellFormed

/-- A well-formed book stays so when one of its orders changes and keeps its id and its side. -/
theorem WellFormed.of_revised (h : b.WellFormed)
    (hstands : ∃ members, b'.Stands members)
    (ho : b.card slot = some o) (hcard : ∀ s, b'.card s = if s = slot then some o' else b.card s)
    (hid : o'.id = o.id) (hside : o'.side = o.side) (hlevel : ∃ key, o'.level = some key)
    (hnonempty : ∀ s p key, b'.levelKey? s p = some key → b'.slotsAt s p ≠ [])
    (hregister : b.SameRegister b') : b'.WellFormed where
  stands := hstands
  settled := by
    intro s p hp
    rw [hcard] at hp
    split at hp
    · cases hp
      exact hlevel
    · exact h.settled hp
  nonempty := fun {s p key} => hnonempty s p key
  index_iff := by
    intro id s
    rw [hregister.index, h.index_iff, hcard]
    split
    · rename_i hs
      rw [hs, ho]
      simp [hid]
    · rfl
  count_eq := by
    intro s
    rw [hregister.count, h.count_eq, ordersOn_of_revision ho hcard hside]

/-! ## Changes of the registers alone -/

/-- Two books have the same queues, ladders and price indexes. -/
structure SameShelves (b b' : Book) : Prop where
  queues : b'.queues = b.queues
  ladder : ∀ side, (b'.half side).ladder = (b.half side).ladder
  prices : ∀ side, (b'.half side).index = (b.half side).index

namespace SameShelves

theorem with_index (b : Book) (index : Std.ExtTreeMap UInt64 Slot) :
    b.SameShelves { b with index := index } :=
  ⟨rfl, fun side => by cases side <;> rfl, fun side => by cases side <;> rfl⟩

theorem with_count (b : Book) (side : Side) (f : UInt64 → UInt64) :
    b.SameShelves (b.onHalf side fun h => { h with count := f h.count }) := by
  refine ⟨queues_onHalf .., ?_, ?_⟩
  · intro s
    rw [half_onHalf]
    split <;> rfl
  · intro s
    rw [half_onHalf]
    split <;> rfl

variable (h : b.SameShelves b')

include h

theorem card_eq (s : Slot) : b'.card s = b.card s := by
  rw [card, card, h.queues]

theorem levelKey?_eq (side : Side) (price : Int32) :
    b'.levelKey? side price = b.levelKey? side price := by
  rw [Book.levelKey?_eq, Book.levelKey?_eq, h.prices]

theorem slotsAt_eq (side : Side) (price : Int32) : b'.slotsAt side price = b.slotsAt side price := by
  unfold slotsAt level? ordersOf
  rw [h.levelKey?_eq, h.queues]

theorem hasRoom (hroom : b.HasRoom) : b'.HasRoom := by
  refine hroom.of_le (by rw [h.queues]) ?_
  intro side price
  rw [h.slotsAt_eq]

theorem stands (hb : b.Stands members) : b'.Stands members where
  places := by
    rw [h.queues]
    exact hb.places
  shelved := by
    refine ⟨?_, ?_, ?_, ?_⟩
    · intro side
      rw [h.ladder]
      exact hb.shelved.side_eq side
    · intro side
      rw [h.ladder]
      exact hb.shelved.sound side
    · intro side price
      rw [h.ladder, h.levelKey?_eq]
      exact hb.shelved.ladder_key? side price
    · intro side price key
      rw [h.levelKey?_eq, h.queues]
      exact hb.shelved.levelKey?_iff

end SameShelves

end Book

end PriceTime
