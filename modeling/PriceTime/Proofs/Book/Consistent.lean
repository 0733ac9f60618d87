import PriceTime.Proofs.Book.Audit

/-!
# What a consistent book looks like

A book is consistent when everything it keeps twice agrees, in full and with exact numbers. A
well-formed book with fewer than `2 ^ 32` orders is consistent, since no sum and no count of it has
wrapped around.

* `Book.Consistent`: index, pool, queues, levels, price indexes, ladders and counts agree.
* `Book.WellFormed.consistent`: a well-formed book that is not too large is consistent.
-/

namespace PriceTime

namespace Book

variable {b : Book} {members : LevelKey → List Slot} {key : LevelKey} {slot : Slot} {side : Side}
  {price : Int32} {o : Order} {l : Level}

/-- The resting orders, by id. -/
def residents (b : Book) : List Order :=
  b.index.toList.filterMap fun entry => b.queues.orders.get? entry.2

/-- A level of a book has a side and a price. -/
def HasLevel (b : Book) (key : LevelKey) (side : Side) (price : Int32) : Prop :=
  ∃ l, b.queues.levels.get? key = some l ∧ l.side = side ∧ l.price = price

/-- All parts of a book agree. -/
structure Consistent (b : Book) : Prop where
  /-- Every id of the index names a slot in use, which holds an order with that id. -/
  indexed : ∀ {id slot}, b.index[id]? = some slot →
    ∃ o, b.queues.orders.get? slot = some o ∧ o.id = id
  /-- Every order in the pool is found by its id. -/
  pooled : ∀ {slot o}, b.queues.orders.get? slot = some o → b.index[o.id]? = some slot
  /-- Every order is linked once, in the level it names, which has its side and price. -/
  linked : ∀ {slot o}, b.queues.orders.get? slot = some o → ∃ key l, o.level = some key ∧
    b.queues.levels.get? key = some l ∧ l.side = o.side ∧ l.price = o.price ∧
    (b.ordersOf l).count (slot, o) = 1 ∧
    ∀ key' l', b.queues.levels.get? key' = some l' → slot ∈ (b.ordersOf l').map Prod.fst → key' = key
  /-- Every linked order is in the pool. -/
  held : ∀ {key l slot o}, b.queues.levels.get? key = some l → (slot, o) ∈ b.ordersOf l →
    b.queues.orders.get? slot = some o
  /-- A queue is the same list either way, for any number of steps that reaches its end. -/
  walks : ∀ {key l}, b.queues.levels.get? key = some l → ∀ steps, (b.ordersOf l).length ≤ steps →
    Level.walk b.queues.orders steps l.head = b.ordersOf l ∧
      Level.walkBack b.queues.orders steps l.tail = (b.ordersOf l).reverse
  /-- Nothing stands before the oldest order of a level or after its newest. -/
  ends : ∀ {key l}, b.queues.levels.get? key = some l →
    (∀ entry ∈ (b.ordersOf l).head?, entry.2.prev = none) ∧
      ∀ entry ∈ (b.ordersOf l).getLast?, entry.2.next = none
  /-- The volume of a level is the sum of the sizes of its orders. -/
  volume_eq : ∀ {key l}, b.queues.levels.get? key = some l →
    l.volume.toNat = ((b.ordersOf l).map fun entry => entry.2.size.toNat).sum
  /-- The count of a level is the number of its orders. -/
  count_eq : ∀ {key l}, b.queues.levels.get? key = some l → l.count.toNat = (b.ordersOf l).length
  /-- No level is empty. -/
  occupied : ∀ {key l}, b.queues.levels.get? key = some l → b.ordersOf l ≠ []
  /-- The price indexes hold the levels. -/
  priced : ∀ {side price key}, (b.half side).index[price]? = some key ↔ b.HasLevel key side price
  /-- The ladders hold the levels. -/
  laddered : ∀ {side price key},
    (price, key) ∈ (b.half side).ladder.toList ↔ b.HasLevel key side price
  /-- A ladder goes strictly from better to worse prices. -/
  bestFirst : ∀ side, (b.half side).ladder.toList.Pairwise fun a c => side.rank a.1 < side.rank c.1
  /-- The best entry of a ladder is its first one. -/
  best_eq : ∀ side, (b.half side).ladder.best? = (b.half side).ladder.toList.head?
  /-- The count of a side is the number of its orders. -/
  sideCount_eq : ∀ side,
    (b.half side).count.toNat = b.residents.countP fun o => decide (o.side = side)
  /-- The pool holds as many orders as the index. -/
  poolSize_eq : b.queues.orders.size = b.index.size
  /-- There are as many levels as the ladders and the price indexes hold. -/
  levelsSize_eq : b.queues.levels.size = b.levelCount .bid + b.levelCount .ask ∧
    ∀ side, (b.half side).index.size = b.levelCount side

theorem Stands.exists_key (h : b.Stands members) (hl : b.queues.levels.get? key = some l) :
    b.levelKey? l.side l.price = some key :=
  h.shelved.levelKey?_iff.mpr (Queues.label_eq hl)

theorem Stands.levelKey?_iff_hasLevel (h : b.Stands members) :
    b.levelKey? side price = some key ↔ b.HasLevel key side price := by
  rw [h.shelved.levelKey?_iff]
  constructor
  · intro hlabel
    obtain ⟨l, hl, heq⟩ := Queues.get?_of_label hlabel
    exact ⟨l, hl, congrArg Prod.fst heq, congrArg Prod.snd heq⟩
  · rintro ⟨l, hl, rfl, rfl⟩
    exact Queues.label_eq hl

/-- The number of orders of a side, among the orders by id. -/
theorem WellFormed.countP_residents (h : b.WellFormed) (side : Side) :
    b.residents.countP (fun o => decide (o.side = side)) = b.ordersOn side := by
  have hsum : ∀ entries : List (UInt64 × Slot),
      (entries.filterMap fun e => b.queues.orders.get? e.2).countP
          (fun o => decide (o.side = side)) =
        ((entries.map Prod.snd).map fun s =>
          Arena.share (onSide side) (b.queues.orders.get? s)).sum := by
    intro entries
    induction entries with
    | nil => rfl
    | cons e entries ih =>
      rw [List.filterMap_cons, List.map_cons, List.map_cons, List.sum_cons, ← ih]
      cases b.queues.orders.get? e.2 with
      | none => simp
      | some o =>
        rw [Arena.share_some, onSide, List.countP_cons, Nat.add_comm]
        simp
  rw [residents, hsum, ordersOn]
  symm
  refine Arena.total_eq_sum (onSide side) h.nodup_indexed ?_
  intro s hs
  rw [h.mem_indexed]
  cases ho : b.queues.orders.get? s with
  | none =>
    rw [ho] at hs
    exact absurd rfl hs
  | some o => exact ⟨o, rfl⟩

/-- An order is linked once, in the level it names. -/
theorem WellFormed.linked_once {o : Order} (h : b.WellFormed)
    (ho : b.queues.orders.get? slot = some o) :
    ∃ key l, o.level = some key ∧ b.queues.levels.get? key = some l ∧ l.side = o.side ∧
      l.price = o.price ∧ (b.ordersOf l).count (slot, o) = 1 ∧
      ∀ key' l', b.queues.levels.get? key' = some l' →
        slot ∈ (b.ordersOf l').map Prod.fst → key' = key := by
  obtain ⟨members, hstands⟩ := h.stands
  obtain ⟨key, hlevel⟩ := h.settled (Queues.card_eq ho)
  obtain ⟨hslot, ⟨l, hl, hlabel⟩, -⟩ :=
    hstands.places.exists_level_order (Queues.card_eq ho) hlevel
  refine ⟨key, l, hlevel, hl, congrArg Prod.fst hlabel, congrArg Prod.snd hlabel, ?_, ?_⟩
  · have hmem : (slot, o) ∈ b.ordersOf l := by
      rw [show b.ordersOf l = _ from
        (hstands.places.represents hl).orders_eq h.tidy, Pool.mem_entries]
      exact ⟨hslot, ho⟩
    have hnodup : (b.ordersOf l).Nodup := by
      refine List.Nodup.of_map Prod.fst ?_
      rw [show (b.ordersOf l).map Prod.fst = _ from hstands.places.map_fst_ordersOf hl]
      exact hstands.places.nodup key
    exact List.count_eq_one_of_mem hnodup hmem
  · intro key' l' hl' hslot'
    rw [show (b.ordersOf l').map Prod.fst = _ from hstands.places.map_fst_ordersOf hl'] at hslot'
    exact hstands.places.disjoint hslot' hslot

/-- A well-formed book with fewer than `2 ^ 32` orders is consistent. -/
theorem WellFormed.consistent (h : b.WellFormed) (hroom : b.queues.orders.size < 2 ^ 32) :
    b.Consistent := by
  obtain ⟨members, hstands⟩ := h.stands
  have hrep : ∀ {key l}, b.queues.levels.get? key = some l →
      l.Represents b.queues.orders (members key) := hstands.places.represents
  have horders : ∀ {key l}, b.queues.levels.get? key = some l →
      b.ordersOf l = b.queues.orders.entries (members key) := fun hl =>
    (hrep hl).orders_eq h.tidy
  have hfst : ∀ {key l}, b.queues.levels.get? key = some l →
      (b.ordersOf l).map Prod.fst = members key := fun hl =>
    (hrep hl).map_fst_orders h.tidy
  have hlength : ∀ {key l}, b.queues.levels.get? key = some l →
      (b.ordersOf l).length = (members key).length := fun hl => by
    rw [← hfst hl, List.length_map]
  have hshort : ∀ key, (members key).length < 2 ^ 32 := fun key =>
    lt_of_le_of_lt (hstands.places.length_le_size key) hroom
  refine {
    indexed := ?_
    pooled := ?_
    linked := h.linked_once
    held := ?_
    walks := ?_
    ends := ?_
    volume_eq := ?_
    count_eq := ?_
    occupied := ?_
    priced := hstands.levelKey?_iff_hasLevel
    laddered := hstands.mem_ladder.trans hstands.levelKey?_iff_hasLevel
    bestFirst := hstands.pairwise_ladder
    best_eq := fun side => (hstands.shelved.sound side).best?_eq
    sideCount_eq := ?_
    poolSize_eq := h.size_index.symm
    levelsSize_eq := ⟨hstands.size_levels, hstands.size_prices⟩ }
  · intro id slot hid
    obtain ⟨o, ho, hoid⟩ := h.index_iff.mp hid
    obtain ⟨p, hp, rfl⟩ := Queues.get?_of_card ho
    exact ⟨p, hp, hoid⟩
  · intro slot o ho
    exact h.index_iff.mpr ⟨o.bare, Queues.card_eq ho, rfl⟩
  · intro key l slot o hl hmem
    rw [horders hl, Pool.mem_entries] at hmem
    exact hmem.2
  · intro key l hl steps hsteps
    rw [hlength hl] at hsteps
    rw [(hrep hl).head_eq, (hrep hl).tail_eq, horders hl]
    exact ⟨(hrep hl).chain.walk_eq hsteps, (hrep hl).chain.walkBack_eq hsteps⟩
  · intro key l hl
    rw [horders hl]
    exact ⟨fun _ => (hrep hl).chain.prev_of_head?, fun _ => (hrep hl).chain.next_of_getLast?⟩
  · intro key l hl
    rw [(hrep hl).toNat_volume (hshort key), horders hl, Pool.sum_entries]
  · intro key l hl
    rw [(hrep hl).toNat_count (hshort key), hlength hl]
  · intro key l hl hnil
    have hslots := hstands.slotsAt_of_key (hstands.exists_key hl)
    refine h.nonempty (hstands.exists_key hl) ?_
    rw [hslots, ← hfst hl, hnil]
    rfl
  · intro side
    rw [h.countP_residents, h.toNat_count (lt_trans hroom (by decide))]

end Book

end PriceTime
