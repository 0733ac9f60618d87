import PriceTime.Proofs.Book.WellFormed

/-!
# Adding an order

An order whose id does not rest in the book goes to the end of the queue of its side and price, in a
level made for it if there is none. It gets the next slot of the pool.

* `Book.WellFormed.add`: a well-formed book with one order more.
* `Book.add_of_contains`: a resting id is rejected, and the book stays as it is.
-/

namespace PriceTime

namespace Book

variable {b b' : Book} {members : LevelKey → List Slot} {key : LevelKey} {slot : Slot} {id : UInt64}
  {side : Side} {price : Int32} {size : UInt32} {time : UInt64} {o : Order} {room : Prop}
  {events : List Event}

/-- The level an order would join at a price of a side, or the one that would be made for it. -/
def keyFor (b : Book) (side : Side) (price : Int32) : LevelKey :=
  (b.levelKey? side price).getD b.queues.levels.nextKey

/-- `b'` is `b` with the order `o` at the end of the queue of its side and price. -/
structure Added (b : Book) (o : Order) (b' : Book) (events : List Event) : Prop where
  card_eq : ∀ s, b'.card s =
    if s = b.queues.orders.nextKey then some { o with level := some (b.keyFor o.side o.price) }
    else b.card s
  slotsAt_eq : ∀ s p, b'.slotsAt s p =
    if s = o.side ∧ p = o.price then b.slotsAt s p ++ [b.queues.orders.nextKey] else b.slotsAt s p
  levelKey?_eq : ∀ s p, b'.levelKey? s p =
    if s = o.side ∧ p = o.price then some (b.keyFor o.side o.price) else b.levelKey? s p
  orders_room : Arena.SameRoom (b.queues.orders.insert o).2 b'.queues.orders
  levels_room : Arena.SameRoom
    (if (b.levelKey? o.side o.price).isSome then b.queues.levels
      else (b.queues.levels.insert { price := o.price, side := o.side }).2) b'.queues.levels
  events_eq : events =
    if (b.levelKey? o.side o.price).isSome then [] else [.levelCreated o.price o.side]

theorem card_nextKey (h : b.WellFormed) : b.card b.queues.orders.nextKey = none :=
  Queues.card_eq_none_iff.mpr h.tidy.get?_nextKey

/-- The slot to be handed out next is in no queue. -/
theorem nextKey_notMem_slotsAt (h : b.WellFormed) (side : Side) (price : Int32) :
    b.queues.orders.nextKey ∉ b.slotsAt side price := by
  intro hslot
  obtain ⟨o, ho, -⟩ := h.mem_slotsAt.mp hslot
  rw [card_nextKey h] at ho
  cases ho

/-- One order more makes one more on its side. -/
theorem ordersOn_of_arrival (hfresh : b.card slot = none)
    (hcard : ∀ s, b'.card s = if s = slot then some o else b.card s) (side : Side) :
    b'.ordersOn side = b.ordersOn side + onSide side o :=
  total_of_arrival (onSide side) (fun _ => rfl) hfresh hcard

/-- A well-formed book stays so when an order comes in and the registers learn of it. -/
theorem WellFormed.of_added (h : b.WellFormed) (hstands : ∃ members, b'.Stands members)
    (hadded : b.Added o b' events) (hnew : b.index[o.id]? = none)
    (hindex : b'.index = b.index.insert o.id b.queues.orders.nextKey)
    (hcount : ∀ s, (b'.half s).count =
      if s = o.side then (b.half s).count + 1 else (b.half s).count) : b'.WellFormed where
  stands := hstands
  settled := by
    intro s p hp
    rw [hadded.card_eq] at hp
    split at hp
    · cases hp
      exact ⟨_, rfl⟩
    · exact h.settled hp
  nonempty := by
    intro s p k hk
    rw [hadded.levelKey?_eq] at hk
    rw [hadded.slotsAt_eq]
    split at hk
    · rename_i hsp
      rw [if_pos hsp]
      exact List.append_ne_nil_of_right_ne_nil _ (List.cons_ne_nil _ _)
    · rename_i hsp
      rw [if_neg hsp]
      exact h.nonempty hk
  index_iff := by
    intro i s
    rw [hindex, Std.ExtTreeMap.getElem?_insert, hadded.card_eq]
    by_cases hs : s = b.queues.orders.nextKey
    · subst hs
      rw [if_pos rfl]
      simp only [Option.some.injEq, exists_eq_left', Std.compare_eq_iff_eq]
      split
      · rename_i hid
        simp [hid]
      · rename_i hid
        refine iff_of_false ?_ hid
        intro hi
        obtain ⟨p, hp, -⟩ := h.index_iff.mp hi
        rw [card_nextKey h] at hp
        cases hp
    · rw [if_neg hs, ← h.index_iff]
      split
      · rename_i hid
        rw [← Std.LawfulEqCmp.eq_of_compare hid, hnew]
        simp [Ne.symm hs]
      · rfl
  count_eq := by
    intro s
    rw [hcount, ordersOn_of_arrival (card_nextKey h) hadded.card_eq, UInt64.ofNat_add, ← h.count_eq]
    unfold onSide
    split
    · rename_i hs
      rw [if_pos hs.symm]
      rfl
    · rename_i hs
      rw [if_neg (Ne.symm hs)]
      exact (UInt64.add_zero _).symm

theorem Added.size_eq (hadded : b.Added o b' events) (h : b.WellFormed) (h' : b'.WellFormed) :
    b'.queues.orders.size = b.queues.orders.size + 1 := by
  have hsize := size_add_eq b.queues.orders.nextKey h.tidy h'.tidy fun s hs =>
    (hadded.card_eq s).trans (if_neg hs)
  rw [card_nextKey h, hadded.card_eq, if_pos rfl] at hsize
  exact hsize

/-- A resting id is rejected. -/
theorem add_of_contains (h : b.contains id = true) :
    b.add id price size side time = .ok { result := .error (.duplicateOrder id), state := b } := by
  simp [add, h]
  rfl

/-- The book with a new order in the pool and in the index, and in no level yet. -/
def acquire (b : Book) (o : Order) : Book :=
  { b with
    queues := (b.queues.acquire o).2
    index := b.index.insert o.id b.queues.orders.nextKey }

theorem add_eq (h : b.contains id = false) :
    b.add id price size side time =
      ((b.levelFor side price).2.1.acquire { id, price, size, side, time }).link
        (b.levelFor side price).1 (b.levelFor side price).2.1.queues.orders.nextKey >>= fun b' =>
        .ok {
          result := .ok (b.levelFor side price).2.1.queues.orders.nextKey
          state := b'.countUp side
          events := (b.levelFor side price).2.2 } := by
  unfold add
  rw [if_neg (by simp [h])]
  obtain ⟨key, ⟨queues, bids, asks, index⟩, events⟩ := b.levelFor side price
  simp only [Queues.Threads.acquire_eq]
  rfl

/-- `b'` is `b` with the new order `o` in the pool and in the index, and in no level yet. -/
structure Acquired (b : Book) (o : Order) (b' : Book) : Prop where
  card_eq : ∀ s, b'.card s = if s = b.queues.orders.nextKey then some o else b.card s
  slotsAt_eq : ∀ s p, b'.slotsAt s p = b.slotsAt s p
  levelKey?_eq : ∀ s p, b'.levelKey? s p = b.levelKey? s p
  orders : b'.queues.orders = (b.queues.orders.insert o).2
  levels : b'.queues.levels = b.queues.levels
  index : b'.index = b.index.insert o.id b.queues.orders.nextKey
  count : ∀ side, (b'.half side).count = (b.half side).count

/-- A new order without links keeps a book standing. -/
theorem Stands.acquire (h : b.Stands members) (hbare : o.bare = o) (hlevel : o.level = none) :
    (b.acquire o).Stands members ∧ b.Acquired o (b.acquire o) := by
  have hkeys : ∀ s p, (b.acquire o).levelKey? s p = b.levelKey? s p := by
    intro s p
    cases s <;> rfl
  have hqueues : ({ b with queues := (b.queues.acquire o).2 } : Book).Stands members := by
    refine h.with_queues (h.places.acquire ?_ ?_ hlevel) ?_
    · rw [← hbare]
      rfl
    · rw [← hbare]
      rfl
    · intro k
      rw [Queues.Threads.acquire_eq]
      rfl
  have hstands : (b.acquire o).Stands members :=
    (SameShelves.with_index { b with queues := (b.queues.acquire o).2 } _).stands hqueues
  refine ⟨hstands, ?_, ?_, hkeys, ?_, ?_, rfl, ?_⟩
  · intro s
    have hcard := h.places.card_acquire o s
    rw [hbare] at hcard
    exact hcard
  · intro s p
    exact h.slotsAt_congr hstands (hkeys s p)
  · rw [Book.acquire, Queues.Threads.acquire_eq]
  · rw [Book.acquire, Queues.Threads.acquire_eq]
  · intro s
    cases s <;> rfl

/-- A level is ready, a new order is in the pool and goes to the end of the queue: it is added. -/
theorem LevelReady.added {b₁ b₂ b₃ : Book} (hready : b.LevelReady o.side o.price key b₁ events)
    (hstands : b.Stands members) (hstands₁ : b₁.Stands members) (hacquired : b₁.Acquired o b₂)
    (halters : b₂.Alters b₁.queues.orders.nextKey (fun o => { o with level := some key }) o.side
      o.price (b₂.slotsAt o.side o.price ++ [b₁.queues.orders.nextKey]) b₃) :
    b.Added o (b₃.countUp o.side) events := by
  rw [hready.orders] at halters
  have hcount : b₃.SameShelves (b₃.countUp o.side) := SameShelves.with_count b₃ o.side (· + 1)
  have hslots : ∀ s p, b₂.slotsAt s p = b.slotsAt s p := by
    intro s p
    rw [hacquired.slotsAt_eq, hready.slotsAt_eq hstands hstands₁]
  refine ⟨?_, ?_, ?_, ?_, ?_, hready.events_eq⟩
  · intro s
    rw [hcount.card_eq, halters.card_eq, hacquired.card_eq, hready.card_eq, hready.orders,
      hready.key_eq]
    split <;> rfl
  · intro s p
    rw [hcount.slotsAt_eq, halters.slotsAt_eq, hslots, hslots]
    split
    · rename_i hsp
      rw [hsp.1, hsp.2]
    · rfl
  · intro s p
    rw [hcount.levelKey?_eq, halters.levelKey?_eq, hacquired.levelKey?_eq, hready.levelKey?_eq,
      hready.key_eq]
    rfl
  · rw [hcount.queues, ← hready.orders, ← hacquired.orders]
    exact halters.orders_room
  · rw [hcount.queues]
    exact hready.levels_room.trans (hacquired.levels ▸ halters.levels_room)

/-- An order with a new id joins a well-formed book. -/
theorem WellFormed.add (h : b.WellFormed) (hnew : b.contains id = false) :
    Yields room (b.add id price size side time) fun step =>
      step.result = .ok b.queues.orders.nextKey ∧ step.state.WellFormed ∧
        b.Added { id, price, size, side, time } step.state step.events := by
  obtain ⟨members, hstands⟩ := h.stands
  rw [add_eq hnew]
  obtain ⟨hstands₁, hready⟩ := hstands.levelFor side price
  generalize b.levelFor side price = made at hstands₁ hready
  obtain ⟨key, b₁, events⟩ := made
  dsimp only at hstands₁ hready ⊢
  obtain ⟨hstands₂, hacquired⟩ :=
    hstands₁.acquire (o := { id, price, size, side, time }) rfl rfl
  have ho := (hacquired.card_eq _).trans (if_pos rfl)
  have hkey := (hacquired.levelKey?_eq side price).trans
    ((hready.levelKey?_eq side price).trans (if_pos ⟨rfl, rfl⟩))
  refine (hstands₂.link ho rfl hkey).bind ?_
  rintro b₃ ⟨⟨members₃, hstands₃⟩, halters⟩
  have hadded := LevelReady.added hready hstands hstands₁ hacquired halters
  refine Yields.ok ⟨by rw [hready.orders], ?_, hadded⟩
  have hcount : b₃.SameShelves (b₃.countUp side) := SameShelves.with_count b₃ side (· + 1)
  refine h.of_added ⟨_, hcount.stands hstands₃⟩ hadded ?_ ?_ ?_
  · exact Std.ExtTreeMap.getElem?_eq_none_of_contains_eq_false hnew
  · rw [countUp, index_onHalf, halters.register.index, hacquired.index, hready.orders,
      hready.register.index]
  · intro s
    have hsame : (b₃.half s).count = (b.half s).count := by
      rw [halters.register.count, hacquired.count, hready.register.count]
    rw [countUp, half_onHalf]
    split
    · exact congrArg (· + 1) hsame
    · exact hsame

end Book

end PriceTime
