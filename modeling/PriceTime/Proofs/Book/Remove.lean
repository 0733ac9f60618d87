import PriceTime.Proofs.Book.WellFormed

/-!
# Taking an order out

An order that leaves the book, cancelled or filled, is struck out of the index, leaves its queue and
gives its slot back. Its level goes with it when it was the last one there.

* `Book.WellFormed.takeOut`: a well-formed book without one of its orders.
* `Book.WellFormed.remove`: the order that was removed is handed back without links.
* `Book.remove_of_none`: an id that does not rest is rejected, and the book stays as it is.
-/

namespace PriceTime

namespace Book

variable {b b' : Book} {members : LevelKey → List Slot} {key : LevelKey} {slot : Slot} {id : UInt64}
  {side : Side} {o : Order} {events : List Event}

/-- `b'` is `b` without the order `o`, which was in `slot` and in the level `key`. -/
structure Removed (b : Book) (slot : Slot) (o : Order) (key : LevelKey) (b' : Book)
    (events : List Event) : Prop where
  card_eq : ∀ s, b'.card s = if s = slot then none else b.card s
  slotsAt_eq : ∀ s p, b'.slotsAt s p =
    if s = o.side ∧ p = o.price then (b.slotsAt s p).erase slot else b.slotsAt s p
  levelKey?_eq : ∀ s p, b'.levelKey? s p =
    if s = o.side ∧ p = o.price ∧ b.slotsAt s p = [slot] then none else b.levelKey? s p
  orders_room : Arena.SameRoom (b.queues.orders.vacate slot) b'.queues.orders
  levels_room : Arena.SameRoom
    (if b.slotsAt o.side o.price = [slot] then b.queues.levels.vacate key else b.queues.levels)
    b'.queues.levels
  events_eq : events =
    if b.slotsAt o.side o.price = [slot] then [.levelReleased o.price o.side] else []

/-- One order less makes one less on its side. -/
theorem ordersOn_of_removal (ho : b.card slot = some o)
    (hcard : ∀ s, b'.card s = if s = slot then none else b.card s) (side : Side) :
    b'.ordersOn side + onSide side o = b.ordersOn side :=
  total_of_removal (onSide side) (fun _ => rfl) ho hcard

theorem ordersOn_pos (ho : b.card slot = some o) : 0 < b.ordersOn o.side := by
  have hle := Arena.sum_le_total (a := b.queues.orders) (onSide o.side) (List.nodup_singleton slot)
  rw [List.map_singleton, share_card _ (fun _ => rfl), ho, List.sum_singleton, Arena.share_some,
    onSide, if_pos rfl] at hle
  exact hle

theorem Removed.size_eq (hremoved : b.Removed slot o key b' events) (h : b.WellFormed)
    (h' : b'.WellFormed) (ho : b.card slot = some o) :
    b'.queues.orders.size + 1 = b.queues.orders.size := by
  have hsize := size_add_eq slot h.tidy h'.tidy fun s hs =>
    (hremoved.card_eq s).trans (if_neg hs)
  rw [ho, hremoved.card_eq, if_pos rfl] at hsize
  exact hsize

/-- A well-formed book stays so when an order leaves and the registers learn of it. -/
theorem WellFormed.of_removed (h : b.WellFormed) (hstands : ∃ members, b'.Stands members)
    (ho : b.card slot = some o) (hremoved : b.Removed slot o key b' events)
    (hindex : b'.index = b.index.erase o.id)
    (hcount : ∀ s, (b'.half s).count =
      if s = o.side then (b.half s).count - 1 else (b.half s).count) : b'.WellFormed where
  stands := hstands
  settled := by
    intro s p hp
    rw [hremoved.card_eq] at hp
    split at hp
    · cases hp
    · exact h.settled hp
  nonempty := by
    intro s p k hk
    rw [hremoved.levelKey?_eq] at hk
    rw [hremoved.slotsAt_eq]
    split at hk
    · cases hk
    · rename_i hlast
      split
      · rename_i hsp
        have hslot : slot ∈ b.slotsAt s p := h.mem_slotsAt.mpr ⟨o, ho, hsp.1.symm, hsp.2.symm⟩
        rw [Ne, erase_eq_nil_iff hslot]
        exact fun heq => hlast ⟨hsp.1, hsp.2, heq⟩
      · exact h.nonempty hk
  index_iff := by
    intro i s
    rw [hindex, Std.ExtTreeMap.getElem?_erase, hremoved.card_eq]
    by_cases hs : s = slot
    -- The identifier is free again, since no other order bears it.
    · subst hs
      rw [if_pos rfl]
      refine iff_of_false ?_ (by simp)
      intro hi
      split at hi
      · cases hi
      · rename_i hne
        obtain ⟨p, hp, hid⟩ := h.index_iff.mp hi
        rw [ho] at hp
        cases hp
        exact hne (Std.ReflCmp.cmp_eq_of_eq hid)
    · rw [if_neg hs]
      split
      · rename_i hid
        rw [← Std.LawfulEqCmp.eq_of_compare hid]
        refine iff_of_false (by simp) ?_
        rintro ⟨p, hp, hid⟩
        exact hs (h.slot_unique hp ho hid)
      · exact h.index_iff
  count_eq := by
    intro s
    rw [hcount, h.count_eq, ← ordersOn_of_removal ho hremoved.card_eq, UInt64.ofNat_add]
    unfold onSide
    split
    · rename_i hs
      rw [if_pos hs.symm]
      exact UInt64.add_sub_cancel _ _
    · rename_i hs
      rw [if_neg (Ne.symm hs)]
      exact UInt64.add_zero _

/-! ## The steps -/

/-- Take the order in `slot`, with the given id, out of a book, and count one order less on the side
that `side` says: the order, the book afterwards and what was reported. -/
def takeOut (b : Book) (slot : Slot) (id : UInt64) (side : Order → Side) :
    Except Fault (Order × Book × List Event) := do
  let (b, events) ← Book.detach { b with index := b.index.erase id } slot
  let (order, b) ← b.take slot
  return (order, ← b.countDown (side order), events)

theorem remove_of_none (h : b.index[id]? = none) :
    b.remove id = .ok { result := .error (.unknownOrder id), state := b } := by
  simp [remove, h]
  rfl

theorem remove_of_some (h : b.index[id]? = some slot) :
    b.remove id = b.takeOut slot id Order.side >>= fun r =>
      .ok { result := .ok r.1, state := r.2.1, events := r.2.2 } := by
  obtain ⟨queues, bids, asks, index⟩ := b
  simp only [remove, h, takeOut, bind_assoc]
  rfl

/-- The book with the slot of an order given back. -/
def vacate (b : Book) (slot : Slot) : Book :=
  { b with queues := ⟨b.queues.orders.vacate slot, b.queues.levels⟩ }

theorem take_eq (ho : b.queues.orders.get? slot = some o) :
    b.take slot = .ok (o, b.vacate slot) := by
  rw [take, fromQueues_eq, Queues.Threads.release_eq ho]
  rfl

theorem half_vacate (b : Book) (slot : Slot) (s : Side) : (b.vacate slot).half s = b.half s := by
  cases s <;> rfl

theorem levelKey?_vacate (b : Book) (slot : Slot) (s : Side) (p : Int32) :
    (b.vacate slot).levelKey? s p = b.levelKey? s p := by
  rw [levelKey?_eq, half_vacate]
  rfl

/-- An order in no level leaves a book that stays standing. -/
theorem Stands.vacate (h : b.Stands members) (ho : b.card slot = some o) (hlevel : o.level = none) :
    (b.vacate slot).Stands members :=
  h.with_queues (h.places.release ho hlevel) fun _ => rfl

/-- While an order rests on a side, the count of the side can go down. -/
theorem WellFormed.countDown_spec (h : b.WellFormed) (ho : b.card slot = some o)
    (hcount : (b'.half o.side).count = (b.half o.side).count) :
    Yields b.HasRoom (b'.countDown o.side) fun b'' =>
      b'' = b'.onHalf o.side fun h => { h with count := h.count - 1 } := by
  unfold countDown
  split
  · rename_i hzero
    refine Yields.error _ fun hroom => ?_
    rw [hcount] at hzero
    have hpos := ordersOn_pos ho
    have hnat := h.toNat_count hroom.size_lt o.side
    rw [hzero] at hnat
    exact absurd hnat.symm (Nat.ne_of_gt hpos)
  · exact Yields.ok rfl

/-- An order is taken out when it has left its queue and its slot is given back. -/
theorem Detached.removed {b₀ b₁ b₂ : Book} (hshelves : b.SameShelves b₀)
    (hdetached : b₀.Detached slot o key b₁ events) (hstands₁ : b₁.Stands members)
    (hstands₂ : (b₁.vacate slot).Stands members) (hlast : (b₁.vacate slot).SameShelves b₂) :
    b.Removed slot o key b₂ events := by
  refine ⟨?_, ?_, ?_, ?_, ?_, ?_⟩
  · intro s
    rw [hlast.card_eq, card, vacate, Queues.Threads.card_vacate]
    split
    · rfl
    · rename_i hs
      exact (hdetached.card_eq s).trans ((if_neg hs).trans (hshelves.card_eq s))
  · intro s p
    rw [hlast.slotsAt_eq, hstands₁.slotsAt_congr hstands₂ (levelKey?_vacate b₁ slot s p),
      hdetached.slotsAt_eq, hshelves.slotsAt_eq]
  · intro s p
    rw [hlast.levelKey?_eq, levelKey?_vacate, hdetached.levelKey?_eq, hshelves.slotsAt_eq,
      hshelves.levelKey?_eq]
  · rw [hlast.queues, ← hshelves.queues]
    exact hdetached.orders_room.vacate slot
  · rw [hlast.queues, ← hshelves.slotsAt_eq, ← hshelves.queues]
    exact hdetached.levels_room
  · rw [hdetached.events_eq, hshelves.slotsAt_eq]

theorem Removed.length_slotsAt_le (hremoved : b.Removed slot o key b' events) (s : Side)
    (p : Int32) : (b'.slotsAt s p).length ≤ (b.slotsAt s p).length := by
  rw [hremoved.slotsAt_eq]
  split
  · exact List.length_erase_le
  · exact Nat.le_refl _

/-- Where an order leaves there is room still. -/
theorem Removed.hasRoom (hremoved : b.Removed slot o key b' events) (h : b.WellFormed)
    (h' : b'.WellFormed) (ho : b.card slot = some o) (hroom : b.HasRoom) : b'.HasRoom :=
  hroom.of_le (Nat.le.intro (hremoved.size_eq h h' ho)) hremoved.length_slotsAt_le

/-- The order in `slot` leaves a well-formed book, if it is counted on its side. -/
theorem WellFormed.takeOut {side : Order → Side} (h : b.WellFormed) (ho : b.card slot = some o)
    (hlevel : o.level = some key) (hside : side { o with level := none } = o.side) :
    Yields b.HasRoom (b.takeOut slot o.id side) fun r =>
      r.1 = { o with level := none } ∧ r.2.1.WellFormed ∧ b.Removed slot o key r.2.1 r.2.2 := by
  obtain ⟨members, hstands⟩ := h.stands
  have hshelves := SameShelves.with_index b (b.index.erase o.id)
  refine (((hshelves.stands hstands).detach ((hshelves.card_eq slot).trans ho) hlevel).of_room
    hshelves.hasRoom).bind ?_
  rintro ⟨b₁, events⟩ ⟨⟨members₁, hstands₁⟩, hdetached⟩
  dsimp only at hstands₁ hdetached ⊢
  have hcard₁ : b₁.card slot = some { o with level := none } := by
    rw [hdetached.card_eq, if_pos rfl]
  obtain ⟨p, hp, hbare⟩ := Queues.get?_of_card hcard₁
  have hloose := hstands₁.places.loose hp (hstands₁.places.loose_of_level hcard₁ rfl)
  have hporder : p = { o with level := none } := by
    rw [← hbare]
    obtain ⟨_, _, _, _, _, _, _, _, _⟩ := p
    obtain ⟨rfl, rfl⟩ := hloose
    rfl
  rw [take_eq hp, hporder, ok_bind]
  dsimp only
  rw [hside]
  have hstands₂ := hstands₁.vacate hcard₁ rfl
  have hcount : ∀ s, ((b₁.vacate slot).half s).count = (b.half s).count := by
    intro s
    rw [half_vacate, hdetached.register.count]
    cases s <;> rfl
  have hdown := h.countDown_spec ho (hcount o.side)
  refine hdown.bind ?_
  rintro b₃ rfl
  have hlast := SameShelves.with_count (b₁.vacate slot) o.side (· - 1)
  have hremoved := hdetached.removed hshelves hstands₁ hstands₂ hlast
  refine Yields.ok ⟨rfl, ?_, hremoved⟩
  refine h.of_removed ⟨_, hlast.stands hstands₂⟩ ho hremoved ?_ ?_
  · rw [index_onHalf]
    exact hdetached.register.index
  · intro s
    rw [half_onHalf]
    split
    · exact congrArg (· - 1) (hcount s)
    · exact hcount s

/-- The order with a resting id is taken out and handed back. -/
theorem WellFormed.remove (h : b.WellFormed) (hid : b.index[id]? = some slot)
    (ho : b.card slot = some o) (hlevel : o.level = some key) :
    Yields b.HasRoom (b.remove id) fun step =>
      step.result = .ok { o with level := none } ∧ step.state.WellFormed ∧
        b.Removed slot o key step.state step.events := by
  obtain rfl := h.id_eq hid ho
  rw [remove_of_some hid]
  refine (h.takeOut ho hlevel rfl).bind ?_
  rintro ⟨order, b', events⟩ ⟨horder, hb', hremoved⟩
  exact Yields.ok ⟨congrArg Except.ok horder, hb', hremoved⟩

end Book

end PriceTime
