import PriceTime.Proofs.Book.Refinement
import PriceTime.Proofs.Book.Shape

/-!
# An order leaves and comes in again

The places freed last are handed out first. So an order that is taken out and put in again at once
has its slot back, and the level it may have been the last one of is made again under its old key.
What comes of it is the order at the end of its new queue, which is just what a modify does to an
order that loses its turn. And an order that is put in and taken out again leaves the book as it was,
but for the places that were new when it came in.

* `Book.Removed.reenters`: what the way out and in again makes of a slot and of the room.
* `Book.Repriced.eq_reentry`, `Book.Alters.eq_reentry`: at another price, and at the same one.
* `Book.Modified.eq_reentry`: a modify that costs an order its turn.
* `Book.Added.sameButSpare`: in, and out again.
-/

namespace PriceTime.Book

variable {b b' b₁ b₂ : Book} {slot : Slot} {key key' : LevelKey} {side : Side} {price : Int32}
  {size : UInt32} {time : UInt64} {o o' : Order} {result : Except BookError ModifyOutcome}
  {events released created : List Event}

/-! ## Out, and in again -/

theorem exists_slot_of_get? {id : UInt64} (ho : b.get? id = some o) :
    ∃ slot, b.index[id]? = some slot ∧ b.card slot = some o.bare := by
  obtain ⟨slot, hid, hslot⟩ := Option.bind_eq_some_iff.mp ho
  exact ⟨slot, hid, Queues.card_eq hslot⟩

/-- The id of an order that has left is free. -/
theorem Removed.contains_eq (hremoved : b.Removed slot o key b₁ released) (h : b.WellFormed)
    (h₁ : b₁.WellFormed) (ho : b.card slot = some o) : b₁.contains o.id = false := by
  have hnone : b₁.index[o.id]? = none := by
    rw [h₁.index_eq_none_iff]
    intro s p hp hid
    rw [hremoved.card_eq] at hp
    split at hp
    · cases hp
    · rename_i hs
      exact hs (h.slot_unique hp ho hid)
  rw [contains, Std.ExtTreeMap.contains_eq_isSome_getElem?, hnone]
  rfl

/-- The order that comes in after one has left gets its slot, and the room is what it was. -/
theorem Removed.reenters (hremoved : b.Removed slot o key b₁ released)
    (hadded : b₁.Added o' b₂ created) :
    (∀ s, b₂.card s = if s = slot then some { o' with level := some (b₁.keyFor o'.side o'.price) }
      else b.card s) ∧
    (∀ s p, b₂.slotsAt s p =
      if s = o'.side ∧ p = o'.price then b₁.slotsAt s p ++ [slot] else b₁.slotsAt s p) ∧
    Arena.SameRoom b.queues.orders b₂.queues.orders := by
  have hnext : b₁.queues.orders.nextKey = slot := by
    rw [hremoved.orders_room.nextKey, Arena.nextKey_vacate]
  refine ⟨?_, ?_, ?_⟩
  · intro s
    rw [hadded.card_eq, hnext, hremoved.card_eq]
    split <;> rfl
  · intro s p
    rw [hadded.slotsAt_eq, hnext]
  · refine Arena.SameRoom.trans ?_ hadded.orders_room
    exact (b.queues.orders.sameRoom_insert_vacate slot o').trans (hremoved.orders_room.insert o' o')

/-- An order at rest is as good as a new one that says the same. -/
theorem AtRest.eq_new (h : b.AtRest) (ho : b.card slot = some o) (price : Int32) (size : UInt32)
    (time : UInt64) (level : Option LevelKey) :
    ({ id := o.id, price, size, side := o.side, time, level } : Order) =
      { o with price, size, time, level } := by
  obtain ⟨hprev, hnext⟩ := AtRest.card_unlinked ho
  have hfilled := h.unfilled ho
  obtain ⟨_, _, _, _, _, _, _, _, _⟩ := o
  dsimp only at hprev hnext hfilled
  rw [hprev, hnext, hfilled]

/-- At another price, this is what becomes of an order that is repriced. -/
theorem Repriced.eq_reentry (hrepriced : b.Repriced slot o key price size time key' b' events)
    (hb : b.AtRest) (hb' : b'.WellFormed) (hb₂ : b₂.WellFormed) (ho : b.card slot = some o)
    (hprice : o.price ≠ price) (hremoved : b.Removed slot o key b₁ released)
    (hadded : b₁.Added { id := o.id, price, size, side := o.side, time } b₂ created) : b₂ = b' := by
  obtain ⟨hcard, hslots, horders⟩ := hremoved.reenters hadded
  -- The level of the new price is not the one that was left.
  have hlevel : b₁.levelKey? o.side price = b.levelKey? o.side price := by
    rw [hremoved.levelKey?_eq, if_neg fun hand => hprice hand.2.1.symm]
  have hkey : b₁.keyFor o.side price = key' := by
    rw [keyFor, hlevel, hremoved.levels_room.nextKey, hrepriced.key_eq]
    rfl
  refine hb'.eq_of_sameShape hb₂ ⟨⟨?_, ?_, ?_⟩, ?_, ?_⟩
  · intro s
    rw [hcard, hrepriced.card_eq, hkey, hb.eq_new ho]
  · intro s p
    rw [hslots, hremoved.slotsAt_eq, hrepriced.slotsAt_eq]
    dsimp only
    split
    · rename_i hsp
      rw [if_neg fun hand => hprice (hand.2.symm.trans hsp.2)]
    · rfl
  · intro s p
    rw [hadded.levelKey?_eq, hkey, hremoved.levelKey?_eq, hrepriced.levelKey?_eq]
  · exact hrepriced.orders_room.symm.trans horders
  · refine hrepriced.levels_room.symm.trans (Arena.SameRoom.trans ?_ hadded.levels_room)
    dsimp only
    rw [hlevel]
    split
    · exact hremoved.levels_room
    · exact hremoved.levels_room.insert _ _

/-- The level an order comes back to is the one it has left, even if it was made anew. -/
theorem Removed.reenters_level (hremoved : b.Removed slot o key b₁ released)
    (hadded : b₁.Added o' b₂ created) (hside : o'.side = o.side) (hprice : o'.price = o.price)
    (hkey : b.levelKey? o.side o.price = some key) :
    b₁.keyFor o'.side o'.price = key ∧
    (∀ s p, b₂.levelKey? s p = b.levelKey? s p) ∧
    Arena.SameRoom b.queues.levels b₂.queues.levels := by
  have hlevel := hremoved.levelKey?_eq o.side o.price
  have hroom := hremoved.levels_room
  have hlast := hadded.levels_room
  rw [hside, hprice] at hlast ⊢
  have hkept : b₁.keyFor o.side o.price = key →
      ∀ s p, b₂.levelKey? s p = b.levelKey? s p := by
    intro hkeyFor s p
    rw [hadded.levelKey?_eq, hside, hprice, hkeyFor, hremoved.levelKey?_eq]
    split
    · rename_i hsp
      rw [hsp.1, hsp.2, hkey]
    · rename_i hsp
      rw [if_neg fun hand => hsp ⟨hand.1, hand.2.1⟩]
  by_cases hsole : b.slotsAt o.side o.price = [slot]
  · rw [if_pos ⟨rfl, rfl, hsole⟩] at hlevel
    rw [if_pos hsole] at hroom
    rw [hlevel, Option.isSome_none, if_neg Bool.false_ne_true] at hlast
    have hkeyFor : b₁.keyFor o.side o.price = key := by
      rw [keyFor, hlevel, Option.getD_none, hroom.nextKey, Arena.nextKey_vacate]
    have hback := b.queues.levels.sameRoom_insert_vacate key { price := o.price, side := o.side }
    exact ⟨hkeyFor, hkept hkeyFor, (hback.trans (hroom.insert _ _)).trans hlast⟩
  · rw [if_neg fun hand => hsole hand.2.2, hkey] at hlevel
    rw [if_neg hsole] at hroom
    rw [hlevel, if_pos (Option.isSome_some)] at hlast
    have hkeyFor : b₁.keyFor o.side o.price = key := by
      rw [keyFor, hlevel, Option.getD_some]
    exact ⟨hkeyFor, hkept hkeyFor, hroom.trans hlast⟩

/-- At the same price, this is what becomes of an order that is sent back. -/
theorem Alters.eq_reentry
    (halters : b.Alters slot (fun o => { o with size, time }) o.side o.price
      ((b.slotsAt o.side o.price).erase slot ++ [slot]) b')
    (hb : b.AtRest) (hb' : b'.WellFormed) (hb₂ : b₂.WellFormed) (ho : b.card slot = some o)
    (hlevel : o.level = some key) (hremoved : b.Removed slot o key b₁ released)
    (hadded : b₁.Added { id := o.id, price := o.price, size, side := o.side, time } b₂ created) :
    b₂ = b' := by
  obtain ⟨hcard, hslots, horders⟩ := hremoved.reenters hadded
  obtain ⟨key', hlevel', hkey⟩ := hb.level_eq ho
  obtain rfl : key' = key := Option.some.inj (hlevel'.symm.trans hlevel)
  obtain ⟨hkeyFor, hlevels, hroom⟩ := hremoved.reenters_level hadded rfl rfl hkey
  refine hb'.eq_of_sameShape hb₂ ⟨⟨?_, ?_, ?_⟩, ?_, ?_⟩
  · intro s
    rw [hcard, halters.card_of ho, hkeyFor, hb.eq_new ho, ← hlevel]
  · intro s p
    rw [hslots, hremoved.slotsAt_eq, halters.slotsAt_eq]
    dsimp only
    split
    · rename_i hsp
      rw [hsp.1, hsp.2]
    · rfl
  · intro s p
    rw [hlevels, halters.levelKey?_eq]
  · exact halters.orders_room.symm.trans horders
  · exact halters.levels_room.symm.trans hroom

/-- A modify that costs an order its turn takes the order out and puts it in again. -/
theorem Modified.eq_reentry
    (hmodified : b.Modified o.id price size o.side time result b' events) (hb : b.AtRest)
    (hb' : b'.WellFormed) (hb₂ : b₂.WellFormed) (hid : b.index[o.id]? = some slot)
    (ho : b.card slot = some o) (hlevel : o.level = some key)
    (hloses : o.price ≠ price ∨ o.size < size) (hremoved : b.Removed slot o key b₁ released)
    (hadded : b₁.Added { id := o.id, price, size, side := o.side, time } b₂ created) :
    b₂ = b' ∧ result = .ok (if o.price = price then .requeued else .repriced) := by
  cases hmodified with
  | added hnone =>
    rw [hid] at hnone
    cases hnone
  | rejected hid' ho' hside =>
    obtain rfl := Option.some.inj (hid'.symm.trans hid)
    obtain rfl := Option.some.inj (ho'.symm.trans ho)
    exact absurd rfl hside
  | repriced hid' ho' hlevel' _ hprice hrepriced =>
    obtain rfl := Option.some.inj (hid'.symm.trans hid)
    obtain rfl := Option.some.inj (ho'.symm.trans ho)
    obtain rfl := Option.some.inj (hlevel'.symm.trans hlevel)
    rw [if_neg hprice]
    exact ⟨hrepriced.eq_reentry hb hb' hb₂ ho hprice hremoved hadded, rfl⟩
  | requeued hid' ho' _ hprice _ halters =>
    obtain rfl := Option.some.inj (hid'.symm.trans hid)
    obtain rfl := Option.some.inj (ho'.symm.trans ho)
    subst hprice
    rw [if_pos rfl]
    exact ⟨halters.eq_reentry hb hb' hb₂ ho hlevel hremoved hadded, rfl⟩
  | resized hid' ho' _ hprice hsize =>
    obtain rfl := Option.some.inj (hid'.symm.trans hid)
    obtain rfl := Option.some.inj (ho'.symm.trans ho)
    rcases hloses with hmoves | hgrows
    · exact absurd hprice hmoves
    · exact absurd hgrows (UInt32.not_lt.mpr hsize)

/-! ## In, and out again -/

/-- An order that has come in is alone if its level was made for it. -/
theorem Added.alone_iff (hadded : b.Added o b₁ created) (h : b.WellFormed) :
    b₁.slotsAt o.side o.price = [b.queues.orders.nextKey] ↔ b.levelKey? o.side o.price = none := by
  rw [hadded.slotsAt_eq, if_pos ⟨rfl, rfl⟩, h.levelKey?_eq_none_iff, List.append_left_eq_self]

/-- A level made for an order that leaves at once leaves at most a spare key. -/
theorem Added.levels_room_back (hadded : b.Added o b₁ created) (h : b.WellFormed) :
    Arena.SpareRoom b.queues.levels (if b₁.slotsAt o.side o.price = [b.queues.orders.nextKey] then
      b₁.queues.levels.vacate (b.keyFor o.side o.price) else b₁.queues.levels) := by
  have hroom := hadded.levels_room
  simp only [hadded.alone_iff h]
  cases hkey : b.levelKey? o.side o.price with
  | none =>
    rw [hkey, Option.isSome_none, if_neg Bool.false_ne_true] at hroom
    rw [if_pos rfl, keyFor, hkey, Option.getD_none]
    exact (Arena.spareRoom_insert_vacate _ _).congr (Arena.SameRoom.refl _) (hroom.vacate _)
  | some key =>
    rw [hkey, Option.isSome_some, if_pos rfl] at hroom
    rw [if_neg (Option.some_ne_none key)]
    exact hroom.spareRoom

/-- An order that comes in and leaves at once leaves the book it has found, but for spare places. -/
theorem Added.sameButSpare (hadded : b.Added o b₁ created)
    (hremoved : b₁.Removed b.queues.orders.nextKey
      { o with level := some (b.keyFor o.side o.price) } (b.keyFor o.side o.price) b₂ released)
    (h : b.WellFormed) (h₂ : b₂.WellFormed) : b.SameButSpare b₂ := by
  refine h.sameButSpare h₂ ⟨?_, ?_, ?_⟩ ?_ ?_
  · intro s
    rw [hremoved.card_eq, hadded.card_eq]
    split
    · rename_i hs
      rw [hs, card_nextKey h]
    · rfl
  · intro s p
    rw [hremoved.slotsAt_eq, hadded.slotsAt_eq]
    dsimp only
    split
    · rw [List.erase_append_right _ (nextKey_notMem_slotsAt h s p), List.erase_cons_head,
        List.append_nil]
    · rfl
  · intro s p
    rw [hremoved.levelKey?_eq, hadded.levelKey?_eq]
    dsimp only
    by_cases hsp : s = o.side ∧ p = o.price
    · obtain ⟨rfl, rfl⟩ := hsp
      simp only [true_and, if_true, hadded.alone_iff h]
      cases hkey : b.levelKey? o.side o.price with
      | none => rfl
      | some key => rw [if_neg (Option.some_ne_none key), keyFor, hkey, Option.getD_some]
    · rw [if_neg hsp, if_neg fun hand => hsp ⟨hand.1, hand.2.1⟩]
  · have hspare := Arena.spareRoom_insert_vacate b.queues.orders o
    exact hspare.congr (Arena.SameRoom.refl _)
      ((hadded.orders_room.vacate _).trans hremoved.orders_room)
  · exact (hadded.levels_room_back h).congr (Arena.SameRoom.refl _) hremoved.levels_room

end PriceTime.Book
