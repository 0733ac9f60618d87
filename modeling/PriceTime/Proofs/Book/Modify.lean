import PriceTime.Proofs.Book.Add

/-!
# Modifying an order

A modify adds an order that is not in the book, rejects one of the other side, and otherwise moves
the order to the end of the queue of another price, to the end of its own queue, or changes its size
where it stands.

* `Book.Modified`: the five things a modify can do.
* `Book.WellFormed.modify`: a modify of a well-formed book does one of them.
-/

namespace PriceTime

namespace Book

variable {b b' : Book} {members : LevelKey → List Slot} {key : LevelKey} {slot : Slot} {id : UInt64}
  {side : Side} {price : Int32} {size : UInt32} {time : UInt64} {o : Order} {room : Prop}
  {events : List Event}

/-! ## An order changes its price -/

/-- The levels once the order `o` in `slot` has left the level `key`. -/
def levelsWithout (b : Book) (slot : Slot) (o : Order) (key : LevelKey) : Arena Level :=
  if b.slotsAt o.side o.price = [slot] then b.queues.levels.vacate key else b.queues.levels

/-- `b'` is `b` with the order `o`, which was in `slot` and in the level `key`, at the end of the
queue of `price`; its new level is `key'`. -/
structure Repriced (b : Book) (slot : Slot) (o : Order) (key : LevelKey) (price : Int32)
    (size : UInt32) (time : UInt64) (key' : LevelKey) (b' : Book) (events : List Event) : Prop where
  key_eq : key' = (b.levelKey? o.side price).getD (b.levelsWithout slot o key).nextKey
  card_eq : ∀ s, b'.card s =
    if s = slot then some { o with price, size, time, level := some key' } else b.card s
  slotsAt_eq : ∀ s p, b'.slotsAt s p =
    if s = o.side ∧ p = price then b.slotsAt s p ++ [slot]
    else if s = o.side ∧ p = o.price then (b.slotsAt s p).erase slot else b.slotsAt s p
  levelKey?_eq : ∀ s p, b'.levelKey? s p =
    if s = o.side ∧ p = price then some key'
    else if s = o.side ∧ p = o.price ∧ b.slotsAt s p = [slot] then none else b.levelKey? s p
  orders_room : Arena.SameRoom b.queues.orders b'.queues.orders
  levels_room : Arena.SameRoom
    (if (b.levelKey? o.side price).isSome then b.levelsWithout slot o key
      else ((b.levelsWithout slot o key).insert { price, side := o.side }).2) b'.queues.levels
  register : b.SameRegister b'
  events_eq : events =
    (if b.slotsAt o.side o.price = [slot] then [.levelReleased o.price o.side] else []) ++
      if (b.levelKey? o.side price).isSome then [] else [.levelCreated price o.side]

theorem reprice_eq (b : Book) (slot : Slot) (price : Int32) (size : UInt32) (side : Side)
    (time : UInt64) :
    b.reprice slot price size side time = b.detach slot >>= fun r =>
      (r.1.levelFor side price).2.1.onQueues
        (·.update slot fun o => { o with price, size, time }) >>= fun b' =>
      b'.link (r.1.levelFor side price).1 slot >>= fun b'' =>
        .ok (b'', r.2 ++ (r.1.levelFor side price).2.2) := rfl

/-- An order that leaves its queue, changes and goes to the end of another one is repriced. -/
theorem Detached.repriced {b₁ b₂ b₃ b₄ : Book} {members₁ : LevelKey → List Slot}
    {key' : LevelKey} {released created : List Event}
    (hdetached : b.Detached slot o key b₁ released) (hstands₁ : b₁.Stands members₁)
    (hready : b₁.LevelReady o.side price key' b₂ created) (hstands₂ : b₂.Stands members₁)
    (hrevised : b₂.Alters slot (fun o => { o with price, size, time }) o.side price
      (b₂.slotsAt o.side price) b₃)
    (hlinked : b₃.Alters slot (fun o => { o with level := some key' }) o.side price
      (b₃.slotsAt o.side price ++ [slot]) b₄)
    (hprice : o.price ≠ price) :
    b.Repriced slot o key price size time key' b₄ (released ++ created) := by
  have hother : ¬ (o.side = o.side ∧ price = o.price) := fun hand => hprice hand.2.symm
  have hold : b₁.levelKey? o.side price = b.levelKey? o.side price := by
    rw [hdetached.levelKey?_eq, if_neg fun hand => hother ⟨hand.1, hand.2.1⟩]
  have hslots₃ : ∀ s p, b₃.slotsAt s p = b₁.slotsAt s p := by
    intro s p
    rw [hrevised.slotsAt_kept, hready.slotsAt_eq hstands₁ hstands₂]
  refine ⟨?_, ?_, ?_, ?_, ?_, ?_, ?_, ?_⟩
  · rw [hready.key_eq, hold, hdetached.levels_room.nextKey]
    rfl
  · intro s
    rw [hlinked.card_eq, hrevised.card_eq, hready.card_eq, hdetached.card_eq]
    split <;> rfl
  · intro s p
    rw [hlinked.slotsAt_eq, hslots₃, hslots₃, hdetached.slotsAt_eq, hdetached.slotsAt_eq,
      if_neg hother]
    split
    · rename_i hsp
      rw [hsp.1, hsp.2]
    · rfl
  · intro s p
    rw [hlinked.levelKey?_eq, hrevised.levelKey?_eq, hready.levelKey?_eq, hdetached.levelKey?_eq]
  · exact hdetached.orders_room.trans
      (hready.orders ▸ (hrevised.orders_room.trans hlinked.orders_room))
  · refine Arena.SameRoom.trans ?_
      (hready.levels_room.trans (hrevised.levels_room.trans hlinked.levels_room))
    rw [hold]
    split
    · exact hdetached.levels_room
    · exact hdetached.levels_room.insert _ _
  · exact ((hdetached.register.trans hready.register).trans hrevised.register).trans
      hlinked.register
  · rw [hdetached.events_eq, hready.events_eq, hold]

/-- A well-formed book stays so when an order is repriced. -/
theorem WellFormed.of_repriced {key' : LevelKey} (h : b.WellFormed)
    (hstands : ∃ members, b'.Stands members) (ho : b.card slot = some o)
    (hrepriced : b.Repriced slot o key price size time key' b' events) : b'.WellFormed := by
  refine h.of_revised hstands ho hrepriced.card_eq rfl rfl ⟨key', rfl⟩ ?_ hrepriced.register
  intro s p k hk
  rw [hrepriced.levelKey?_eq] at hk
  rw [hrepriced.slotsAt_eq]
  split at hk
  · rename_i hsp
    rw [if_pos hsp]
    exact List.append_ne_nil_of_right_ne_nil _ (List.cons_ne_nil _ _)
  · rename_i hsp
    rw [if_neg hsp]
    split at hk
    · cases hk
    · rename_i hlast
      split
      · rename_i hold
        have hslot : slot ∈ b.slotsAt s p := h.mem_slotsAt.mpr ⟨o, ho, hold.1.symm, hold.2.symm⟩
        rw [Ne, erase_eq_nil_iff hslot]
        exact fun heq => hlast ⟨hold.1, hold.2, heq⟩
      · exact h.nonempty hk

theorem reprice_spec (h : b.WellFormed) (ho : b.card slot = some o) (hlevel : o.level = some key)
    (hprice : o.price ≠ price) :
    Yields b.HasRoom (b.reprice slot price size o.side time) fun r =>
      ∃ key', r.1.WellFormed ∧ b.Repriced slot o key price size time key' r.1 r.2 := by
  obtain ⟨members, hstands⟩ := h.stands
  rw [reprice_eq]
  refine (hstands.detach ho hlevel).bind ?_
  rintro ⟨b₁, released⟩ ⟨⟨members₁, hstands₁⟩, hdetached⟩
  dsimp only at hstands₁ hdetached ⊢
  obtain ⟨hstands₂, hready⟩ := hstands₁.levelFor o.side price
  generalize b₁.levelFor o.side price = made at hstands₂ hready
  obtain ⟨key', b₂, created⟩ := made
  dsimp only at hstands₂ hready ⊢
  have hkey₂ : b₂.levelKey? o.side price = some key' :=
    (hready.levelKey?_eq o.side price).trans (if_pos ⟨rfl, rfl⟩)
  have hcard₂ : b₂.card slot = some { o with level := none } := by
    rw [hready.card_eq, hdetached.card_eq, if_pos rfl]
  refine (hstands₂.revise hcard₂ rfl hkey₂ (fun o => { o with price, size, time })
    (fun _ => ⟨rfl, rfl, rfl⟩) rfl).bind ?_
  rintro b₃ ⟨⟨members₃, hstands₃⟩, hrevised⟩
  have hcard₃ : b₃.card slot = some { o with price, size, time, level := none } := by
    rw [hrevised.card_eq, if_pos rfl, hcard₂]
    rfl
  refine (hstands₃.link hcard₃ rfl ((hrevised.levelKey?_eq ..).trans hkey₂)).bind ?_
  rintro b₄ ⟨hstands₄, hlinked⟩
  have hrepriced := hdetached.repriced hstands₁ hready hstands₂ hrevised hlinked hprice
  exact Yields.ok ⟨key', h.of_repriced hstands₄ ho hrepriced, hrepriced⟩

/-! ## An order changes at its price -/

/-- A well-formed book stays so when an order changes at its price and its queue is not emptied. -/
theorem WellFormed.of_alters {f : Order → Order} {slots : List Slot} (h : b.WellFormed)
    (hstands : ∃ members, b'.Stands members) (ho : b.card slot = some o)
    (halters : b.Alters slot f o.side o.price slots b') (hslots : slots ≠ [])
    (hid : (f o).id = o.id) (hside : (f o).side = o.side) (hlevel : (f o).level = o.level) :
    b'.WellFormed := by
  obtain ⟨key, hkey⟩ := h.settled ho
  refine h.of_revised hstands ho (halters.card_of ho) hid hside ⟨key, hlevel.trans hkey⟩ ?_
    halters.register
  intro s p k hk
  rw [halters.levelKey?_eq] at hk
  rw [halters.slotsAt_eq]
  split
  · exact hslots
  · exact h.nonempty hk

theorem levelOf_eq (ho : b.queues.orders.get? slot = some o) (hlevel : o.level = some key) :
    b.levelOf slot = .ok key := by
  unfold levelOf
  rw [Pool.fetch_eq ho]
  simp only [bind, Except.bind, hlevel]
  rfl

/-- A growing order goes to the end of its queue. -/
theorem requeue_spec (h : b.WellFormed) (ho : b.card slot = some o) :
    Yields b.HasRoom (b.requeue slot size time) fun b' =>
      b'.WellFormed ∧ b.Alters slot (fun o => { o with size, time }) o.side o.price
        ((b.slotsAt o.side o.price).erase slot ++ [slot]) b' := by
  obtain ⟨members, hstands⟩ := h.stands
  obtain ⟨key, hlevel, hkey⟩ := h.level_eq ho
  obtain ⟨p, hp, rfl⟩ := Queues.get?_of_card ho
  have heq : b.requeue slot size time =
      b.queues.sendBack key slot size time >>= fun q => .ok { b with queues := q } := by
    rw [requeue, levelOf_eq hp hlevel, ok_bind, onQueues_eq]
    rfl
  rw [heq]
  refine ((hstands.places.requeue ho hlevel size time).of_room fun hroom =>
    hstands.length_lt hroom hkey).bind ?_
  rintro q ⟨hplaces, halters⟩
  obtain ⟨hstands', hbook⟩ := hstands.alters hkey hplaces halters
  rw [hstands.slotsAt_of_key hkey]
  refine Yields.ok ⟨?_, hbook⟩
  exact h.of_alters ⟨_, hstands'⟩ ho hbook
    (List.append_ne_nil_of_right_ne_nil _ (List.cons_ne_nil _ _)) rfl rfl rfl

/-- A shrinking order keeps its turn. -/
theorem resize_spec (h : b.WellFormed) (ho : b.card slot = some o) (hsize : size ≤ o.size) :
    Yields b.HasRoom (b.resize slot (o.size - size) size) fun b' =>
      b'.WellFormed ∧ b.Alters slot (fun o => { o with size }) o.side o.price
        (b.slotsAt o.side o.price) b' := by
  obtain ⟨members, hstands⟩ := h.stands
  obtain ⟨key, hlevel, hkey⟩ := h.level_eq ho
  obtain ⟨p, hp, rfl⟩ := Queues.get?_of_card ho
  obtain ⟨l, hl, -⟩ := hstands.level?_of_key hkey
  have heq : b.resize slot (p.bare.size - size) size =
      l.reduce (p.bare.size - size) >>= fun l' => .ok { b with
        queues := ⟨b.queues.orders.modify slot fun o => { o with size },
          b.queues.levels.set key l'⟩ } := by
    rw [resize, levelOf_eq hp hlevel, ok_bind, onQueues_eq, Queues.reduce_eq hl]
    cases l.reduce (p.bare.size - size) with
    | error fault => rfl
    | ok l' =>
      show (Queues.update ⟨b.queues.orders, b.queues.levels.set key l'⟩ slot _ >>= _) = _
      rw [Queues.update_eq (q := ⟨b.queues.orders, b.queues.levels.set key l'⟩) hp]
      rfl
  rw [heq]
  refine (hstands.shrink ho hlevel hl (fun o => { o with size }) (fun _ => ⟨rfl, rfl, rfl⟩)
    (fun _ => ⟨rfl, rfl, rfl⟩) ?_).mono ?_
  · intro p' hp'
    have hsame : p'.size = p.bare.size := by
      rw [← hp']
      rfl
    show size.toNat + (p.bare.size - size).toNat = p'.size.toNat
    rw [hsame, UInt32.toNat_sub_of_le _ _ hsize]
    have := UInt32.le_iff_toNat_le.mp hsize
    omega
  · rintro b' ⟨hstands', halters⟩
    refine ⟨?_, halters⟩
    exact h.of_alters hstands' ho halters (h.nonempty hkey) rfl rfl rfl

/-! ## A modify -/

/-- What a modify of the order `id` can do to a book: its answer, the book afterwards and the
events. -/
inductive Modified (b : Book) (id : UInt64) (price : Int32) (size : UInt32) (side : Side)
    (time : UInt64) : Except BookError ModifyOutcome → Book → List Event → Prop where
  /-- An order that is not in the book is added. -/
  | added {b' : Book} {events : List Event} (hnew : b.index[id]? = none)
      (hadded : b.Added { id, price, size, side, time } b' events) :
      Modified b id price size side time (.ok .added) b' (.modifyAdds id price :: events)
  /-- An order of the other side stays as it is. -/
  | rejected {slot : Slot} {o : Order} (hid : b.index[id]? = some slot) (ho : b.card slot = some o)
      (hside : o.side ≠ side) :
      Modified b id price size side time (.error (.sideMismatch id o.side side)) b
        [.modifySwitchesSides id o.side side]
  /-- An order with another price moves. -/
  | repriced {slot : Slot} {o : Order} {key key' : LevelKey} {b' : Book} {events : List Event}
      (hid : b.index[id]? = some slot) (ho : b.card slot = some o) (hlevel : o.level = some key)
      (hside : o.side = side)
      (hprice : o.price ≠ price) (hrepriced : b.Repriced slot o key price size time key' b' events) :
      Modified b id price size side time (.ok .repriced) b' events
  /-- An order that grows goes to the end of its queue. -/
  | requeued {slot : Slot} {o : Order} {b' : Book} (hid : b.index[id]? = some slot)
      (ho : b.card slot = some o) (hside : o.side = side) (hprice : o.price = price)
      (hsize : o.size < size)
      (halters : b.Alters slot (fun o => { o with size, time }) side price
        ((b.slotsAt side price).erase slot ++ [slot]) b') :
      Modified b id price size side time (.ok .requeued) b' []
  /-- An order that does not grow keeps its turn. -/
  | resized {slot : Slot} {o : Order} {b' : Book} (hid : b.index[id]? = some slot)
      (ho : b.card slot = some o) (hside : o.side = side) (hprice : o.price = price)
      (hsize : size ≤ o.size)
      (halters : b.Alters slot (fun o => { o with size }) side price (b.slotsAt side price) b') :
      Modified b id price size side time (.ok .resized) b' []

/-- An order that stays at its price makes no queue longer. -/
theorem Modified.length_slotsAt_le {outcome : ModifyOutcome}
    (hmodified : b.Modified id price size side time (.ok outcome) b' events) (h : b.WellFormed)
    (hstays : outcome = .resized ∨ outcome = .requeued) (s : Side) (p : Int32) :
    (b'.slotsAt s p).length ≤ (b.slotsAt s p).length := by
  cases hmodified with
  | added | repriced => rcases hstays with heq | heq <;> cases heq
  | requeued _ ho hside hprice _ halters =>
    refine halters.length_slotsAt_le ?_ s p
    have hslot := h.mem_slotsAt.mpr ⟨_, ho, hside, hprice⟩
    rw [List.length_append, List.length_erase_of_mem hslot, List.length_singleton]
    have := List.length_pos_of_mem hslot
    omega
  | resized _ _ _ _ _ halters => exact halters.length_slotsAt_le (Nat.le_refl _) s p

theorem Modified.size_le {result : Except BookError ModifyOutcome}
    (hmodified : b.Modified id price size side time result b' events) (h : b.WellFormed)
    (h' : b'.WellFormed) : b'.queues.orders.size ≤ b.queues.orders.size + 1 := by
  cases hmodified with
  | added hnew hadded => exact Nat.le_of_eq (hadded.size_eq h h')
  | rejected => exact Nat.le_succ _
  | repriced _ _ _ _ _ hrepriced =>
    rw [hrepriced.orders_room.size_eq]
    exact Nat.le_succ _
  | requeued _ _ _ _ _ halters =>
    rw [halters.orders_room.size_eq]
    exact Nat.le_succ _
  | resized _ _ _ _ _ halters =>
    rw [halters.orders_room.size_eq]
    exact Nat.le_succ _

theorem modify_of_none (h : b.index[id]? = none) :
    b.modify id price size side time = b.add id price size side time >>= fun step =>
      .ok { step.map fun _ => .added with events := .modifyAdds id price :: step.events } := by
  simp only [modify, h]
  rfl

theorem modify_of_some (h : b.index[id]? = some slot) (ho : b.queues.orders.get? slot = some o) :
    b.modify id price size side time =
      if o.side ≠ side then .ok {
        result := .error (.sideMismatch id o.side side)
        state := b
        events := [.modifySwitchesSides id o.side side] }
      else if o.price ≠ price then
        b.reprice slot price size side time >>= fun r =>
          .ok { result := .ok .repriced, state := r.1, events := r.2 }
      else if o.size < size then
        b.requeue slot size time >>= fun b' => .ok { result := .ok .requeued, state := b' }
      else
        b.resize slot (o.size - size) size >>= fun b' =>
          .ok { result := .ok .resized, state := b' } := by
  simp only [modify, h, Pool.fetch_eq ho, ok_bind]
  rfl

/-- A modify of a well-formed book does one of the five things. -/
theorem WellFormed.modify (h : b.WellFormed) :
    Yields b.HasRoom (b.modify id price size side time) fun step =>
      step.state.WellFormed ∧
        b.Modified id price size side time step.result step.state step.events := by
  cases hid : b.index[id]? with
  | none =>
    rw [modify_of_none hid]
    have hnew : b.contains id = false := by
      rw [contains, Std.ExtTreeMap.contains_eq_isSome_getElem?, hid]
      rfl
    refine (h.add hnew).bind ?_
    rintro ⟨result, b', events⟩ ⟨hresult, hb', hadded⟩
    dsimp only at hresult hb' hadded
    subst hresult
    exact Yields.ok ⟨hb', .added hid hadded⟩
  | some slot =>
    obtain ⟨o, ho, rfl⟩ := h.index_iff.mp hid
    obtain ⟨key, hlevel, hkey⟩ := h.level_eq ho
    obtain ⟨p, hp, rfl⟩ := Queues.get?_of_card ho
    rw [modify_of_some hid hp]
    split
    · rename_i hside
      exact Yields.ok ⟨h, .rejected (o := p.bare) hid ho hside⟩
    rename_i hside
    have hside : p.side = side := not_not.mp hside
    subst hside
    split
    · rename_i hprice
      refine (reprice_spec h ho hlevel hprice).bind ?_
      rintro ⟨b', events⟩ ⟨key', hb', hrepriced⟩
      exact Yields.ok ⟨hb', .repriced hid ho hlevel rfl hprice hrepriced⟩
    rename_i hprice
    have hprice : p.price = price := not_not.mp hprice
    subst hprice
    split
    · rename_i hsize
      refine (requeue_spec h ho).bind ?_
      rintro b' ⟨hb', halters⟩
      exact Yields.ok ⟨hb', .requeued hid ho rfl rfl hsize halters⟩
    · rename_i hsize
      have hsize : size ≤ p.size := UInt32.not_lt.mp hsize
      refine (resize_spec h ho hsize).bind ?_
      rintro b' ⟨hb', halters⟩
      exact Yields.ok ⟨hb', .resized hid ho rfl rfl hsize halters⟩

end Book

end PriceTime
