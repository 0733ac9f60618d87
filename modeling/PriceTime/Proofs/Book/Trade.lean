import PriceTime.Proofs.Book.Modify
import PriceTime.Proofs.Book.Remove

/-!
# Trading against a queue

A trade goes along the queue of its price from the oldest order on. An order that is not larger than
what is unmatched is taken completely and leaves the book before the next one is looked at; a larger
one is left with the difference, and the trade is over.

* `Book.Matches`: what a trade does order by order.
* `Book.tradeAlong_spec`: the walk along a queue does that, whichever order it starts with.
* `Book.WellFormed.trade`: a trade of a well-formed book.
-/

namespace PriceTime

/-- Whoever takes at least all that remains fills the order. -/
theorem Order.fill_of_le {o : Order} {quantity : UInt32} (h : o.size ≤ quantity) :
    o.fill quantity = (o.size, { o with size := 0, filled := true }) := by
  have hmin : min quantity o.size = o.size := by
    show (if quantity ≤ o.size then quantity else o.size) = o.size
    split
    · rename_i hle
      exact UInt32.le_antisymm hle h
    · rfl
  simp [fill, hmin]

namespace Book

variable {b b' : Book} {key : LevelKey} {slot : Slot} {side : Side} {price : Int32} {o : Order}
  {remaining : UInt32} {events : List Event} {report : TradeReport}

/-! ## One order -/

/-- An order that is larger than what is unmatched gets smaller. -/
theorem tradePart_spec (h : b.WellFormed) (ho : b.card slot = some o) (hlevel : o.level = some key)
    (hsize : remaining < o.size) :
    Yields b.HasRoom (b.tradePart key slot remaining) fun b' =>
      b'.WellFormed ∧ b.Alters slot (fun o => { o with size := o.size - remaining }) o.side o.price
        (b.slotsAt o.side o.price) b' := by
  obtain ⟨members, hstands⟩ := h.stands
  have hkey := hstands.shelved.levelKey?_iff.mpr (hstands.places.labelled ho hlevel)
  obtain ⟨p, hp, rfl⟩ := Queues.get?_of_card ho
  obtain ⟨l, hl, -⟩ := hstands.level?_of_key hkey
  have heq : b.tradePart key slot remaining = l.reduce remaining >>= fun l' => .ok { b with
      queues := ⟨b.queues.orders.modify slot fun o => { o with size := o.size - remaining },
        b.queues.levels.set key l'⟩ } := by
    rw [tradePart, onQueues_eq, Queues.update_reduce_eq hp hl, bind_assoc]
    rfl
  rw [heq]
  refine (hstands.shrink ho hlevel hl (fun o => { o with size := o.size - remaining })
    (fun _ => ⟨rfl, rfl, rfl⟩) (fun _ => ⟨rfl, rfl, rfl⟩) ?_).mono ?_
  · intro p' hp'
    have hle : remaining ≤ p'.size := by
      rw [show p'.size = p.bare.size by rw [← hp']; rfl]
      exact UInt32.le_of_lt hsize
    show (p'.size - remaining).toNat + remaining.toNat = p'.size.toNat
    rw [UInt32.toNat_sub_of_le _ _ hle]
    have := UInt32.le_iff_toNat_le.mp hle
    omega
  · rintro b' ⟨hstands', halters⟩
    refine ⟨?_, halters⟩
    exact h.of_alters hstands' ho halters (h.nonempty hkey) rfl rfl rfl

theorem tradeWhole_eq {l : Level} (ho : b.queues.orders.get? slot = some o)
    (hl : b.queues.levels.get? key = some l) (hsize : o.size ≤ remaining) (side : Side) (id : UInt64) :
    b.tradeWhole side key slot id remaining =
      (l.reduce o.size >>= fun l' => .ok { b with
        queues := ⟨b.queues.orders.modify slot fun o => (o.fill remaining).2,
          b.queues.levels.set key l'⟩ }) >>= fun b' =>
      b'.takeOut slot id (fun _ => side) >>= fun r => .ok (o.size, r.2.1, r.2.2) := by
  have hqueues := Queues.fill_reduce_eq ho hl remaining
  rw [Order.fill_of_le hsize] at hqueues
  show (b.fromQueues fun q => q.fill slot remaining >>= fun r =>
    r.2.reduce key r.1 >>= fun q => .ok (r.1, q)) >>= _ = _
  rw [fromQueues_eq, hqueues]
  cases l.reduce o.size with
  | error fault => rfl
  | ok l' =>
    simp only [ok_bind, takeOut, bind_assoc]
    rfl

/-- An order that changes in place and is then taken out is taken out. -/
theorem Alters.removed {b'' : Book} {f : Order → Order}
    (halters : b.Alters slot f o.side o.price (b.slotsAt o.side o.price) b')
    (hremoved : b'.Removed slot (f o) key b'' events) (hside : (f o).side = o.side)
    (hprice : (f o).price = o.price) : b.Removed slot o key b'' events := by
  obtain ⟨hcard, hslots, hkeys, horders, hlevels, hevents⟩ := hremoved
  rw [hside, hprice] at hslots hkeys hlevels hevents
  simp only [halters.slotsAt_kept] at hslots hkeys hlevels hevents
  refine ⟨?_, hslots, ?_, ?_, ?_, hevents⟩
  · intro s
    rw [hcard, halters.card_eq]
    split <;> rfl
  · intro s p
    rw [hkeys, halters.levelKey?_eq]
  · exact (halters.orders_room.vacate slot).trans horders
  · refine Arena.SameRoom.trans ?_ hlevels
    split
    · exact halters.levels_room.vacate key
    · exact halters.levels_room

/-- An order that is not larger than what is unmatched leaves the book. -/
theorem tradeWhole_spec (h : b.WellFormed) (ho : b.card slot = some o) (hlevel : o.level = some key)
    (hsize : o.size ≤ remaining) :
    Yields b.HasRoom (b.tradeWhole o.side key slot o.id remaining) fun r =>
      r.1 = o.size ∧ r.2.1.WellFormed ∧ b.Removed slot o key r.2.1 r.2.2 := by
  obtain ⟨members, hstands⟩ := h.stands
  have hkey := hstands.shelved.levelKey?_iff.mpr (hstands.places.labelled ho hlevel)
  obtain ⟨p, hp, rfl⟩ := Queues.get?_of_card ho
  obtain ⟨l, hl, -⟩ := hstands.level?_of_key hkey
  rw [tradeWhole_eq hp hl hsize]
  refine (hstands.shrink ho hlevel hl (fun o => (o.fill remaining).2)
    (fun _ => ⟨rfl, rfl, rfl⟩) (fun _ => ⟨rfl, rfl, rfl⟩) ?_).bind ?_
  · intro p' hp'
    have hsame : p'.size = p.size := by
      rw [show p'.size = p'.bare.size from rfl, hp']
      rfl
    rw [Order.fill_of_le (hsame ▸ hsize : p'.size ≤ remaining), hsame]
    exact Nat.zero_add _
  rintro b₁ ⟨hstands₁, halters⟩
  have hb₁ : b₁.WellFormed := h.of_alters hstands₁ ho halters (h.nonempty hkey) rfl rfl rfl
  have ho₁ : b₁.card slot = some (p.bare.fill remaining).2 := by
    rw [halters.card_of ho, if_pos rfl]
  refine ((hb₁.takeOut ho₁ hlevel rfl).of_room halters.hasRoom).bind ?_
  rintro ⟨order, b₂, events⟩ ⟨-, hb₂, hremoved⟩
  exact Yields.ok ⟨rfl, hb₂, halters.removed hremoved rfl rfl⟩

/-! ## One order after the other -/

/-- What a trade does to the queue at a price of a side, order by order. -/
inductive Matches (side : Side) (price : Int32) :
    Book → TradeReport → Book → TradeReport → List Event → Prop where
  /-- Nothing is left to be matched. -/
  | spent {b : Book} {report : TradeReport} (hspent : report.unmatched = 0) :
      Matches side price b report b report []
  /-- No order is left at the price. -/
  | exhausted {b : Book} {report : TradeReport} (hslots : b.slotsAt side price = []) :
      Matches side price b report b report []
  /-- The oldest order is larger than what is unmatched. -/
  | part {b b' : Book} {report : TradeReport} {slot : Slot} {o : Order}
      (hhead : (b.slotsAt side price).head? = some slot) (ho : b.card slot = some o)
      (hopen : report.unmatched ≠ 0) (hsize : report.unmatched < o.size)
      (halters : b.Alters slot (fun o => { o with size := o.size - report.unmatched }) side price
        (b.slotsAt side price) b') :
      Matches side price b report b' { report with
        traded := report.traded + report.unmatched
        unmatched := 0
        reduced := report.reduced + 1 } []
  /-- The oldest order is taken completely. -/
  | whole {b b₁ b' : Book} {report report' : TradeReport} {slot : Slot} {o : Order}
      {key : LevelKey} {events more : List Event}
      (hhead : (b.slotsAt side price).head? = some slot) (ho : b.card slot = some o)
      (hlevel : o.level = some key) (hopen : report.unmatched ≠ 0)
      (hsize : o.size ≤ report.unmatched) (hremoved : b.Removed slot o key b₁ events)
      (hb₁ : b₁.WellFormed)
      (hrest : Matches side price b₁ { report with
        traded := report.traded + o.size
        unmatched := report.unmatched - o.size
        filled := report.filled + 1 } b' report' more) :
      Matches side price b report b' report' (events ++ more)

theorem Matches.size_le {report report' : TradeReport} {more : List Event}
    (hmatches : Matches side price b report b' report' more) (h : b.WellFormed) :
    b'.queues.orders.size ≤ b.queues.orders.size := by
  induction hmatches with
  | spent => exact Nat.le_refl _
  | exhausted => exact Nat.le_refl _
  | part _ _ _ _ halters => exact Nat.le_of_eq halters.orders_room.size_eq
  | whole _ ho _ _ _ hremoved hb₁ _ ih =>
    have := hremoved.size_eq h hb₁ ho
    have := ih hb₁
    omega

/-- A trade makes no queue longer. -/
theorem Matches.length_slotsAt_le {report report' : TradeReport} {more : List Event}
    (hmatches : Matches side price b report b' report' more) (s : Side) (p : Int32) :
    (b'.slotsAt s p).length ≤ (b.slotsAt s p).length := by
  induction hmatches with
  | spent => exact Nat.le_refl _
  | exhausted => exact Nat.le_refl _
  | part _ _ _ _ halters => exact halters.length_slotsAt_le (Nat.le_refl _) s p
  | whole _ _ _ _ _ hremoved _ _ ih => exact ih.trans (hremoved.length_slotsAt_le s p)

theorem tradeAlong_succ (side : Side) (key : LevelKey) (turns : Nat) (slot : Slot) (report : TradeReport)
    (ho : b.queues.orders.get? slot = some o) (events : List Event) :
    tradeAlong side key (turns + 1) (some slot) report b events =
      if report.unmatched = 0 then .ok (report, b, events)
      else if report.unmatched < o.size then
        b.tradePart key slot report.unmatched >>= fun b' => .ok ({ report with
          traded := report.traded + report.unmatched
          unmatched := 0
          reduced := report.reduced + 1 }, b', events)
      else
        b.tradeWhole side key slot o.id report.unmatched >>= fun r =>
          tradeAlong side key turns o.next { report with
            traded := report.traded + r.1
            unmatched := report.unmatched - r.1
            filled := report.filled + 1 } r.2.1 (events ++ r.2.2) := by
  rw [tradeAlong, Pool.fetch_eq ho]
  rfl

/-- The turn of the oldest order of a queue. -/
theorem WellFormed.tradeAlong_cons {slots : List Slot} (h : b.WellFormed)
    (hslots : b.slotsAt side price = slot :: slots) (hkey : b.levelKey? side price = some key) :
    ∃ o, b.card slot = some o ∧ o.side = side ∧ o.price = price ∧ o.level = some key ∧
      ∀ turns report events, tradeAlong side key (turns + 1) (some slot) report b events =
        if report.unmatched = 0 then .ok (report, b, events)
        else if report.unmatched < o.size then
          b.tradePart key slot report.unmatched >>= fun b' => .ok ({ report with
            traded := report.traded + report.unmatched
            unmatched := 0
            reduced := report.reduced + 1 }, b', events)
        else
          b.tradeWhole side key slot o.id report.unmatched >>= fun r =>
            tradeAlong side key turns slots.head? { report with
              traded := report.traded + r.1
              unmatched := report.unmatched - r.1
              filled := report.filled + 1 } r.2.1 (events ++ r.2.2) := by
  obtain ⟨o, ho, rfl, rfl⟩ := h.mem_slotsAt.mp (hslots ▸ List.mem_cons_self ..)
  obtain ⟨key', hlevel, hkey'⟩ := h.level_eq ho
  obtain rfl : key' = key := Option.some.inj (hkey'.symm.trans hkey)
  obtain ⟨p, hp, rfl⟩ := Queues.get?_of_card ho
  have hnext : p.next = slots.head? := by
    obtain ⟨p', hp', -, hnext⟩ := Pool.links_eq_some.mp (h.links_eq [] slots hslots)
    rw [hp] at hp'
    cases hp'
    exact hnext
  refine ⟨p.bare, ho, rfl, rfl, hlevel, ?_⟩
  intro turns report events
  rw [tradeAlong_succ _ key' turns slot report hp, hnext]
  rfl

/-- What is left of the queue and of its level when the oldest order leaves. -/
theorem Removed.of_oldest {slots : List Slot} (hremoved : b.Removed slot o key b' events)
    (hslots : b.slotsAt o.side o.price = slot :: slots)
    (hkey : b.levelKey? o.side o.price = some key) :
    b'.slotsAt o.side o.price = slots ∧
      (slots ≠ [] → b'.levelKey? o.side o.price = some key) := by
  refine ⟨?_, ?_⟩
  · rw [hremoved.slotsAt_eq, if_pos ⟨rfl, rfl⟩, hslots, List.erase_cons_head]
  · intro hrest
    rw [hremoved.levelKey?_eq, if_neg, hkey]
    rintro ⟨-, -, hlast⟩
    rw [hslots] at hlast
    exact hrest (List.cons.inj hlast).2

/-- From the oldest order of a queue on, with a turn more than there are orders. -/
theorem tradeAlong_spec {slots : List Slot} (h : b.WellFormed)
    (hslots : b.slotsAt side price = slots)
    (hkey : slots ≠ [] → b.levelKey? side price = some key) {turns : Nat}
    (hturns : slots.length < turns) :
    Yields b.HasRoom (tradeAlong side key turns slots.head? report b events)
      fun r => r.2.1.WellFormed ∧
        ∃ more, r.2.2 = events ++ more ∧ Matches side price b report r.2.1 r.1 more := by
  -- The queue is what shrinks; the turns only have to outlast it.
  induction slots generalizing b turns report events with
  | nil =>
    obtain ⟨turns, rfl⟩ : ∃ n, turns = n + 1 := ⟨turns - 1, by simp at hturns; omega⟩
    exact Yields.ok ⟨h, [], (List.append_nil _).symm, .exhausted hslots⟩
  | cons slot rest ih =>
    obtain ⟨turns, rfl⟩ : ∃ n, turns = n + 1 := ⟨turns - 1, by simp at hturns; omega⟩
    have hkey := hkey (List.cons_ne_nil _ _)
    obtain ⟨o, ho, rfl, rfl, hlevel, hturn⟩ := h.tradeAlong_cons hslots hkey
    have hhead : (b.slotsAt o.side o.price).head? = some slot := by rw [hslots]; rfl
    rw [List.head?_cons, hturn]
    split
    · rename_i hspent
      exact Yields.ok ⟨h, [], (List.append_nil _).symm, .spent hspent⟩
    rename_i hopen
    split
    · rename_i hlarger
      refine (tradePart_spec h ho hlevel hlarger).bind ?_
      rintro b' ⟨hb', halters⟩
      exact Yields.ok ⟨hb', [], (List.append_nil _).symm, .part hhead ho hopen hlarger halters⟩
    · rename_i hnot
      have hle : o.size ≤ report.unmatched := UInt32.not_lt.mp hnot
      refine (tradeWhole_spec h ho hlevel hle).bind ?_
      rintro ⟨taken, b₁, released⟩ ⟨htaken, hb₁, hremoved⟩
      dsimp only at htaken hb₁ hremoved ⊢
      subst htaken
      obtain ⟨hslots₁, hkey₁⟩ := hremoved.of_oldest hslots hkey
      refine ((ih hb₁ hslots₁ hkey₁ (Nat.lt_of_succ_lt_succ hturns)).of_room
        (hremoved.hasRoom h hb₁ ho)).mono ?_
      rintro r ⟨hb', more, hmore, hmatches⟩
      refine ⟨hb', released ++ more, ?_, .whole hhead ho hlevel hopen hle hremoved hb₁ hmatches⟩
      rw [hmore, List.append_assoc]

/-! ## A trade -/

/-- What a trade at a price can do to a book: its report, the book afterwards and the events. -/
inductive Traded (b : Book) (id : UInt64) (price : Int32) (size : UInt32) (side : Side) :
    TradeReport → Book → List Event → Prop where
  /-- No order rests at the price on the other side. -/
  | missed (hslots : b.slotsAt side.opposite price = []) :
      Traded b id price size side { aggressor := id, unmatched := size } b
        [.tradeFindsNoLevel price side.opposite]
  /-- The orders at the price on the other side are matched. -/
  | met {b' : Book} {report : TradeReport} {events : List Event}
      (hslots : b.slotsAt side.opposite price ≠ [])
      (hmatches : Matches side.opposite price b { aggressor := id, unmatched := size } b' report
        events) :
      Traded b id price size side report b' events

theorem Traded.size_le {id : UInt64} {size : UInt32} {report : TradeReport}
    (htraded : b.Traded id price size side report b' events)
    (h : b.WellFormed) : b'.queues.orders.size ≤ b.queues.orders.size := by
  cases htraded with
  | missed => exact Nat.le_refl _
  | met _ hmatches => exact hmatches.size_le h

theorem Traded.length_slotsAt_le {id : UInt64} {size : UInt32} {report : TradeReport}
    (htraded : b.Traded id price size side report b' events) (s : Side) (p : Int32) :
    (b'.slotsAt s p).length ≤ (b.slotsAt s p).length := by
  cases htraded with
  | missed => exact Nat.le_refl _
  | met _ hmatches => exact hmatches.length_slotsAt_le s p

/-- After a trade there is room still. -/
theorem Traded.hasRoom {id : UInt64} {size : UInt32} {report : TradeReport}
    (htraded : b.Traded id price size side report b' events) (h : b.WellFormed)
    (hroom : b.HasRoom) : b'.HasRoom :=
  hroom.of_le (htraded.size_le h) htraded.length_slotsAt_le

theorem WellFormed.trade (h : b.WellFormed) (id : UInt64) (price : Int32) (size : UInt32)
    (side : Side) :
    Yields b.HasRoom (b.trade id price size side) fun r =>
      r.2.1.WellFormed ∧ b.Traded id price size side r.1 r.2.1 r.2.2 := by
  cases hkey : b.levelKey? side.opposite price with
  | none =>
    have heq : b.trade id price size side = .ok ({ aggressor := id, unmatched := size }, b,
        [.tradeFindsNoLevel price side.opposite]) := by
      simp only [Book.trade, hkey]
      rfl
    rw [heq]
    exact Yields.ok ⟨h, .missed (h.levelKey?_eq_none_iff.mp hkey)⟩
  | some key =>
    obtain ⟨members, hstands⟩ := h.stands
    obtain ⟨l, hl, -⟩ := hstands.level?_of_key hkey
    have hhead : l.head = (b.slotsAt side.opposite price).head? := by
      rw [hstands.slotsAt_of_key hkey]
      exact (hstands.places.represents hl).head_eq
    have heq : b.trade id price size side =
        tradeAlong side.opposite key (b.queues.orders.size + 1)
          (b.slotsAt side.opposite price).head?
          { aggressor := id, unmatched := size } b [] := by
      simp only [Book.trade, hkey, Queues.fetchLevel_eq hl, ok_bind, hhead]
    rw [heq]
    have hturns : (b.slotsAt side.opposite price).length < b.queues.orders.size + 1 :=
      Nat.lt_succ_of_le (h.length_slotsAt_le ..)
    refine (tradeAlong_spec h rfl (fun _ => hkey) hturns).mono ?_
    rintro ⟨report, b', events⟩ ⟨hb', more, rfl, hmatches⟩
    exact ⟨hb', .met (h.nonempty hkey) hmatches⟩

end Book

end PriceTime
