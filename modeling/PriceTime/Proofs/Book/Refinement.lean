import PriceTime.Proofs.PlainBook

/-!
# Books stand for plain books

Reading the queues of a well-formed book off its levels gives a plain book, and what an operation
does to the book is what the plain operation does to the plain book.

* `Book.WellFormed.plain_add`, `Book.WellFormed.plain_remove`, `Book.WellFormed.plain_modify`,
`Book.WellFormed.plain_trade`: one operation, here and there.
-/

namespace PriceTime

namespace Book

variable {b b' : Book} {key key' : LevelKey} {slot : Slot} {slots : List Slot} {id : UInt64}
  {side : Side} {price : Int32} {size : UInt32} {time : UInt64} {o : Order} {events : List Event}

/-! ## Reading a plain book -/

/-- What the orders in some slots look like in a queue. -/
def entriesIn (b : Book) (slots : List Slot) : List Entry :=
  slots.filterMap fun slot => (b.card slot).map Order.entry

theorem entriesIn_cons (ho : b.card slot = some o) :
    b.entriesIn (slot :: slots) = o.entry :: b.entriesIn slots := by
  simp [entriesIn, ho]

theorem entriesIn_append (slots rest : List Slot) :
    b.entriesIn (slots ++ rest) = b.entriesIn slots ++ b.entriesIn rest :=
  List.filterMap_append

/-- Slots that were not touched look the same. -/
theorem entriesIn_congr (hcard : ∀ s, s ≠ slot → b'.card s = b.card s) (hslot : slot ∉ slots) :
    b'.entriesIn slots = b.entriesIn slots := by
  refine List.filterMap_congr fun s hs => ?_
  rw [hcard s fun heq => hslot (heq ▸ hs)]

theorem place_plain_none (hid : b.index[id]? = none) : b.plain.place id = none := by
  show (b.index[id]?.bind _).map _ = none
  rw [hid]
  rfl

theorem find?_plain_none (hid : b.index[id]? = none) : b.plain.find? id = none := by
  unfold PlainBook.find?
  rw [place_plain_none hid]
  rfl

namespace WellFormed

theorem queue_plain (h : b.WellFormed) (side : Side) (price : Int32) :
    b.plain.queue side price = b.entriesIn (b.slotsAt side price) := by
  obtain ⟨members, hstands⟩ := h.stands
  unfold plain
  dsimp only
  cases hkey : b.levelKey? side price with
  | none =>
    rw [Stands.slotsAt_of_none hkey, level?, hkey]
    rfl
  | some key =>
    obtain ⟨l, hl, -, hlevel⟩ := hstands.level?_of_key hkey
    have horders : b.ordersOf l = b.queues.orders.entries (members key) :=
      (hstands.places.represents hl).orders_eq hstands.places.orders_tidy
    rw [hlevel, hstands.slotsAt_of_key hkey]
    dsimp only
    rw [horders]
    unfold Pool.entries entriesIn card Queues.card
    rw [List.map_filterMap]
    refine List.filterMap_congr fun s _ => ?_
    cases b.queues.orders.get? s <;> rfl

theorem place_eq_some (h : b.WellFormed) : b.plain.place id = some (side, price) ↔
    ∃ slot o, b.card slot = some o ∧ o.id = id ∧ o.side = side ∧ o.price = price := by
  unfold plain get?
  dsimp only
  constructor
  · intro hplace
    obtain ⟨p, hp, heq⟩ := Option.map_eq_some_iff.mp hplace
    obtain ⟨slot, hslot, hp⟩ := Option.bind_eq_some_iff.mp hp
    obtain ⟨o, ho, hid⟩ := h.index_iff.mp hslot
    rw [Queues.card_eq hp |> (show b.card slot = _ from ·)] at ho
    cases ho
    cases heq
    exact ⟨slot, p.bare, Queues.card_eq hp, hid, rfl, rfl⟩
  · rintro ⟨slot, o, ho, rfl, rfl, rfl⟩
    obtain ⟨p, hp, rfl⟩ := Queues.get?_of_card ho
    rw [h.index_iff.mpr ⟨p.bare, ho, rfl⟩, Option.bind_some, hp]
    rfl

theorem place_of_card (h : b.WellFormed) (ho : b.card slot = some o) :
    b.plain.place o.id = some (o.side, o.price) :=
  h.place_eq_some.mpr ⟨slot, o, ho, rfl, rfl, rfl⟩

/-- A change of one order does not move the others. -/
theorem place_congr {i : UInt64} (h : b.WellFormed) (h' : b'.WellFormed)
    (hcard : ∀ s, s ≠ slot → b'.card s = b.card s) (hold : ∀ o, b.card slot = some o → o.id ≠ i)
    (hnew : ∀ o, b'.card slot = some o → o.id ≠ i) : b'.plain.place i = b.plain.place i := by
  refine Option.ext fun ⟨side, price⟩ => ?_
  rw [h.place_eq_some, h'.place_eq_some]
  constructor
  · rintro ⟨s, o, ho, hid, hplace⟩
    have hs : s ≠ slot := fun heq => hnew o (heq ▸ ho) hid
    exact ⟨s, o, hcard s hs ▸ ho, hid, hplace⟩
  · rintro ⟨s, o, ho, hid, hplace⟩
    have hs : s ≠ slot := fun heq => hold o (heq ▸ ho) hid
    exact ⟨s, o, (hcard s hs).trans ho, hid, hplace⟩

/-- An order is found in its queue by its id. -/
theorem find?_entriesIn (h : b.WellFormed) (ho : b.card slot = some o) (hslot : slot ∈ slots) :
    (b.entriesIn slots).find? (fun entry => entry.id == o.id) = some o.entry := by
  induction slots with
  | nil => cases hslot
  | cons s rest ih =>
    by_cases hs : s = slot
    · subst hs
      rw [entriesIn_cons ho, List.find?_cons_of_pos]
      exact beq_self_eq_true o.id
    · have hrest := ih ((List.mem_cons.mp hslot).resolve_left (Ne.symm hs))
      cases hcard : b.card s with
      | none =>
        rw [← hrest]
        simp [entriesIn, hcard]
      | some p =>
        have hid : ¬ p.entry.id == o.id := fun heq =>
          hs (h.slot_unique hcard ho (eq_of_beq heq))
        rw [entriesIn_cons hcard,
          List.find?_cons_of_neg (p := fun entry : Entry => entry.id == o.id) hid,
          hrest]

/-- An order is taken out of its queue by its id. -/
theorem entriesIn_erase (h : b.WellFormed) (ho : b.card slot = some o) (slots : List Slot) :
    b.entriesIn (slots.erase slot) = (b.entriesIn slots).eraseP fun entry => entry.id == o.id := by
  induction slots with
  | nil => rfl
  | cons s rest ih =>
    by_cases hs : s = slot
    · subst hs
      rw [List.erase_cons_head, entriesIn_cons ho, List.eraseP_cons_of_pos]
      exact beq_self_eq_true o.id
    · rw [List.erase_cons_tail (by simpa using hs)]
      cases hcard : b.card s with
      | none =>
        have hskip : ∀ slots, b.entriesIn (s :: slots) = b.entriesIn slots := by
          intro slots
          simp [entriesIn, hcard]
        rw [hskip, hskip, ih]
      | some p =>
        have hid : ¬ p.entry.id == o.id := fun heq =>
          hs (h.slot_unique hcard ho (eq_of_beq heq))
        rw [entriesIn_cons hcard, entriesIn_cons hcard,
          List.eraseP_cons_of_neg (p := fun entry : Entry => entry.id == o.id) hid, ih]

theorem find?_plain (h : b.WellFormed) (ho : b.card slot = some o) :
    b.plain.find? o.id = some (o.side, o.price, o.entry) := by
  have hslot : slot ∈ b.slotsAt o.side o.price := h.mem_slotsAt.mpr ⟨o, ho, rfl, rfl⟩
  unfold PlainBook.find?
  rw [h.place_of_card ho, Option.bind_some]
  dsimp only
  rw [h.queue_plain, h.find?_entriesIn ho hslot]
  rfl

/-- Orders wait nowhere but at their own side and price. -/
theorem not_mem_slotsAt (h : b.WellFormed) (ho : b.card slot = some o)
    (hplace : ¬ (side = o.side ∧ price = o.price)) : slot ∉ b.slotsAt side price := by
  intro hs
  obtain ⟨rfl, rfl⟩ := h.place_eq hs ho
  exact hplace ⟨rfl, rfl⟩

theorem erase_slotsAt (h : b.WellFormed) (ho : b.card slot = some o)
    (hplace : ¬ (side = o.side ∧ price = o.price)) :
    (b.slotsAt side price).erase slot = b.slotsAt side price :=
  List.erase_of_not_mem (h.not_mem_slotsAt ho hplace)

end WellFormed

theorem plain_empty : Book.empty.plain = PlainBook.empty := by
  refine PlainBook.ext ?_ ?_
  · funext side price
    cases side <;> simp [plain, PlainBook.empty, level?, levelKey?, half, Book.empty, HalfBook.empty]
  · funext id
    simp [plain, PlainBook.empty, get?, Book.empty]

/-! ## One change, here and there -/

/-- An order comes in at the end of a queue. -/
theorem Added.plain_eq (hadded : b.Added o b' events) (h : b.WellFormed) (h' : b'.WellFormed) :
    b'.plain = b.plain.enqueue o.side o.price o.entry := by
  have hother : ∀ s, s ≠ b.queues.orders.nextKey → b'.card s = b.card s :=
    fun s hs => (hadded.card_eq s).trans (if_neg hs)
  have hnew : b'.card b.queues.orders.nextKey =
      some { o with level := some (b.keyFor o.side o.price) } :=
    (hadded.card_eq _).trans (if_pos rfl)
  have hfresh := nextKey_notMem_slotsAt h
  refine PlainBook.ext ?_ ?_
  · funext s p
    rw [h'.queue_plain, hadded.slotsAt_eq]
    simp only [PlainBook.enqueue, PlainBook.setPlace, PlainBook.setQueue, h.queue_plain]
    split
    · rename_i hsp
      rw [entriesIn_append, entriesIn_congr hother (hfresh s p), entriesIn_cons hnew, hsp.1, hsp.2]
      rfl
    · exact entriesIn_congr hother (hfresh s p)
  · funext i
    simp only [PlainBook.enqueue, PlainBook.setPlace, PlainBook.setQueue]
    split
    · rename_i hi
      have hplace := h'.place_of_card hnew
      rw [hi]
      exact hplace
    · rename_i hi
      refine h.place_congr h' hother ?_ ?_
      · intro p hp
        rw [card_nextKey h] at hp
        cases hp
      · intro p hp hid
        rw [hnew] at hp
        cases hp
        exact hi hid.symm

/-- An order leaves its queue. -/
theorem Removed.plain_eq (hremoved : b.Removed slot o key b' events) (h : b.WellFormed)
    (h' : b'.WellFormed) (ho : b.card slot = some o) :
    b'.plain = b.plain.dequeue o.side o.price o.id := by
  have hother : ∀ s, s ≠ slot → b'.card s = b.card s :=
    fun s hs => (hremoved.card_eq s).trans (if_neg hs)
  have hgone : b'.card slot = none := (hremoved.card_eq _).trans (if_pos rfl)
  refine PlainBook.ext ?_ ?_
  · funext s p
    rw [h'.queue_plain, hremoved.slotsAt_eq]
    simp only [PlainBook.dequeue, PlainBook.setPlace, PlainBook.setQueue, h.queue_plain]
    split
    · rename_i hsp
      rw [entriesIn_congr hother ((h.nodup_slotsAt s p).not_mem_erase), h.entriesIn_erase ho,
        hsp.1, hsp.2]
    · rename_i hsp
      exact entriesIn_congr hother (h.not_mem_slotsAt ho hsp)
  · funext i
    simp only [PlainBook.dequeue, PlainBook.setPlace, PlainBook.setQueue]
    split
    · rename_i hi
      refine place_plain_none (h'.index_eq_none_iff.mpr fun s p hp hid => ?_)
      by_cases hs : s = slot
      · rw [hs, hgone] at hp
        cases hp
      · rw [hother s hs] at hp
        exact hs (h.slot_unique hp ho (hid.trans hi))
    · rename_i hi
      refine h.place_congr h' hother ?_ ?_
      · intro p hp hid
        rw [ho] at hp
        cases hp
        exact hi hid.symm
      · intro p hp
        rw [hgone] at hp
        cases hp

/-- An order leaves its queue and comes in again at the end of one. -/
theorem WellFormed.plain_moved {o' : Order} (h : b.WellFormed) (h' : b'.WellFormed)
    (ho : b.card slot = some o) (hcard : ∀ s, b'.card s = if s = slot then some o' else b.card s)
    (hid : o'.id = o.id) (hslots : ∀ s p, b'.slotsAt s p =
      if s = o'.side ∧ p = o'.price then (b.slotsAt s p).erase slot ++ [slot]
      else (b.slotsAt s p).erase slot) :
    b'.plain = (b.plain.dequeue o.side o.price o.id).enqueue o'.side o'.price o'.entry := by
  have hother : ∀ s, s ≠ slot → b'.card s = b.card s := fun s hs => (hcard s).trans (if_neg hs)
  have hnew : b'.card slot = some o' := (hcard _).trans (if_pos rfl)
  have hrest : ∀ s p, b'.entriesIn ((b.slotsAt s p).erase slot) =
      (b.plain.dequeue o.side o.price o.id).queue s p := by
    intro s p
    simp only [PlainBook.dequeue, PlainBook.setPlace, PlainBook.setQueue, h.queue_plain]
    rw [entriesIn_congr hother ((h.nodup_slotsAt s p).not_mem_erase)]
    split
    · rename_i hsp
      rw [h.entriesIn_erase ho, hsp.1, hsp.2]
    · rename_i hsp
      rw [h.erase_slotsAt ho hsp]
  refine PlainBook.ext ?_ ?_
  · funext s p
    rw [h'.queue_plain, hslots]
    simp only [PlainBook.enqueue, PlainBook.setPlace, PlainBook.setQueue]
    split
    · rename_i hsp
      rw [entriesIn_append, hrest, entriesIn_cons hnew, hsp.1, hsp.2]
      rfl
    · exact hrest s p
  · funext i
    have hplace := h'.place_of_card hnew
    simp only [PlainBook.enqueue, PlainBook.dequeue, PlainBook.setPlace, PlainBook.setQueue]
    split
    · rename_i hi
      rw [hi]
      exact hplace
    · rename_i hi
      have hi' : o.id ≠ i := fun heq => hi (heq.symm.trans hid.symm)
      rw [if_neg hi'.symm]
      refine h.place_congr h' hother ?_ ?_
      · intro p hp
        rw [ho] at hp
        cases hp
        exact hi'
      · intro p hp
        rw [hnew] at hp
        cases hp
        exact fun heq => hi heq.symm

/-- An order changes where it stands. -/
theorem WellFormed.plain_kept {o' : Order} (h : b.WellFormed) (h' : b'.WellFormed)
    (ho : b.card slot = some o) (hcard : ∀ s, b'.card s = if s = slot then some o' else b.card s)
    (hid : o'.id = o.id) (hside : o'.side = o.side) (hprice : o'.price = o.price)
    (hslots : ∀ s p, b'.slotsAt s p = b.slotsAt s p) :
    b'.plain = b.plain.setQueue o.side o.price (b'.entriesIn (b.slotsAt o.side o.price)) := by
  have hother : ∀ s, s ≠ slot → b'.card s = b.card s := fun s hs => (hcard s).trans (if_neg hs)
  have hnew : b'.card slot = some o' := (hcard _).trans (if_pos rfl)
  refine PlainBook.ext ?_ ?_
  · funext s p
    rw [h'.queue_plain, hslots]
    simp only [PlainBook.setQueue, h.queue_plain]
    split
    · rename_i hsp
      rw [hsp.1, hsp.2]
    · rename_i hsp
      exact entriesIn_congr hother (h.not_mem_slotsAt ho hsp)
  · funext i
    simp only [PlainBook.setQueue]
    by_cases hi : i = o.id
    · have hplace := h'.place_of_card hnew
      rw [hid, hside, hprice] at hplace
      rw [hi, hplace, h.place_of_card ho]
    · refine h.place_congr h' hother ?_ ?_
      · intro p hp heq
        rw [ho] at hp
        cases hp
        exact hi heq.symm
      · intro p hp heq
        rw [hnew] at hp
        cases hp
        exact hi (heq.symm.trans hid)

/-- What an order that changes where it stands looks like in its queue. -/
theorem WellFormed.entriesIn_kept {o' : Order} (h : b.WellFormed) (ho : b.card slot = some o)
    (hcard : ∀ s, b'.card s = if s = slot then some o' else b.card s) (g : Entry → Entry)
    (hg : o'.entry = g o.entry) (slots : List Slot) :
    b'.entriesIn slots =
      (b.entriesIn slots).map fun entry => if entry.id = o.id then g entry else entry := by
  unfold entriesIn
  rw [List.map_filterMap]
  refine List.filterMap_congr fun s _ => ?_
  rw [hcard]
  split
  · rename_i hs
    rw [hs, ho]
    show some o'.entry = some (if o.entry.id = o.id then g o.entry else o.entry)
    rw [if_pos (show o.entry.id = o.id from rfl), hg]
  · rename_i hs
    cases hp : b.card s with
    | none => rfl
    | some p =>
      have hid : p.entry.id ≠ o.id := fun heq => hs (h.slot_unique hp ho heq)
      show some p.entry = some (if p.entry.id = o.id then g p.entry else p.entry)
      rw [if_neg hid]

theorem Repriced.plain_eq {key key' : LevelKey} (hrepriced :
      b.Repriced slot o key price size time key' b' events)
    (h : b.WellFormed) (h' : b'.WellFormed) (ho : b.card slot = some o) (hprice : o.price ≠ price) :
    b'.plain = (b.plain.dequeue o.side o.price o.id).enqueue o.side price
      { id := o.id, size, time } := by
  refine h.plain_moved h' ho hrepriced.card_eq rfl ?_
  intro s p
  rw [hrepriced.slotsAt_eq]
  show _ = if s = o.side ∧ p = price then _ else _
  split
  · rename_i hsp
    rw [h.erase_slotsAt ho fun hand => hprice (hand.2.symm.trans hsp.2)]
  · split
    · rfl
    · rename_i hsp
      rw [h.erase_slotsAt ho hsp]

theorem Alters.plain_requeued (halters : b.Alters slot (fun o => { o with size, time }) o.side
      o.price ((b.slotsAt o.side o.price).erase slot ++ [slot]) b')
    (h : b.WellFormed) (h' : b'.WellFormed) (ho : b.card slot = some o) :
    b'.plain = (b.plain.dequeue o.side o.price o.id).enqueue o.side o.price
      { id := o.id, size, time } := by
  refine h.plain_moved h' ho (halters.card_of ho) rfl ?_
  intro s p
  rw [halters.slotsAt_eq]
  show _ = if s = o.side ∧ p = o.price then _ else _
  split
  · rename_i hsp
    rw [hsp.1, hsp.2]
  · rename_i hsp
    rw [h.erase_slotsAt ho hsp]

theorem Alters.plain_resized (halters : b.Alters slot (fun o => { o with size }) o.side o.price
      (b.slotsAt o.side o.price) b')
    (h : b.WellFormed) (h' : b'.WellFormed) (ho : b.card slot = some o) :
    b'.plain = b.plain.setQueue o.side o.price ((b.plain.queue o.side o.price).map fun entry =>
      if entry.id = o.id then { entry with size } else entry) := by
  rw [h.plain_kept h' ho (halters.card_of ho) rfl rfl rfl halters.slotsAt_kept,
    h.entriesIn_kept ho (halters.card_of ho) (fun entry => { entry with size }) rfl, h.queue_plain]

/-! ## Operations, here and there -/

/-- What holds of a book between two calls: it is well formed and none of its orders is filled. -/
structure AtRest (b : Book) : Prop extends b.WellFormed where
  unfilled : ∀ {slot o}, b.card slot = some o → o.filled = false

namespace AtRest

theorem empty : Book.empty.AtRest where
  toWellFormed := WellFormed.empty
  unfilled h := by simp [card, Book.empty, Queues.card, Queues.empty] at h

/-- A change of one order leaves a book at rest when that order is not filled. -/
theorem of_card (h : b.AtRest) (h' : b'.WellFormed) (hcard : ∀ s, s ≠ slot → b'.card s = b.card s)
    (hslot : ∀ o, b'.card slot = some o → o.filled = false) : b'.AtRest where
  toWellFormed := h'
  unfilled := by
    intro s o ho
    by_cases hs : s = slot
    · exact hslot o (hs ▸ ho)
    · exact h.unfilled ((hcard s hs).symm.trans ho)

theorem of_revised {o' : Order} (h : b.AtRest) (h' : b'.WellFormed)
    (hcard : ∀ s, b'.card s = if s = slot then some o' else b.card s) (hfilled : o'.filled = false) :
    b'.AtRest := by
  refine h.of_card h' (fun s hs => (hcard s).trans (if_neg hs)) ?_
  intro o ho
  rw [hcard, if_pos rfl] at ho
  cases ho
  exact hfilled

theorem add (h : b.AtRest) {room : Prop} :
    Yields room (b.add id price size side time) fun step => step.state.AtRest ∧
      b.plain.add id price size side time = (step.result.map fun _ => (), step.state.plain) := by
  cases hnew : b.contains id with
  | true =>
    rw [add_of_contains hnew]
    refine Yields.ok ⟨h, ?_⟩
    have hid : ∃ slot, b.index[id]? = some slot := by
      rw [contains, Std.ExtTreeMap.contains_eq_isSome_getElem?] at hnew
      exact Option.isSome_iff_exists.mp hnew
    obtain ⟨slot, hslot⟩ := hid
    obtain ⟨o, ho, rfl⟩ := h.index_iff.mp hslot
    rw [PlainBook.add, h.place_of_card ho]
    rfl
  | false =>
    have hid : b.index[id]? = none := Std.ExtTreeMap.getElem?_eq_none_of_contains_eq_false hnew
    refine (h.toWellFormed.add hnew).mono ?_
    rintro ⟨result, b', events⟩ ⟨hresult, hb', hadded⟩
    dsimp only at hresult hb' hadded ⊢
    subst hresult
    refine ⟨h.of_revised hb' hadded.card_eq rfl, ?_⟩
    rw [PlainBook.add, place_plain_none hid, hadded.plain_eq h.toWellFormed hb']
    rfl

theorem card_unlinked (ho : b.card slot = some o) : o.prev = none ∧ o.next = none := by
  obtain ⟨p, -, rfl⟩ := Queues.get?_of_card ho
  exact ⟨rfl, rfl⟩

theorem remove (h : b.AtRest) :
    Yields b.HasRoom (b.remove id) fun step => step.state.AtRest ∧
      b.plain.remove id = (step.result, step.state.plain) := by
  cases hid : b.index[id]? with
  | none =>
    rw [remove_of_none hid]
    refine Yields.ok ⟨h, ?_⟩
    rw [PlainBook.remove, find?_plain_none hid]
  | some slot =>
    obtain ⟨o, ho, rfl⟩ := h.index_iff.mp hid
    obtain ⟨key, hlevel⟩ := h.settled ho
    refine (h.toWellFormed.remove hid ho hlevel).mono ?_
    rintro ⟨result, b', events⟩ ⟨hresult, hb', hremoved⟩
    dsimp only at hresult hb' hremoved ⊢
    subst hresult
    refine ⟨h.of_card hb' (fun s hs => (hremoved.card_eq s).trans (if_neg hs)) ?_, ?_⟩
    · intro p hp
      rw [hremoved.card_eq, if_pos rfl] at hp
      cases hp
    · rw [PlainBook.remove, h.find?_plain ho, hremoved.plain_eq h.toWellFormed hb' ho]
      have hfilled := h.unfilled ho
      obtain ⟨hprev, hnext⟩ := card_unlinked ho
      obtain ⟨_, _, _, _, _, _, _, _, _⟩ := o
      dsimp only at hfilled hprev hnext
      subst hfilled hprev hnext
      rfl

/-- A modify does what the plain modify does. -/
theorem of_modified {result : Except BookError ModifyOutcome} (h : b.AtRest) (h' : b'.WellFormed)
    (hmodified : b.Modified id price size side time result b' events) :
    b'.AtRest ∧ b.plain.modify id price size side time = (result, b'.plain) := by
  cases hmodified with
  | added hnew hadded =>
    refine ⟨h.of_revised h' hadded.card_eq rfl, ?_⟩
    rw [PlainBook.modify, find?_plain_none hnew, hadded.plain_eq h.toWellFormed h']
    rfl
  | rejected hid ho hside =>
    obtain rfl := h.id_eq hid ho
    refine ⟨h, ?_⟩
    rw [PlainBook.modify, h.find?_plain ho]
    dsimp only
    rw [if_pos hside]
  | repriced hid ho hlevel hside hprice hrepriced =>
    obtain rfl := h.id_eq hid ho
    subst hside
    refine ⟨h.of_revised h' hrepriced.card_eq (h.unfilled ho :), ?_⟩
    rw [PlainBook.modify, h.find?_plain ho]
    dsimp only
    rw [if_neg (not_not.mpr rfl), if_pos hprice, hrepriced.plain_eq h.toWellFormed h' ho hprice]
  | requeued hid ho hside hprice hsize halters =>
    obtain rfl := h.id_eq hid ho
    subst hside hprice
    refine ⟨h.of_revised h' (halters.card_of ho) (h.unfilled ho :), ?_⟩
    rw [PlainBook.modify, h.find?_plain ho]
    dsimp only
    rw [if_neg (not_not.mpr rfl), if_neg (not_not.mpr rfl),
      halters.plain_requeued h.toWellFormed h' ho]
    exact if_pos hsize
  | resized hid ho hside hprice hsize halters =>
    obtain rfl := h.id_eq hid ho
    subst hside hprice
    refine ⟨h.of_revised h' (halters.card_of ho) (h.unfilled ho :), ?_⟩
    rw [PlainBook.modify, h.find?_plain ho]
    dsimp only
    rw [if_neg (not_not.mpr rfl), if_neg (not_not.mpr rfl),
      halters.plain_resized h.toWellFormed h' ho]
    exact if_neg (UInt32.not_lt.mpr hsize)

theorem modify (h : b.AtRest) :
    Yields b.HasRoom (b.modify id price size side time)
      fun step => step.state.AtRest ∧
        b.plain.modify id price size side time = (step.result, step.state.plain) := by
  refine h.toWellFormed.modify.mono ?_
  rintro step ⟨hstep, hmodified⟩
  exact h.of_modified hstep hmodified

/-- Order by order a trade does what the plain trade does. -/
theorem of_matches {report report' : TradeReport} (h : b.AtRest) (h' : b'.WellFormed)
    (hmatches : Matches side price b report b' report' events) :
    b'.AtRest ∧ PlainBook.tradeAlong side price (b.plain.queue side price) report b.plain =
      (report', b'.plain) := by
  -- The derivation says what each turn took; the plain loop takes the same from the front.
  induction hmatches with
  | @spent b report hspent =>
    refine ⟨h, ?_⟩
    cases b.plain.queue side price with
    | nil => rfl
    | cons entry rest => rw [PlainBook.tradeAlong, if_pos hspent]
  | exhausted hslots =>
    refine ⟨h, ?_⟩
    rw [h.queue_plain, hslots]
    rfl
  | @part b b' report slot o hhead ho hopen hsize halters =>
    obtain ⟨rest, hslots⟩ := List.head?_eq_some_iff.mp hhead
    obtain ⟨rfl, rfl⟩ := h.place_eq (List.mem_of_head? hhead) ho
    have hnodup := h.nodup_slotsAt o.side o.price
    rw [hslots] at hnodup
    refine ⟨h.of_revised h' (halters.card_of ho) (h.unfilled ho :), ?_⟩
    have hkept := h.plain_kept h' ho (halters.card_of ho) rfl rfl rfl halters.slotsAt_kept
    have hnew : b'.card slot = some { o with size := o.size - report.unmatched } := by
      rw [halters.card_of ho, if_pos rfl]
    have hrest : b'.entriesIn rest = b.entriesIn rest :=
      entriesIn_congr (fun s hs => (halters.card_of ho s).trans (if_neg hs))
        (List.nodup_cons.mp hnodup).1
    rw [hkept, h.queue_plain, hslots, entriesIn_cons ho, entriesIn_cons hnew, hrest,
      PlainBook.tradeAlong, if_neg hopen, if_pos (show report.unmatched < o.entry.size from hsize)]
    rfl
  | @whole b b₁ b' report report' slot o key events more hhead ho hlevel hopen hsize hremoved hb₁
      hrest ih =>
    obtain ⟨rest, hslots⟩ := List.head?_eq_some_iff.mp hhead
    obtain ⟨rfl, rfl⟩ := h.place_eq (List.mem_of_head? hhead) ho
    have h₁ : b₁.AtRest := by
      refine h.of_card hb₁ (fun s hs => (hremoved.card_eq s).trans (if_neg hs)) ?_
      intro p hp
      rw [hremoved.card_eq, if_pos rfl] at hp
      cases hp
    have hqueue : b.plain.queue o.side o.price = o.entry :: b.entriesIn rest := by
      rw [h.queue_plain, hslots, entriesIn_cons ho]
    have hplain : b₁.plain =
        (b.plain.setQueue o.side o.price (b.entriesIn rest)).setPlace o.id none := by
      rw [hremoved.plain_eq h.toWellFormed hb₁ ho, PlainBook.dequeue, hqueue,
        List.eraseP_cons_of_pos]
      exact beq_self_eq_true o.id
    have hqueue₁ : b₁.plain.queue o.side o.price = b.entriesIn rest := by
      rw [hplain]
      exact if_pos ⟨rfl, rfl⟩
    obtain ⟨h'', htrade⟩ := ih h₁ h'
    refine ⟨h'', ?_⟩
    rw [hqueue₁, hplain] at htrade
    rw [hqueue, PlainBook.tradeAlong, if_neg hopen,
      if_neg (UInt32.not_lt.mpr (show o.entry.size ≤ report.unmatched from hsize))]
    exact htrade

theorem trade (h : b.AtRest) :
    Yields b.HasRoom (b.trade id price size side) fun r => r.2.1.AtRest ∧
      b.plain.trade id price size side = (r.1, r.2.1.plain) := by
  refine (h.toWellFormed.trade id price size side).mono ?_
  rintro ⟨report, b', events⟩ ⟨hb', htraded⟩
  dsimp only at hb' htraded ⊢
  cases htraded with
  | missed hslots =>
    refine ⟨h, ?_⟩
    rw [PlainBook.trade, h.queue_plain, hslots]
    rfl
  | met hslots hmatches => exact h.of_matches hb' hmatches

end AtRest

end Book

end PriceTime
