import PriceTime.Indicators
import PriceTime.Proofs.Book.Refinement
import PriceTime.Snapshot

/-!
# What a book shows

Everything that can be asked of a book can be told from its plain book: which orders rest where, the
levels of a side with their volumes and counts, the best prices, the snapshots and the volumes near
the top. Volumes and counts are machine words; with fewer than `2 ^ 32` orders they are exact.

* `Book.ShowsSide`: what a book shows of a side.
* `Book.Shows`: what a book shows.
* `Book.AtRest.shows`: a book at rest shows its plain book.
-/

namespace PriceTime

namespace PlainBook

/-- The sizes of the orders at a price of a side, summed up. -/
def volume (b : PlainBook) (side : Side) (price : Int32) : Nat :=
  ((b.queue side price).map fun entry => entry.size.toNat).sum

/-- What there is to see of the level at a price of a side. -/
def view? (b : PlainBook) (side : Side) (price : Int32) : Option LevelView :=
  if b.queue side price = [] then none
  else some {
    price
    volume := UInt64.ofNat (b.volume side price)
    count := UInt32.ofNat (b.queue side price).length }

/-- The prices of a side where orders wait, each once and the best first. -/
structure Ladder (b : PlainBook) (side : Side) (prices : List Int32) : Prop where
  bestFirst : prices.Pairwise fun p p' => side.rank p < side.rank p'
  mem_iff : ∀ price, price ∈ prices ↔ b.queue side price ≠ []

end PlainBook

/-- The levels of a side in a snapshot. -/
def Snapshot.half (s : Snapshot) : Side → List LevelView
  | .bid => s.bids
  | .ask => s.asks

namespace Book

variable {b : Book} {members : LevelKey → List Slot} {key : LevelKey} {slot : Slot} {id : UInt64}
  {side : Side} {price : Int32} {l : Level}

/-- What a book shows of a side where orders wait at `prices`. -/
structure ShowsSide (b : Book) (plain : PlainBook) (side : Side) (prices : List Int32) : Prop where
  ladder : plain.Ladder side prices
  levels : (b.levels side).map Level.view = prices.filterMap (plain.view? side)
  levelCount : b.levelCount side = prices.length
  bestPrice? : b.bestPrice? side = prices.head?
  best? : (b.best? side).map Level.view = prices.head?.bind (plain.view? side)
  bestQuote? : b.bestQuote? side =
    (prices.head?.bind (plain.view? side)).map fun view => (view.price, view.volume)
  count : (b.half side).count =
    UInt64.ofNat (prices.map fun price => (plain.queue side price).length).sum
  snapshot : ∀ time depth, (Snapshot.ofBook b time depth).half side =
    (prices.take depth).filterMap (plain.view? side)
  volumeNearTop : ∀ depth, Indicators.volumeNearTop depth b side =
    UInt64.ofNat ((prices.take depth).map (plain.volume side)).sum

/-- What a book shows. -/
structure Shows (b : Book) (plain : PlainBook) : Prop where
  /-- An order waits in one place, under its id. -/
  place_iff : ∀ id side price,
    plain.place id = some (side, price) ↔ ∃ entry ∈ plain.queue side price, entry.id = id
  nodup : ∀ side price, ((plain.queue side price).map Entry.id).Nodup
  contains : ∀ id, b.contains id = (plain.place id).isSome
  get? : ∀ id, (b.get? id).map (fun o => (o.side, o.price, o.entry)) = plain.find? id
  idsAt : ∀ side price, b.idsAt side price = (plain.queue side price).map Entry.id
  level? : ∀ side price, (b.level? side price).map Level.view = plain.view? side price
  side : ∀ side, ∃ prices, b.ShowsSide plain side prices
  /-- With fewer than `2 ^ 32` orders no volume and no count wraps around. -/
  exact : b.index.size < 2 ^ 32 → ∀ side price,
    (plain.queue side price).length < 2 ^ 32 ∧ plain.volume side price < 2 ^ 64

/-- Machine words are summed up as numbers are, up to the size of a word. -/
theorem foldl_ofNat {α : Type} (f : α → Nat) (xs : List α) (start : UInt64) :
    (xs.map fun x => UInt64.ofNat (f x)).foldl (fun sum word => sum + word) start =
      start + UInt64.ofNat (xs.map f).sum := by
  induction xs generalizing start with
  | nil => exact (UInt64.add_zero start).symm
  | cons x xs ih =>
    rw [List.map_cons, List.foldl_cons, ih, List.map_cons, List.sum_cons, UInt64.ofNat_add,
      UInt64.add_assoc]

namespace WellFormed

variable (h : b.WellFormed)

include h

theorem length_queue (side : Side) (price : Int32) :
    (b.plain.queue side price).length = (b.slotsAt side price).length := by
  rw [h.queue_plain]
  unfold entriesIn
  rw [List.length_filterMap_eq_countP, List.countP_eq_length]
  intro s hs
  obtain ⟨o, ho, -⟩ := h.mem_slotsAt.mp hs
  rw [ho]
  rfl

theorem queue_eq_nil_iff : b.plain.queue side price = [] ↔ b.slotsAt side price = [] := by
  rw [← List.length_eq_zero_iff, h.length_queue, List.length_eq_zero_iff]

theorem volume_plain (side : Side) (price : Int32) :
    b.plain.volume side price = b.queues.orders.sizeSum (b.slotsAt side price) := by
  have hsum : ∀ slots : List Slot, ((b.entriesIn slots).map fun entry => entry.size.toNat).sum =
      b.queues.orders.sizeSum slots := by
    intro slots
    rw [← Pool.sum_entries]
    unfold entriesIn Pool.entries card Queues.card
    rw [List.map_filterMap, List.map_filterMap]
    congr 2
    funext s
    cases b.queues.orders.get? s <;> rfl
  rw [PlainBook.volume, h.queue_plain, hsum]

/-- A level shows what its queue holds. -/
theorem view_of_key (hkey : b.levelKey? side price = some key) :
    (b.queues.levels.get? key).map Level.view = b.plain.view? side price := by
  obtain ⟨members, hstands⟩ := h.stands
  obtain ⟨l, hl, hlabel, -⟩ := hstands.level?_of_key hkey
  have hrep := hstands.places.represents hl
  have hslots := hstands.slotsAt_of_key hkey
  have hne : ¬ b.plain.queue side price = [] := fun hnil =>
    h.nonempty hkey (h.queue_eq_nil_iff.mp hnil)
  rw [hl, PlainBook.view?, if_neg hne, h.volume_plain, h.length_queue, hslots, ← hrep.volume_eq,
    ← hrep.count_eq]
  show some l.view = _
  rw [Level.view, show l.price = price from congrArg Prod.snd hlabel]

theorem view_level? (side : Side) (price : Int32) :
    (b.level? side price).map Level.view = b.plain.view? side price := by
  rw [Book.level?]
  cases hkey : b.levelKey? side price with
  | none =>
    rw [PlainBook.view?, if_pos (h.queue_eq_nil_iff.mpr (Stands.slotsAt_of_none hkey))]
    rfl
  | some key => exact h.view_of_key hkey

theorem view_of_entry {entry : Int32 × LevelKey} (he : entry ∈ (b.half side).ladder.toList) :
    (b.queues.levels.get? entry.2).map Level.view = b.plain.view? side entry.1 := by
  obtain ⟨members, hstands⟩ := h.stands
  exact h.view_of_key (hstands.mem_ladder.mp he)

theorem ladder_plain (side : Side) :
    b.plain.Ladder side ((b.half side).ladder.toList.map Prod.fst) := by
  obtain ⟨members, hstands⟩ := h.stands
  refine ⟨?_, ?_⟩
  · rw [List.pairwise_map]
    exact hstands.pairwise_ladder side
  · intro price
    rw [List.mem_map, Ne, h.queue_eq_nil_iff, ← h.levelKey?_eq_none_iff]
    constructor
    · rintro ⟨⟨p, k⟩, he, rfl⟩ hnone
      rw [hstands.mem_ladder.mp he] at hnone
      cases hnone
    · intro hsome
      obtain ⟨k, hk⟩ := Option.ne_none_iff_exists'.mp hsome
      exact ⟨(price, k), hstands.mem_ladder.mpr hk, rfl⟩

theorem levels_view (side : Side) : (b.levels side).map Level.view =
    ((b.half side).ladder.toList.map Prod.fst).filterMap (b.plain.view? side) := by
  unfold levels Ladder.keys
  rw [List.map_filterMap, List.filterMap_map, List.filterMap_map]
  exact List.filterMap_congr fun entry he => h.view_of_entry he

/-- At the prices of a ladder there is something to see. -/
theorem filterMap_view (side : Side) {prices : List Int32}
    (hprices : ∀ p ∈ prices, p ∈ (b.half side).ladder.toList.map Prod.fst) :
    prices.filterMap (b.plain.view? side) = prices.map fun p => {
      price := p
      volume := UInt64.ofNat (b.plain.volume side p)
      count := UInt32.ofNat (b.plain.queue side p).length } := by
  rw [← List.filterMap_eq_map]
  refine List.filterMap_congr fun p hp => ?_
  have hne := ((h.ladder_plain side).mem_iff p).mp (hprices p hp)
  rw [PlainBook.view?, if_neg hne]
  rfl

theorem bestQuote?_view (side : Side) : b.bestQuote? side =
    (((b.half side).ladder.toList.map Prod.fst).head?.bind (b.plain.view? side)).map
      fun view => (view.price, view.volume) := by
  obtain ⟨members, hstands⟩ := h.stands
  rw [bestQuote?, (hstands.shelved.sound side).best?_eq]
  cases hlist : (b.half side).ladder.toList with
  | nil => rfl
  | cons e rest =>
    have he : e ∈ (b.half side).ladder.toList := hlist ▸ List.mem_cons_self ..
    obtain ⟨l, hl, hlabel, -⟩ := hstands.level?_of_key (hstands.mem_ladder.mp he)
    show (b.queues.levels.get? e.2).map _ = (b.plain.view? side e.1).map _
    rw [← h.view_of_entry he, hl]
    show some (e.1, l.volume) = some (l.price, l.volume)
    rw [show l.price = e.1 from congrArg Prod.snd hlabel]

theorem volumeNearTop_plain (depth : Nat) (side : Side) :
    Indicators.volumeNearTop depth b side =
      UInt64.ofNat ((((b.half side).ladder.toList.map Prod.fst).take depth).map
        (b.plain.volume side)).sum := by
  have hvolumes : (b.levels side).map Level.volume =
      ((b.half side).ladder.toList.map Prod.fst).map fun p =>
        UInt64.ofNat (b.plain.volume side p) := by
    have hmap := congrArg (List.map LevelView.volume) (h.levels_view side)
    rw [h.filterMap_view side fun p hp => hp, List.map_map, List.map_map] at hmap
    exact hmap
  rw [Indicators.volumeNearTop, ← List.foldl_map, List.map_take, hvolumes, ← List.map_take]
  exact (foldl_ofNat (b.plain.volume side) _ 0).trans (UInt64.zero_add _)

/-- The prices of a side, as its ladder has them. -/
theorem showsSide (side : Side) :
    b.ShowsSide b.plain side ((b.half side).ladder.toList.map Prod.fst) := by
  obtain ⟨members, hstands⟩ := h.stands
  have hbest := (hstands.shelved.sound side).best?_eq
  refine ⟨h.ladder_plain side, h.levels_view side, ?_, ?_, ?_, h.bestQuote?_view side, ?_, ?_,
    fun depth => h.volumeNearTop_plain depth side⟩
  · rw [List.length_map, Ladder.length_toList]
    rfl
  · rw [bestPrice?, hbest, List.head?_map]
  · rw [best?, hbest]
    cases hlist : (b.half side).ladder.toList with
    | nil => rfl
    | cons e rest => exact h.view_of_entry (hlist ▸ List.mem_cons_self ..)
  · rw [h.count_eq, ← h.length_lineUp, lineUp, List.length_flatMap, List.map_map]
    congr 2
    refine List.map_congr_left fun e _ => ?_
    exact (h.length_queue side e.1).symm
  · intro time depth
    have hhalf : (Snapshot.ofBook b time depth).half side =
        ((b.levels side).take depth).map Level.view := by
      cases side <;> rfl
    rw [hhalf, List.map_take, h.levels_view, h.filterMap_view side fun p hp => hp,
      h.filterMap_view side fun p hp => List.mem_of_mem_take hp, List.map_take]

/-- A side without a best price has no levels. -/
theorem bestPrice?_eq_none_iff : b.bestPrice? side = none ↔ b.levels side = [] := by
  have hlevels := congrArg List.length (h.levels_view side)
  rw [h.filterMap_view side fun p hp => hp, List.length_map, List.length_map] at hlevels
  rw [(h.showsSide side).bestPrice?, List.head?_eq_none_iff, ← List.length_eq_zero_iff, ← hlevels,
    List.length_eq_zero_iff]

/-- The best price and the volume there are known together. -/
theorem bestQuote?_eq_none_iff : b.bestQuote? side = none ↔ b.levels side = [] := by
  rw [← h.bestPrice?_eq_none_iff, h.bestQuote?_view, (h.showsSide side).bestPrice?]
  cases hprices : (b.half side).ladder.toList.map Prod.fst with
  | nil => simp
  | cons price prices =>
    have hview : b.plain.view? side price ≠ none := by
      rw [PlainBook.view?, if_neg]
      · exact Option.some_ne_none _
      · exact ((h.ladder_plain side).mem_iff price).mp (hprices ▸ List.mem_cons_self ..)
    simp [hview]

/-- An order waits in one place, under its id. -/
theorem place_plain_iff (id : UInt64) (side : Side) (price : Int32) :
    b.plain.place id = some (side, price) ↔ ∃ entry ∈ b.plain.queue side price, entry.id = id := by
  rw [h.place_eq_some, h.queue_plain]
  unfold entriesIn
  constructor
  · rintro ⟨slot, o, ho, hid, hside, hprice⟩
    refine ⟨o.entry, List.mem_filterMap.mpr ⟨slot, ?_, ?_⟩, hid⟩
    · exact h.mem_slotsAt.mpr ⟨o, ho, hside, hprice⟩
    · rw [ho]
      rfl
  · rintro ⟨entry, hentry, hid⟩
    obtain ⟨slot, hslot, heq⟩ := List.mem_filterMap.mp hentry
    obtain ⟨o, ho, rfl⟩ := Option.map_eq_some_iff.mp heq
    obtain ⟨hside, hprice⟩ := h.place_eq hslot ho
    exact ⟨slot, o, ho, hid, hside, hprice⟩

/-- No id waits twice in a queue. -/
theorem nodup_ids (side : Side) (price : Int32) :
    ((b.plain.queue side price).map Entry.id).Nodup := by
  rw [h.queue_plain]
  unfold entriesIn
  rw [List.map_filterMap]
  refine (h.nodup_slotsAt side price).filterMap ?_
  intro s s' i hi hi'
  obtain ⟨e, he, rfl⟩ := Option.map_eq_some_iff.mp hi
  obtain ⟨o, ho, rfl⟩ := Option.map_eq_some_iff.mp he
  obtain ⟨e', he', hid⟩ := Option.map_eq_some_iff.mp hi'
  obtain ⟨o', ho', rfl⟩ := Option.map_eq_some_iff.mp he'
  exact h.slot_unique ho ho' hid.symm

end WellFormed

/-- A book at rest shows what its plain book holds. -/
theorem AtRest.shows (h : b.AtRest) : b.Shows b.plain where
  place_iff := h.place_plain_iff
  nodup := h.nodup_ids
  contains := by
    intro id
    rw [Book.contains, Std.ExtTreeMap.contains_eq_isSome_getElem?]
    cases hid : b.index[id]? with
    | none => rw [place_plain_none hid]; rfl
    | some slot =>
      obtain ⟨o, ho, rfl⟩ := h.index_iff.mp hid
      rw [h.place_of_card ho]
      rfl
  get? := by
    intro id
    cases hid : b.index[id]? with
    | none =>
      rw [find?_plain_none hid, Book.get?, hid]
      rfl
    | some slot =>
      obtain ⟨o, ho, rfl⟩ := h.index_iff.mp hid
      rw [h.find?_plain ho, Book.get?, hid, Option.bind_some]
      obtain ⟨p, hp, rfl⟩ := Queues.get?_of_card ho
      rw [hp]
      rfl
  idsAt := by
    intro side price
    unfold Book.idsAt plain
    dsimp only
    cases b.level? side price with
    | none => rfl
    | some l =>
      dsimp only
      rw [List.map_map]
      rfl
  level? := h.view_level?
  side side := ⟨_, h.showsSide side⟩
  exact := by
    intro hroom side price
    rw [h.size_index] at hroom
    have hshort := lt_of_le_of_lt (h.length_slotsAt_le side price) hroom
    rw [h.length_queue, h.volume_plain]
    exact ⟨hshort, Pool.sizeSum_lt hshort⟩

end Book

end PriceTime
