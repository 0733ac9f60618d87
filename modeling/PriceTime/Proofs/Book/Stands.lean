import PriceTime.Book.Operation
import PriceTime.Proofs.Book.Places
import PriceTime.Proofs.Ladder

/-!
# Books between two steps

An operation on a book is a sequence of steps: a level is made, an order is taken out of its place,
changed and put into another one, a level is given up. A book stands when its orders are in their
places and its ladders and price indexes hold exactly its levels. Every step keeps a book standing,
while an order may be loose and a level empty in between.

* `Book.Stands.levelFor`: a level is there or is made.
* `Book.Stands.link`: a loose order goes to the end of the queue of its side and price.
* `Book.Stands.detach`: an order leaves its queue, and the level goes with the last one.
-/

namespace PriceTime

namespace Book

variable {b b' : Book} {members : LevelKey → List Slot} {key : LevelKey} {slot : Slot}
  {side : Side} {price : Int32} {o : Order} {room : Prop}

/-! ## Sides -/

@[simp] theorem half_onHalf (b : Book) (side : Side) (f : HalfBook → HalfBook) (s : Side) :
    (b.onHalf side f).half s = if s = side then f (b.half s) else b.half s := by
  cases side <;> cases s <;> rfl

@[simp] theorem queues_onHalf (b : Book) (side : Side) (f : HalfBook → HalfBook) :
    (b.onHalf side f).queues = b.queues := by
  cases side <;> rfl

@[simp] theorem index_onHalf (b : Book) (side : Side) (f : HalfBook → HalfBook) :
    (b.onHalf side f).index = b.index := by
  cases side <;> rfl

/-! ## What stands -/

/-- The slots of the orders at a price of a side, oldest first. -/
def slotsAt (b : Book) (side : Side) (price : Int32) : List Slot :=
  match b.level? side price with
  | some level => (b.ordersOf level).map Prod.fst
  | none => []

/-- The order in a slot, without its links. -/
def card (b : Book) (slot : Slot) : Option Order :=
  b.queues.card slot

/-- The ladders and the price indexes hold the levels, each at its side and price. -/
structure Shelved (b : Book) : Prop where
  side_eq : ∀ side, (b.half side).ladder.side = side
  sound : ∀ side, (b.half side).ladder.Sound
  ladder_key? : ∀ side price, (b.half side).ladder.key? price = b.levelKey? side price
  levelKey?_iff : ∀ {side price key},
    b.levelKey? side price = some key ↔ b.queues.label key = some (side, price)

/-- The orders are in their places, and the ladders and price indexes hold the levels. -/
structure Stands (b : Book) (members : LevelKey → List Slot) : Prop where
  places : b.queues.Places members
  shelved : b.Shelved

/-- The index of the orders and the counts of the sides are the same. -/
structure SameRegister (b b' : Book) : Prop where
  index : b'.index = b.index
  count : ∀ side, (b'.half side).count = (b.half side).count

theorem SameRegister.refl (b : Book) : b.SameRegister b := ⟨rfl, fun _ => rfl⟩

theorem SameRegister.symm (h : b.SameRegister b') : b'.SameRegister b :=
  ⟨h.index.symm, fun side => (h.count side).symm⟩

theorem SameRegister.trans {b'' : Book} (h : b.SameRegister b') (h' : b'.SameRegister b'') :
    b.SameRegister b'' :=
  ⟨h'.index.trans h.index, fun side => (h'.count side).trans (h.count side)⟩

/-- No count of the book wraps around: fewer than `2 ^ 32` orders wait at any price of a side, and
fewer than `2 ^ 64` in all. -/
structure HasRoom (b : Book) : Prop where
  size_lt : b.queues.orders.size < 2 ^ 64
  length_lt : ∀ side price, (b.slotsAt side price).length < 2 ^ 32

theorem HasRoom.of_le (h : b.HasRoom) (hsize : b'.queues.orders.size ≤ b.queues.orders.size)
    (hlength : ∀ side price, (b'.slotsAt side price).length ≤ (b.slotsAt side price).length) :
    b'.HasRoom where
  size_lt := hsize.trans_lt h.size_lt
  length_lt side price := (hlength side price).trans_lt (h.length_lt side price)

namespace Stands

theorem empty : Book.empty.Stands fun _ => [] where
  places := Queues.Places.empty
  shelved := by
    refine ⟨?_, ?_, ?_, ?_⟩
    · intro side
      cases side <;> rfl
    · intro side
      cases side <;> exact Ladder.Sound.empty _
    · intro side price
      cases side <;> simp [half, levelKey?, Book.empty, HalfBook.empty, Ladder.key?]
    · intro side price key
      cases side <;>
        simp [levelKey?, half, Book.empty, HalfBook.empty, Queues.label, Queues.empty]

theorem level?_of_key (h : b.Stands members) (hkey : b.levelKey? side price = some key) :
    ∃ l, b.queues.levels.get? key = some l ∧ l.label = (side, price) ∧
      b.level? side price = some l := by
  obtain ⟨l, hl, hlabel⟩ := Queues.get?_of_label (h.shelved.levelKey?_iff.mp hkey)
  exact ⟨l, hl, hlabel, by rw [level?, hkey, Option.bind_some, hl]⟩

theorem slotsAt_of_key (h : b.Stands members) (hkey : b.levelKey? side price = some key) :
    b.slotsAt side price = members key := by
  obtain ⟨l, hl, -, hlevel⟩ := h.level?_of_key hkey
  rw [slotsAt, hlevel]
  exact h.places.map_fst_ordersOf hl

theorem slotsAt_of_none (hkey : b.levelKey? side price = none) : b.slotsAt side price = [] := by
  rw [slotsAt, level?, hkey]
  rfl

theorem slotsAt_of_label (h : b.Stands members)
    (hlabel : b.queues.label key = some (side, price)) : b.slotsAt side price = members key :=
  h.slotsAt_of_key (h.shelved.levelKey?_iff.mpr hlabel)

theorem nodup_slotsAt (h : b.Stands members) (side : Side) (price : Int32) :
    (b.slotsAt side price).Nodup := by
  cases hkey : b.levelKey? side price with
  | none =>
    rw [slotsAt_of_none hkey]
    exact List.nodup_nil
  | some key =>
    rw [h.slotsAt_of_key hkey]
    exact h.places.nodup key

/-- An order is in the queue of its side and price, unless it is loose. -/
theorem mem_slotsAt (h : b.Stands members) : slot ∈ b.slotsAt side price ↔
    ∃ o key, b.card slot = some o ∧ o.level = some key ∧ o.side = side ∧ o.price = price := by
  constructor
  · intro hs
    cases hkey : b.levelKey? side price with
    | none =>
      rw [slotsAt_of_none hkey] at hs
      cases hs
    | some key =>
      rw [h.slotsAt_of_key hkey] at hs
      obtain ⟨o, ho, hlevel⟩ := h.places.mem_iff.mp hs
      have hlabel := h.places.labelled ho hlevel
      rw [h.shelved.levelKey?_iff.mp hkey] at hlabel
      cases hlabel
      exact ⟨o, key, ho, hlevel, rfl, rfl⟩
  · rintro ⟨o, key, ho, hlevel, rfl, rfl⟩
    rw [h.slotsAt_of_label (h.places.labelled ho hlevel)]
    exact h.places.mem_iff.mpr ⟨o, ho, hlevel⟩

theorem length_slotsAt_le (h : b.Stands members) (side : Side) (price : Int32) :
    (b.slotsAt side price).length ≤ b.queues.orders.size := by
  cases hkey : b.levelKey? side price with
  | none =>
    rw [slotsAt_of_none hkey]
    exact Nat.zero_le _
  | some key =>
    rw [h.slotsAt_of_key hkey]
    exact h.places.length_le_size key

theorem hasRoom (h : b.Stands members) (hsize : b.queues.orders.size < 2 ^ 32) : b.HasRoom where
  size_lt := hsize.trans (by decide)
  length_lt side price := (h.length_slotsAt_le side price).trans_lt hsize

theorem length_lt (h : b.Stands members) (hroom : b.HasRoom)
    (hkey : b.levelKey? side price = some key) : (members key).length < 2 ^ 32 := by
  rw [← h.slotsAt_of_key hkey]
  exact hroom.length_lt side price

/-- Equal lists and labels make equal queues. -/
theorem slotsAt_congr (h : b.Stands members) (h' : b'.Stands members)
    (hkey : b'.levelKey? side price = b.levelKey? side price) :
    b'.slotsAt side price = b.slotsAt side price := by
  cases hk : b.levelKey? side price with
  | none => rw [slotsAt_of_none hk, slotsAt_of_none (hkey.trans hk)]
  | some key => rw [h.slotsAt_of_key hk, h'.slotsAt_of_key (hkey.trans hk)]

/-! ## Changes of the queues alone -/

theorem with_queues (h : b.Stands members) {q : Queues} {members' : LevelKey → List Slot}
    (hplaces : q.Places members') (hlabel : ∀ k, q.label k = b.queues.label k) :
    ({ b with queues := q } : Book).Stands members' where
  places := hplaces
  shelved := by
    refine ⟨?_, ?_, ?_, ?_⟩
    · intro side
      cases side
      · exact h.shelved.side_eq .bid
      · exact h.shelved.side_eq .ask
    · intro side
      cases side
      · exact h.shelved.sound .bid
      · exact h.shelved.sound .ask
    · intro side price
      cases side
      · exact h.shelved.ladder_key? .bid price
      · exact h.shelved.ladder_key? .ask price
    · intro side price key
      rw [show ({ b with queues := q } : Book).levelKey? side price = b.levelKey? side price by
        cases side <;> rfl]
      rw [h.shelved.levelKey?_iff]
      exact (hlabel key).symm ▸ Iff.rfl

end Stands

theorem onQueues_eq (b : Book) (f : Queues → Except Fault Queues) :
    b.onQueues f = f b.queues >>= fun q => .ok { b with queues := q } := by
  obtain ⟨queues, bids, asks, index⟩ := b
  unfold onQueues
  dsimp only
  split
  · rename_i hq
    rw [hq]
    rfl
  · rename_i hq
    rw [hq]
    rfl

theorem fromQueues_eq {α : Type} (b : Book) (f : Queues → Except Fault (α × Queues)) :
    b.fromQueues f = f b.queues >>= fun r => .ok (r.1, { b with queues := r.2 }) := by
  obtain ⟨queues, bids, asks, index⟩ := b
  unfold fromQueues
  dsimp only
  split
  · rename_i hq
    rw [hq]
    rfl
  · rename_i hq
    rw [hq]
    rfl

/-! ## A level is there or is made -/

/-- What making sure of a level leaves: the level is `key`, and nothing else changed. -/
structure LevelReady (b : Book) (side : Side) (price : Int32) (key : LevelKey) (b' : Book)
    (events : List Event) : Prop where
  key_eq : key = (b.levelKey? side price).getD b.queues.levels.nextKey
  levelKey?_eq : ∀ s p,
    b'.levelKey? s p = if s = side ∧ p = price then some key else b.levelKey? s p
  orders : b'.queues.orders = b.queues.orders
  levels_room : Arena.SameRoom
    (if (b.levelKey? side price).isSome then b.queues.levels
      else (b.queues.levels.insert { price, side }).2) b'.queues.levels
  register : b.SameRegister b'
  events_eq : events =
    if (b.levelKey? side price).isSome then [] else [.levelCreated price side]

theorem levelFor_of_some (hkey : b.levelKey? side price = some key) :
    b.levelFor side price = (key, b, []) := by
  simp [levelFor, hkey]

theorem levelFor_of_none (hkey : b.levelKey? side price = none) :
    b.levelFor side price = (b.queues.levels.nextKey,
      Book.onHalf { b with queues := (b.queues.openLevel price side).2 } side
        fun h => h.insertLevel price b.queues.levels.nextKey,
      [.levelCreated price side]) := by
  obtain ⟨queues, bids, asks, index⟩ := b
  simp only [levelFor, hkey, Queues.Threads.openLevel_eq]

theorem levelKey?_eq (b : Book) (side : Side) (price : Int32) :
    b.levelKey? side price = (b.half side).index[price]? := rfl

/-- The ladder and the index of a side get another entry, or none, at one price, and so do the levels
of that side and price. -/
theorem Shelved.reshelve {q : Queues} {f : HalfBook → HalfBook} {found : Option LevelKey}
    (h : b.Shelved) (hside : ∀ x, (f x).ladder.side = x.ladder.side)
    (hsound : ∀ x, x.ladder.Sound → (f x).ladder.Sound)
    (hladder : ∀ x p, (f x).ladder.key? p = if p = price then found else x.ladder.key? p)
    (hindex : ∀ x p, (f x).index[p]? = if p = price then found else x.index[p]?)
    (hlabel : ∀ s p k, q.label k = some (s, p) ↔
      if s = side ∧ p = price then found = some k else b.queues.label k = some (s, p)) :
    (Book.onHalf { b with queues := q } side f).Shelved ∧
      ∀ s p, (Book.onHalf { b with queues := q } side f).levelKey? s p =
        if s = side ∧ p = price then found else b.levelKey? s p := by
  have hhalf : ∀ s, (Book.onHalf { b with queues := q } side f).half s =
      if s = side then f (b.half s) else b.half s := by
    intro s
    rw [half_onHalf]
    cases s <;> rfl
  have hkeys : ∀ s p, (Book.onHalf { b with queues := q } side f).levelKey? s p =
      if s = side ∧ p = price then found else b.levelKey? s p := by
    intro s p
    rw [levelKey?_eq, hhalf]
    by_cases hs : s = side
    · rw [if_pos hs, hindex]
      simp only [hs, true_and]
      rfl
    · rw [if_neg hs, if_neg (fun hand => hs hand.1)]
      rfl
  refine ⟨⟨?_, ?_, ?_, ?_⟩, hkeys⟩
  · intro s
    rw [hhalf]
    split
    · exact (hside _).trans (h.side_eq s)
    · exact h.side_eq s
  · intro s
    rw [hhalf]
    split
    · exact hsound _ (h.sound s)
    · exact h.sound s
  · intro s p
    rw [hkeys, hhalf]
    by_cases hs : s = side
    · rw [if_pos hs, hladder, h.ladder_key?]
      simp only [hs, true_and]
    · rw [if_neg hs, if_neg (fun hand => hs hand.1), h.ladder_key?]
  · intro s p k
    rw [hkeys, queues_onHalf]
    refine Iff.trans ?_ (hlabel s p k).symm
    split
    · exact Iff.rfl
    · exact h.levelKey?_iff

/-- Entering a level into the ladder and the index of its side. -/
theorem Shelved.insertLevel (h : b.Shelved) {q : Queues} (hnone : b.levelKey? side price = none)
    (hfresh : b.queues.label key = none)
    (hlabel : ∀ k, q.label k = if k = key then some (side, price) else b.queues.label k) :
    (Book.onHalf { b with queues := q } side fun h => h.insertLevel price key).Shelved ∧
      ∀ s p, (Book.onHalf { b with queues := q } side fun h => h.insertLevel price key).levelKey? s p
        = if s = side ∧ p = price then some key else b.levelKey? s p := by
  refine h.reshelve (fun _ => rfl) (fun x hx => hx.insert price key)
    (fun x p => Ladder.key?_insert x.ladder price key p) ?_ ?_
  · intro x p
    show (x.index.insert price key)[p]? = _
    simp only [Std.ExtTreeMap.getElem?_insert, Std.compare_eq_iff_eq, eq_comm (a := price)]
  · intro s p k
    rw [hlabel]
    by_cases hk : k = key
    · subst hk
      rw [if_pos rfl, hfresh]
      by_cases hsp : s = side ∧ p = price
      · simp [hsp]
      · rw [if_neg hsp]
        refine iff_of_false ?_ nofun
        intro heq
        cases heq
        exact hsp ⟨rfl, rfl⟩
    · rw [if_neg hk]
      split
      · rename_i hsp
        rw [← h.levelKey?_iff, hsp.1, hsp.2, hnone]
        simp [Ne.symm hk]
      · exact Iff.rfl

/-- Making sure of a level keeps a book standing. -/
theorem Stands.levelFor (h : b.Stands members) (side : Side) (price : Int32) :
    (b.levelFor side price).2.1.Stands members ∧
      b.LevelReady side price (b.levelFor side price).1 (b.levelFor side price).2.1
        (b.levelFor side price).2.2 := by
  cases hkey : b.levelKey? side price with
  | some key =>
    rw [levelFor_of_some hkey]
    refine ⟨h, ?_, ?_, rfl, ?_, SameRegister.refl b, ?_⟩
    · simp [hkey]
    · intro s p
      split
      · rename_i hsp
        rw [hsp.1, hsp.2, hkey]
      · rfl
    · simpa [hkey] using Arena.SameRoom.refl b.queues.levels
    · simp [hkey]
  | none =>
    rw [levelFor_of_none hkey]
    have hfresh : b.queues.label b.queues.levels.nextKey = none :=
      Queues.label_eq_none_iff.mpr h.places.levels_tidy.get?_nextKey
    obtain ⟨hshelved, hkeys⟩ := h.shelved.insertLevel hkey hfresh
      (h.places.label_openLevel price side)
    refine ⟨⟨?_, hshelved⟩, ?_, hkeys, ?_, ?_, ?_, ?_⟩
    · rw [queues_onHalf]
      exact h.places.openLevel price side
    · simp [hkey]
    · rw [queues_onHalf]
      show (b.queues.openLevel price side).2.orders = b.queues.orders
      rw [Queues.Threads.openLevel_eq]
    · rw [queues_onHalf]
      simp only [hkey, Option.isSome_none, Bool.false_eq_true, if_false]
      rw [Queues.Threads.openLevel_eq]
      exact Arena.SameRoom.refl _
    · refine ⟨index_onHalf .., ?_⟩
      intro s
      rw [half_onHalf]
      split <;> cases s <;> rfl
    · simp [hkey]

namespace LevelReady

variable {events : List Event}

theorem card_eq (h : b.LevelReady side price key b' events) (s : Slot) : b'.card s = b.card s := by
  rw [card, card, Queues.card, Queues.card, h.orders]

theorem slotsAt_eq (h : b.LevelReady side price key b' events) (hb : b.Stands members)
    (hb' : b'.Stands members) (s : Side) (p : Int32) : b'.slotsAt s p = b.slotsAt s p := by
  by_cases hsp : s = side ∧ p = price
  · obtain ⟨rfl, rfl⟩ := hsp
    have hkey := h.levelKey?_eq s p
    rw [if_pos ⟨rfl, rfl⟩] at hkey
    cases hold : b.levelKey? s p with
    | some k =>
      have heq := h.key_eq
      rw [hold, Option.getD_some] at heq
      exact hb.slotsAt_congr hb' (by rw [hkey, hold, heq])
    | none =>
      have heq := h.key_eq
      rw [hold, Option.getD_none] at heq
      rw [hb'.slotsAt_of_key hkey, Stands.slotsAt_of_none hold, heq]
      exact hb.places.vacant hb.places.levels_tidy.get?_nextKey
  · exact hb.slotsAt_congr hb' (by rw [h.levelKey?_eq, if_neg hsp])

end LevelReady

/-! ## An order changes, and the queue of one price with it -/

/-- `b'` is `b` with the order in `slot` changed by `f` and the queue at one price of one side
replaced by `slots`, apart from links, sums and numbers. -/
structure Alters (b : Book) (slot : Slot) (f : Order → Order) (side : Side) (price : Int32)
    (slots : List Slot) (b' : Book) : Prop where
  card_eq : ∀ s, b'.card s = if s = slot then (b.card s).map f else b.card s
  slotsAt_eq : ∀ s p, b'.slotsAt s p = if s = side ∧ p = price then slots else b.slotsAt s p
  levelKey?_eq : ∀ s p, b'.levelKey? s p = b.levelKey? s p
  orders_room : Arena.SameRoom b.queues.orders b'.queues.orders
  levels_room : Arena.SameRoom b.queues.levels b'.queues.levels
  register : b.SameRegister b'

theorem Alters.length_slotsAt_le {f : Order → Order} {slots : List Slot}
    (halters : b.Alters slot f side price slots b')
    (hlength : slots.length ≤ (b.slotsAt side price).length) (s : Side) (p : Int32) :
    (b'.slotsAt s p).length ≤ (b.slotsAt s p).length := by
  rw [halters.slotsAt_eq]
  split
  · rename_i hsp
    rw [hsp.1, hsp.2]
    exact hlength
  · exact Nat.le_refl _

theorem Alters.hasRoom {f : Order → Order} (halters : b.Alters slot f side price
    (b.slotsAt side price) b') (hroom : b.HasRoom) : b'.HasRoom :=
  hroom.of_le (Nat.le_of_eq halters.orders_room.size_eq)
    (halters.length_slotsAt_le (Nat.le_refl _))

theorem Alters.card_of {f : Order → Order} {slots : List Slot}
    (halters : b.Alters slot f side price slots b') (ho : b.card slot = some o) (s : Slot) :
    b'.card s = if s = slot then some (f o) else b.card s := by
  rw [halters.card_eq]
  split
  · rename_i hs
    rw [hs, ho]
    rfl
  · rfl

/-- A queue replaced by itself. -/
theorem Alters.slotsAt_kept {f : Order → Order}
    (halters : b.Alters slot f side price (b.slotsAt side price) b') (s : Side) (p : Int32) :
    b'.slotsAt s p = b.slotsAt s p := by
  rw [halters.slotsAt_eq]
  split
  · rename_i hsp
    rw [hsp.1, hsp.2]
  · rfl

/-- A change of the queues that replaces the list of one level. -/
theorem Stands.alters (h : b.Stands members) {q : Queues} {slots : List Slot} {f : Order → Order}
    (hkey : b.levelKey? side price = some key)
    (hplaces : q.Places (Function.update members key slots)) (halters : b.queues.Alters slot f q) :
    ({ b with queues := q } : Book).Stands (Function.update members key slots) ∧
      b.Alters slot f side price slots { b with queues := q } := by
  have hkeys : ∀ s p, ({ b with queues := q } : Book).levelKey? s p = b.levelKey? s p := by
    intro s p
    cases s <;> rfl
  have hstands := h.with_queues hplaces halters.label
  refine ⟨hstands, halters.card, ?_, hkeys, halters.orders_room, halters.levels_room, rfl, ?_⟩
  · intro s p
    split
    · rename_i hsp
      rw [hsp.1, hsp.2, hstands.slotsAt_of_key ((hkeys side price).trans hkey),
        Function.update_self]
    · rename_i hsp
      cases hk : b.levelKey? s p with
      | none => rw [slotsAt_of_none hk, slotsAt_of_none ((hkeys s p).trans hk)]
      | some k =>
        rw [h.slotsAt_of_key hk, hstands.slotsAt_of_key ((hkeys s p).trans hk),
          Function.update_of_ne]
        rintro rfl
        have hlabel := h.shelved.levelKey?_iff.mp hk
        rw [h.shelved.levelKey?_iff.mp hkey] at hlabel
        cases hlabel
        exact hsp ⟨rfl, rfl⟩
  · intro s
    cases s <;> rfl

/-- A loose order put into the level of its side and price is the last of its queue. -/
theorem Stands.link (h : b.Stands members) (ho : b.card slot = some o) (hlevel : o.level = none)
    (hkey : b.levelKey? o.side o.price = some key) :
    Yields room (b.link key slot) fun b' =>
      (∃ members', b'.Stands members') ∧
        b.Alters slot (fun o => { o with level := some key }) o.side o.price
          (b.slotsAt o.side o.price ++ [slot]) b' := by
  rw [Book.link, onQueues_eq]
  refine (h.places.link ho hlevel (h.shelved.levelKey?_iff.mp hkey)).bind ?_
  rintro q ⟨hplaces, halters⟩
  obtain ⟨hstands, hbook⟩ := h.alters hkey hplaces halters
  rw [h.slotsAt_of_key hkey]
  exact Yields.ok ⟨⟨_, hstands⟩, hbook⟩

/-- A loose order that changes and stays loose; the queues do not notice. -/
theorem Stands.revise (h : b.Stands members) (ho : b.card slot = some o) (hlevel : o.level = none)
    (hkey : b.levelKey? side price = some key) (f : Order → Order) (hlinks : Queues.KeepsLinks f)
    (hloose : (f o).level = none) :
    Yields room (b.onQueues (·.update slot f)) fun b' =>
      (∃ members', b'.Stands members') ∧ b.Alters slot f side price (b.slotsAt side price) b' := by
  rw [onQueues_eq]
  refine (h.places.revise ho hlevel f hlinks hloose).bind ?_
  rintro q ⟨hplaces, halters⟩
  rw [← Function.update_eq_self key members] at hplaces
  obtain ⟨hstands, hbook⟩ := h.alters hkey hplaces halters
  rw [h.slotsAt_of_key hkey]
  exact Yields.ok ⟨⟨_, hstands⟩, hbook⟩

/-- An order that gets smaller in its place, and the sum of its level with it. -/
theorem Stands.shrink {lost : UInt32} {l : Level} (h : b.Stands members)
    (ho : b.card slot = some o) (hlevel : o.level = some key)
    (hl : b.queues.levels.get? key = some l) (f : Order → Order) (hlinks : Queues.KeepsLinks f)
    (hf : ∀ o, (f o).level = o.level ∧ (f o).side = o.side ∧ (f o).price = o.price)
    (hsize : ∀ p : Order, p.bare = o → (f p).size.toNat + lost.toNat = p.size.toNat) :
    Yields b.HasRoom
      (l.reduce lost >>= fun l' => .ok
        { b with queues := ⟨b.queues.orders.modify slot f, b.queues.levels.set key l'⟩ })
      fun b' => (∃ members', b'.Stands members') ∧
        b.Alters slot f o.side o.price (b.slotsAt o.side o.price) b' := by
  have hkey := h.shelved.levelKey?_iff.mpr (h.places.labelled ho hlevel)
  have hshrink := (h.places.shrink ho hlevel hl f hlinks hf hsize).of_room
    fun hroom => h.length_lt hroom hkey
  have heq : (l.reduce lost >>= fun l' => (.ok
        { b with queues := ⟨b.queues.orders.modify slot f, b.queues.levels.set key l'⟩ } :
          Except Fault Book)) =
      (l.reduce lost >>= fun l' => .ok
        ⟨b.queues.orders.modify slot f, b.queues.levels.set key l'⟩) >>= fun q =>
          .ok { b with queues := q } := by
    rw [bind_assoc]
    rfl
  rw [heq]
  refine hshrink.bind ?_
  rintro q ⟨hplaces, halters⟩
  rw [← Function.update_eq_self key members] at hplaces
  obtain ⟨hstands, hbook⟩ := h.alters hkey hplaces halters
  rw [h.slotsAt_of_key hkey]
  exact Yields.ok ⟨⟨_, hstands⟩, hbook⟩

/-! ## An order leaves its queue -/

/-- Striking a level out of the ladder and the index of its side. -/
theorem Shelved.eraseLevel (h : b.Shelved) {q : Queues} (hkey : b.levelKey? side price = some key)
    (hlabel : ∀ k, q.label k = if k = key then none else b.queues.label k) :
    (Book.onHalf { b with queues := q } side fun h => h.eraseLevel price).Shelved ∧
      ∀ s p, (Book.onHalf { b with queues := q } side fun h => h.eraseLevel price).levelKey? s p
        = if s = side ∧ p = price then none else b.levelKey? s p := by
  have hown := h.levelKey?_iff.mp hkey
  refine h.reshelve (fun _ => Ladder.side_remove ..) (fun x hx => hx.remove price)
    (fun x p => Ladder.key?_remove x.ladder price p) ?_ ?_
  · intro x p
    show (x.index.erase price)[p]? = _
    simp only [Std.ExtTreeMap.getElem?_erase, Std.compare_eq_iff_eq, eq_comm (a := price)]
  · intro s p k
    rw [hlabel]
    by_cases hk : k = key
    · subst hk
      rw [if_pos rfl, hown]
      refine iff_of_false nofun ?_
      intro heq
      split at heq
      · cases heq
      · rename_i hsp
        cases heq
        exact hsp ⟨rfl, rfl⟩
    · rw [if_neg hk]
      split
      · rename_i hsp
        rw [← h.levelKey?_iff, hsp.1, hsp.2, hkey]
        simp [Ne.symm hk]
      · exact Iff.rfl

/-- `b'` is `b` without the level `key` at a price of a side, which had no orders. -/
structure Closed (b : Book) (side : Side) (price : Int32) (key : LevelKey) (b' : Book) : Prop where
  levelKey?_eq : ∀ s p, b'.levelKey? s p =
    if s = side ∧ p = price then none else b.levelKey? s p
  slotsAt_eq : ∀ s p, b'.slotsAt s p = b.slotsAt s p
  orders : b'.queues.orders = b.queues.orders
  levels : b'.queues.levels = b.queues.levels.vacate key
  register : b.SameRegister b'

theorem Closed.card_eq (h : b.Closed side price key b') (s : Slot) : b'.card s = b.card s := by
  unfold card Queues.card
  rw [h.orders]

/-- A book still stands when a level without orders is given up. -/
theorem Stands.closed (h : b.Stands members) (hkey : b.levelKey? side price = some key)
    (hempty : members key = []) :
    (Book.onHalf { b with queues := b.queues.closeLevel key } side
        fun h => h.eraseLevel price).Stands members ∧
      b.Closed side price key (Book.onHalf { b with queues := b.queues.closeLevel key } side
        fun h => h.eraseLevel price) := by
  obtain ⟨l, hl, -⟩ := h.level?_of_key hkey
  obtain ⟨hshelved, hkeys⟩ := h.shelved.eraseLevel hkey
    fun k => Queues.Threads.label_closeLevel b.queues key k
  have hstands : (Book.onHalf { b with queues := b.queues.closeLevel key } side
      fun h => h.eraseLevel price).Stands members := by
    refine ⟨?_, hshelved⟩
    rw [queues_onHalf]
    exact h.places.closeLevel hl hempty
  refine ⟨hstands, hkeys, ?_, ?_, ?_, index_onHalf .., ?_⟩
  · intro s p
    by_cases hsp : s = side ∧ p = price
    · rw [slotsAt_of_none ((hkeys s p).trans (if_pos hsp)), hsp.1, hsp.2, h.slotsAt_of_key hkey,
        hempty]
    · exact h.slotsAt_congr hstands ((hkeys s p).trans (if_neg hsp))
  · rw [queues_onHalf]
    rfl
  · rw [queues_onHalf]
    rfl
  · intro s
    rw [half_onHalf]
    split <;> cases s <;> rfl

/-- What an order that leaves its queue leaves behind: the level goes with the last order. -/
structure Detached (b : Book) (slot : Slot) (o : Order) (key : LevelKey) (b' : Book)
    (events : List Event) : Prop where
  card_eq : ∀ s, b'.card s = if s = slot then some { o with level := none } else b.card s
  slotsAt_eq : ∀ s p, b'.slotsAt s p =
    if s = o.side ∧ p = o.price then (b.slotsAt s p).erase slot else b.slotsAt s p
  levelKey?_eq : ∀ s p, b'.levelKey? s p =
    if s = o.side ∧ p = o.price ∧ b.slotsAt s p = [slot] then none else b.levelKey? s p
  orders_room : Arena.SameRoom b.queues.orders b'.queues.orders
  levels_room : Arena.SameRoom
    (if b.slotsAt o.side o.price = [slot] then b.queues.levels.vacate key else b.queues.levels)
    b'.queues.levels
  register : b.SameRegister b'
  events_eq : events =
    if b.slotsAt o.side o.price = [slot] then [.levelReleased o.price o.side] else []

/-- The level stays when other orders wait there. -/
theorem Alters.detached (hcut : b.Alters slot (fun o => { o with level := none }) o.side o.price
      ((b.slotsAt o.side o.price).erase slot) b')
    (ho : b.card slot = some o) (hmore : b.slotsAt o.side o.price ≠ [slot]) :
    b.Detached slot o key b' [] := by
  refine ⟨hcut.card_of ho, ?_, ?_, hcut.orders_room, ?_, hcut.register, (if_neg hmore).symm⟩
  · intro s p
    rw [hcut.slotsAt_eq]
    split
    · rename_i hsp
      rw [hsp.1, hsp.2]
    · rfl
  · intro s p
    rw [if_neg]
    · exact hcut.levelKey?_eq s p
    · rintro ⟨rfl, rfl, hlast⟩
      exact hmore hlast
  · rw [if_neg hmore]
    exact hcut.levels_room

/-- The level goes with its last order. -/
theorem Alters.detached_last {b'' : Book}
    (hcut : b.Alters slot (fun o => { o with level := none }) o.side o.price
      ((b.slotsAt o.side o.price).erase slot) b')
    (hclosed : b'.Closed o.side o.price key b'') (ho : b.card slot = some o)
    (hlast : b.slotsAt o.side o.price = [slot]) :
    b.Detached slot o key b'' [.levelReleased o.price o.side] := by
  refine ⟨?_, ?_, ?_, ?_, ?_, hcut.register.trans hclosed.register, (if_pos hlast).symm⟩
  · intro s
    rw [hclosed.card_eq]
    exact hcut.card_of ho s
  · intro s p
    rw [hclosed.slotsAt_eq, hcut.slotsAt_eq]
    split
    · rename_i hsp
      rw [hsp.1, hsp.2]
    · rfl
  · intro s p
    rw [hclosed.levelKey?_eq, hcut.levelKey?_eq]
    by_cases hsp : s = o.side ∧ p = o.price
    · rw [if_pos hsp, if_pos ⟨hsp.1, hsp.2, by rw [hsp.1, hsp.2, hlast]⟩]
    · rw [if_neg hsp, if_neg fun hand => hsp ⟨hand.1, hand.2.1⟩]
  · rw [hclosed.orders]
    exact hcut.orders_room
  · rw [hclosed.levels, if_pos hlast]
    exact hcut.levels_room.vacate key

theorem erase_eq_nil_iff {slots : List Slot} (hslot : slot ∈ slots) :
    slots.erase slot = [] ↔ slots = [slot] := by
  constructor
  · intro h
    have hlen := List.length_erase_of_mem hslot
    rw [h, List.length_nil] at hlen
    have hpos := List.length_pos_of_mem hslot
    obtain ⟨s, rfl⟩ := List.length_eq_one_iff.mp (show slots.length = 1 by omega)
    rw [List.mem_singleton.mp hslot]
  · rintro rfl
    simp

theorem detach_eq (ho : b.queues.orders.get? slot = some o) (hlevel : o.level = some key) :
    b.detach slot = (do
      let q ← b.queues.update slot fun o => { o with level := none }
      q.unlink key slot) >>= fun r => r.2.fetchLevel key >>= fun l =>
        .ok (if l.isEmpty then
          (Book.onHalf { b with queues := r.2.closeLevel key } l.side (·.eraseLevel l.price),
            [.levelReleased l.price l.side])
        else ({ b with queues := r.2 }, [])) := by
  unfold detach
  rw [Pool.fetch_eq ho]
  simp only [bind, Except.bind, hlevel, fromQueues_eq]
  cases b.queues.update slot fun o => { o with level := none } with
  | error fault => rfl
  | ok q =>
    dsimp only
    cases q.unlink key slot with
    | error fault => rfl
    | ok r =>
      dsimp only
      cases r.2.fetchLevel key with
      | error fault => rfl
      | ok l =>
        dsimp only
        split <;> rfl

/-- An order that leaves its queue keeps the book standing. -/
theorem Stands.detach (h : b.Stands members) (ho : b.card slot = some o)
    (hlevel : o.level = some key) :
    Yields b.HasRoom (b.detach slot) fun r =>
      (∃ members', r.1.Stands members') ∧ b.Detached slot o key r.1 r.2 := by
  have hlabel := h.places.labelled ho hlevel
  have hkey := h.shelved.levelKey?_iff.mpr hlabel
  have hslots := h.slotsAt_of_key hkey
  have hslot : slot ∈ members key := h.places.mem_iff.mpr ⟨o, ho, hlevel⟩
  obtain ⟨p, hp, hbare⟩ := Queues.get?_of_card ho
  have hplevel : p.level = some key := by rw [← hlevel, ← hbare]; rfl
  rw [detach_eq hp hplevel]
  refine ((h.places.cut ho hlevel).of_room fun hroom => h.length_lt hroom hkey).bind ?_
  rintro ⟨size, q⟩ ⟨hplaces, halters⟩
  dsimp only at hplaces halters
  obtain ⟨hstands, hcut⟩ := h.alters hkey hplaces halters
  rw [← hslots] at hcut
  obtain ⟨l, hl, hllabel⟩ := Queues.get?_of_label ((halters.label key).trans hlabel)
  have hside : l.side = o.side := congrArg Prod.fst hllabel
  have hprice : l.price = o.price := congrArg Prod.snd hllabel
  have hempty : l.isEmpty = true ↔ members key = [slot] := by
    rw [(hplaces.represents hl).isEmpty_iff, Function.update_self, erase_eq_nil_iff hslot]
  dsimp only
  rw [Queues.fetchLevel_eq hl]
  refine Yields.ok ?_
  -- The level goes exactly when `slot` was its only member, and then its place in the ladder too.
  by_cases hlast : members key = [slot]
  · rw [if_pos (hempty.mpr hlast), hside, hprice]
    have hnone : Function.update members key ((members key).erase slot) key = [] := by
      rw [Function.update_self, hlast]
      simp
    obtain ⟨hstands', hclosed⟩ := hstands.closed ((hcut.levelKey?_eq ..).trans hkey) hnone
    exact ⟨⟨_, hstands'⟩, hcut.detached_last hclosed ho (hslots.trans hlast)⟩
  · rw [if_neg fun heq => hlast (hempty.mp heq)]
    exact ⟨⟨_, hstands⟩, hcut.detached ho fun heq => hlast (hslots ▸ heq)⟩

end Book

end PriceTime
