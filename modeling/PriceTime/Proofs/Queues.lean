import PriceTime.Proofs.Level
import PriceTime.Queues

/-!
# Level queues over one pool

All levels keep their orders in one pool. The queues thread a family of lists, one for each level
key, when each level represents its list, no slot is in two lists, and an order in no list has no
neighbours. An operation on one level changes the list of that level only.

* `Queues.Threads.append`, `Queues.Threads.unlink`: one list gets or loses one slot.
* `Queues.Threads.shrink`: an order of a level gets smaller in its place.
* `Queues.Threads.acquire`, `Queues.Threads.release`: an order in no list comes and goes.
* `Queues.Threads.openLevel`, `Queues.Threads.closeLevel`: a level with an empty list comes and goes.
-/

namespace PriceTime

namespace Queues

variable {q q' q'' : Queues} {members : LevelKey → List Slot} {key : LevelKey} {slot : Slot}
  {l : Level} {o : Order} {f g : Order → Order} {room : Prop}

/-- The order in a slot, without its links. -/
def card (q : Queues) (slot : Slot) : Option Order :=
  (q.orders.get? slot).map Order.bare

/-- The side and the price of the level with a key. -/
def label (q : Queues) (key : LevelKey) : Option (Side × Int32) :=
  (q.levels.get? key).map Level.label

theorem card_eq (ho : q.orders.get? slot = some o) : q.card slot = some o.bare := by
  rw [card, ho]
  rfl

theorem label_eq (hl : q.levels.get? key = some l) : q.label key = some l.label := by
  rw [label, hl]
  rfl

theorem get?_of_card (h : q.card slot = some o) : ∃ o', q.orders.get? slot = some o' ∧ o'.bare = o :=
  Option.map_eq_some_iff.mp h

theorem get?_of_label {place : Side × Int32} (h : q.label key = some place) :
    ∃ l, q.levels.get? key = some l ∧ l.label = place :=
  Option.map_eq_some_iff.mp h

theorem card_eq_none_iff : q.card slot = none ↔ q.orders.get? slot = none :=
  Option.map_eq_none_iff

theorem label_eq_none_iff : q.label key = none ↔ q.levels.get? key = none :=
  Option.map_eq_none_iff

/-- Each level represents its list of slots, the lists are disjoint, and an order in none of them
has no neighbours. -/
structure Threads (q : Queues) (members : LevelKey → List Slot) : Prop where
  orders_tidy : q.orders.Tidy
  levels_tidy : q.levels.Tidy
  represents : ∀ {key l}, q.levels.get? key = some l → l.Represents q.orders (members key)
  disjoint : ∀ {key key' slot}, slot ∈ members key → slot ∈ members key' → key = key'
  vacant : ∀ {key}, q.levels.get? key = none → members key = []
  loose : ∀ {slot o}, q.orders.get? slot = some o → (∀ key, slot ∉ members key) →
    o.prev = none ∧ o.next = none

/-- `q'` is `q` with the order in `slot` changed by `f`, apart from links, sums and numbers. -/
structure Alters (q : Queues) (slot : Slot) (f : Order → Order) (q' : Queues) : Prop where
  orders_room : Arena.SameRoom q.orders q'.orders
  levels_room : Arena.SameRoom q.levels q'.levels
  card : ∀ s, q'.card s = if s = slot then (q.card s).map f else q.card s
  label : ∀ k, q'.label k = q.label k

theorem Alters.trans (h : q.Alters slot f q') (h' : q'.Alters slot g q'') :
    q.Alters slot (g ∘ f) q'' where
  orders_room := h.orders_room.trans h'.orders_room
  levels_room := h.levels_room.trans h'.levels_room
  card s := by
    rw [h'.card, h.card]
    split <;> simp
  label k := by rw [h'.label, h.label]

/-- A change of an order that leaves its links alone. -/
def KeepsLinks (f : Order → Order) : Prop :=
  ∀ o, (f o).prev = o.prev ∧ (f o).next = o.next ∧ (f o).bare = f o.bare

theorem label_set (hl : q.levels.get? key = some l) {l' : Level} (hlabel : l'.label = l.label)
    (k : LevelKey) :
    ((q.levels.set key l').get? k).map Level.label = (q.levels.get? k).map Level.label := by
  rw [Arena.get?_set]
  split
  · rename_i hk
    rw [hk, hl]
    exact congrArg some hlabel
  · rfl

theorem fetchLevel_eq (hl : q.levels.get? key = some l) : q.fetchLevel key = .ok l := by
  simp [fetchLevel, hl]

theorem update_eq (ho : q.orders.get? slot = some o) (f : Order → Order) :
    q.update slot f = .ok ⟨q.orders.modify slot f, q.levels⟩ := by
  have hpool := Pool.update_eq ho f
  obtain ⟨orders, levels⟩ := q
  simp only [update, hpool, bind, Except.bind]
  rfl

theorem reduce_eq (hl : q.levels.get? key = some l) (lost : UInt32) :
    q.reduce key lost = l.reduce lost >>= fun l' => .ok ⟨q.orders, q.levels.set key l'⟩ := by
  rw [reduce, fetchLevel_eq hl]
  rfl

theorem update_reduce_eq (ho : q.orders.get? slot = some o) (hl : q.levels.get? key = some l)
    (f : Order → Order) (lost : UInt32) :
    (q.update slot f >>= fun q => q.reduce key lost) =
      l.reduce lost >>= fun l' => .ok ⟨q.orders.modify slot f, q.levels.set key l'⟩ := by
  rw [update_eq ho, ok_bind]
  exact reduce_eq (q := ⟨q.orders.modify slot f, q.levels⟩) hl lost

theorem fill_reduce_eq (ho : q.orders.get? slot = some o) (hl : q.levels.get? key = some l)
    (quantity : UInt32) :
    (q.fill slot quantity >>= fun r => r.2.reduce key r.1 >>= fun q => .ok (r.1, q)) =
      l.reduce (o.fill quantity).1 >>= fun l' => .ok ((o.fill quantity).1,
        ⟨q.orders.modify slot fun o => (o.fill quantity).2, q.levels.set key l'⟩) := by
  have hfill : q.fill slot quantity = .ok ((o.fill quantity).1,
      ⟨q.orders.modify slot fun o => (o.fill quantity).2, q.levels⟩) := by
    have hset : q.orders.set slot (o.fill quantity).2 =
        q.orders.modify slot fun o => (o.fill quantity).2 :=
      Arena.modify_congr ho rfl
    rw [← hset]
    obtain ⟨orders, levels⟩ := q
    dsimp only at ho
    simp only [fill, Pool.fill, ho, bind, Except.bind]
    rfl
  rw [hfill, ok_bind]
  dsimp only
  rw [reduce_eq (q := ⟨Arena.modify q.orders slot fun o => (o.fill quantity).2, q.levels⟩) hl,
    bind_assoc]
  rfl

namespace Threads

theorem empty : Queues.empty.Threads fun _ => [] where
  orders_tidy := Arena.Tidy.empty
  levels_tidy := Arena.Tidy.empty
  represents h := by simp [Queues.empty] at h
  disjoint h := by cases h
  vacant _ := rfl
  loose h := by simp [Queues.empty] at h

theorem exists_level (h : q.Threads members) (hslot : slot ∈ members key) :
    ∃ l, q.levels.get? key = some l := by
  cases hl : q.levels.get? key with
  | some l => exact ⟨l, rfl⟩
  | none =>
    rw [h.vacant hl] at hslot
    cases hslot

theorem exists_order (h : q.Threads members) (hslot : slot ∈ members key) :
    ∃ o, q.orders.get? slot = some o := by
  obtain ⟨l, hl⟩ := h.exists_level hslot
  exact (h.represents hl).chain.exists_order hslot

theorem nodup (h : q.Threads members) (key : LevelKey) : (members key).Nodup := by
  cases hl : q.levels.get? key with
  | some l => exact (h.represents hl).nodup
  | none => simp [h.vacant hl]

/-- No list is longer than the number of all orders. -/
theorem length_le_size (h : q.Threads members) (key : LevelKey) :
    (members key).length ≤ q.orders.size := by
  cases hl : q.levels.get? key with
  | some l => exact (h.represents hl).chain.length_le_size h.orders_tidy (h.nodup key)
  | none => simp [h.vacant hl]

/-- The lists are read off the levels. -/
theorem map_fst_ordersOf (h : q.Threads members) (hl : q.levels.get? key = some l) :
    (q.ordersOf l).map Prod.fst = members key :=
  (h.represents hl).map_fst_orders h.orders_tidy

/-- After a change of one level and of orders only it can hold, the other levels stand as before. -/
theorem replace {slots : List Slot} {l' : Level} {pool' : Pool} (h : q.Threads members)
    (hl : q.levels.get? key = some l) (hl' : l'.Represents pool' slots)
    (hroom : Arena.SameRoom q.orders pool')
    (hnone : ∀ s, pool'.get? s = none ↔ q.orders.get? s = none)
    (hframe : ∀ k, k ≠ key → ∀ s ∈ members k, pool'.get? s = q.orders.get? s)
    (hslots : ∀ s ∈ slots, s ∈ members key ∨ ∀ k, s ∉ members k)
    (hloose : ∀ s o, pool'.get? s = some o → s ∉ slots → (∀ k, k ≠ key → s ∉ members k) →
      o.prev = none ∧ o.next = none) :
    (Queues.mk pool' (q.levels.set key l')).Threads (Function.update members key slots) where
  orders_tidy := h.orders_tidy.of_sameRoom hroom hnone
  levels_tidy := h.levels_tidy.set key l'
  represents := by
    intro k m hm
    rw [Arena.get?_set] at hm
    by_cases hk : k = key
    · subst hk
      rw [if_pos rfl, hl] at hm
      cases hm
      rw [Function.update_self]
      exact hl'
    · rw [if_neg hk] at hm
      rw [Function.update_of_ne hk]
      exact (h.represents hm).frame (hframe k hk)
  disjoint := by
    intro k k' s hs hs'
    have hone : ∀ k, k ≠ key → s ∈ members k → s ∉ slots := by
      intro k hk hs hin
      rcases hslots s hin with hin | hin
      · exact hk (h.disjoint hs hin)
      · exact hin k hs
    by_cases hk : k = key <;> by_cases hk' : k' = key
    · rw [hk, hk']
    · subst hk
      rw [Function.update_self] at hs
      rw [Function.update_of_ne hk'] at hs'
      exact absurd hs (hone k' hk' hs')
    · subst hk'
      rw [Function.update_self] at hs'
      rw [Function.update_of_ne hk] at hs
      exact absurd hs' (hone k hk hs)
    · rw [Function.update_of_ne hk] at hs
      rw [Function.update_of_ne hk'] at hs'
      exact h.disjoint hs hs'
  vacant := by
    intro k hk
    rw [Arena.get?_set] at hk
    by_cases heq : k = key
    · subst heq
      rw [if_pos rfl, hl] at hk
      cases hk
    · rw [if_neg heq] at hk
      rw [Function.update_of_ne heq]
      exact h.vacant hk
  loose := by
    intro s o ho hnot
    refine hloose s o ho ?_ ?_
    · have := hnot key
      rwa [Function.update_self] at this
    · intro k hk
      have := hnot k
      rwa [Function.update_of_ne hk] at this

/-- A loose order put at the end of a level comes last there. -/
theorem append (h : q.Threads members) (hl : q.levels.get? key = some l)
    (ho : q.orders.get? slot = some o) (hloose : ∀ k, slot ∉ members k) :
    Yields room (q.append key slot) fun q' =>
      q'.Threads (Function.update members key (members key ++ [slot])) ∧ q.Alters slot id q' := by
  obtain ⟨l', pool', hrun, hrep, hlabel, hrelinks⟩ :=
    (h.represents hl).append (hloose key) ho
  have heq : q.append key slot = .ok ⟨pool', q.levels.set key l'⟩ := by
    unfold Queues.append
    rw [fetchLevel_eq hl]
    simp only [bind, Except.bind, hrun]
    rfl
  have hnone : ∀ s, pool'.get? s = none ↔ q.orders.get? s = none := by
    intro s
    rw [← Option.map_eq_none_iff (f := Order.bare), hrelinks.bare, Option.map_eq_none_iff]
  rw [heq]
  refine Yields.ok ⟨?_, ?_⟩
  · refine h.replace hl hrep hrelinks.room hnone ?_ ?_ ?_
    · intro k hk s hs
      refine hrelinks.frame s ?_
      rw [List.mem_append, List.mem_singleton, not_or]
      exact ⟨fun hs' => hk (h.disjoint hs hs'), fun heq => hloose k (heq ▸ hs)⟩
    · intro s hs
      rcases List.mem_append.mp hs with hs | hs
      · exact Or.inl hs
      · rw [List.mem_singleton.mp hs]
        exact Or.inr hloose
    · intro s o' ho' hnot hother
      rw [hrelinks.frame s hnot] at ho'
      refine h.loose ho' ?_
      intro k hs
      by_cases hk : k = key
      · subst hk
        exact hnot (List.mem_append_left _ hs)
      · exact hother k hk hs
  · refine ⟨hrelinks.room, Arena.sameRoom_set q.levels key l', ?_, label_set hl hlabel⟩
    intro s
    rw [Option.map_id]
    refine (hrelinks.bare s).trans ?_
    split <;> rfl

/-- An order taken out of its level is in no list, and the others keep their order. -/
theorem unlink (h : q.Threads members) (hl : q.levels.get? key = some l)
    (hslot : slot ∈ members key) (ho : q.orders.get? slot = some o) :
    Yields ((members key).length < 2 ^ 32) (q.unlink key slot) fun r =>
      r.1 = o.size ∧
        r.2.Threads (Function.update members key ((members key).erase slot)) ∧
        q.Alters slot id r.2 := by
  have heq : q.unlink key slot = l.unlink slot q.orders >>= fun r =>
      .ok (r.1, ⟨r.2.2, q.levels.set key r.2.1⟩) := by
    unfold Queues.unlink
    rw [fetchLevel_eq hl]
    rfl
  rw [heq]
  refine ((h.represents hl).unlink hslot ho).bind ?_
  rintro ⟨size, l', pool'⟩ ⟨hsize, hrep, hlabel, hrelinks, hlinks⟩
  dsimp only at hsize hrep hlabel hrelinks hlinks
  have hnone : ∀ s, pool'.get? s = none ↔ q.orders.get? s = none := by
    intro s
    rw [← Option.map_eq_none_iff (f := Order.bare), hrelinks.bare, Option.map_eq_none_iff]
  refine Yields.ok ⟨hsize, ?_, ?_⟩
  · refine h.replace hl hrep hrelinks.room hnone ?_ ?_ ?_
    · intro k hk s hs
      exact hrelinks.frame s fun hs' => hk (h.disjoint hs hs')
    · intro s hs
      exact Or.inl (List.mem_of_mem_erase hs)
    · intro s o' ho' hnot hother
      by_cases hs : s = slot
      · subst hs
        obtain ⟨p, hp, hprev, hnext⟩ := Pool.links_eq_some.mp hlinks
        rw [ho'] at hp
        cases hp
        exact ⟨hprev, hnext⟩
      · have hmem : s ∉ members key := fun hs' => hnot ((List.mem_erase_of_ne hs).mpr hs')
        rw [hrelinks.frame s hmem] at ho'
        refine h.loose ho' ?_
        intro k hs'
        by_cases hk : k = key
        · subst hk
          exact hmem hs'
        · exact hother k hk hs'
  · refine ⟨hrelinks.room, Arena.sameRoom_set q.levels key l', ?_, label_set hl hlabel⟩
    intro s
    rw [Option.map_id]
    refine (hrelinks.bare s).trans ?_
    split <;> rfl

/-- A change of an order that leaves its links alone, and its size as well if a level holds it. -/
theorem update (h : q.Threads members) (ho : q.orders.get? slot = some o) (f : Order → Order)
    (hf : KeepsLinks f) (hsize : ∀ k, slot ∈ members k → (f o).size = o.size) :
    Yields room (q.update slot f) fun q' => q'.Threads members ∧ q.Alters slot f q' := by
  have hget := Arena.get?_modify q.orders slot f
  have hlinks : ∀ s, Pool.links (q.orders.modify slot f) s = q.orders.links s := by
    intro s
    rw [Pool.links, Pool.links, hget]
    split
    · rw [Option.map_map]
      congr 1
      funext p
      simp [hf p]
    · rfl
  rw [update_eq ho]
  refine Yields.ok ⟨?_, ?_⟩
  · refine ⟨h.orders_tidy.modify slot f, h.levels_tidy, ?_, h.disjoint, h.vacant, ?_⟩
    · intro k l hl
      refine (h.represents hl).congr (fun s _ => hlinks s) ?_
      unfold Pool.sizeSum
      congr 1
      refine List.map_congr_left fun s hs => ?_
      rw [hget]
      split
      · rename_i heq
        subst heq
        rw [ho, Option.map_some, Arena.share_some, Arena.share_some, hsize k hs]
      · rfl
    · intro s p hp hnot
      have hsome : q.orders.links s = some (p.prev, p.next) := by
        rw [← hlinks]
        exact Pool.links_eq_some.mpr ⟨p, hp, rfl, rfl⟩
      obtain ⟨p', hp', hprev, hnext⟩ := Pool.links_eq_some.mp hsome
      have := h.loose hp' hnot
      rwa [hprev, hnext] at this
  · refine ⟨Arena.sameRoom_modify _ slot f, Arena.SameRoom.refl _, ?_, fun _ => rfl⟩
    intro s
    show (Arena.get? (q.orders.modify slot f) s).map Order.bare = _
    rw [hget, card]
    split
    · rw [Option.map_map, Option.map_map]
      congr 1
      funext p
      exact (hf p).2.2
    · rfl

/-- An order of a level gets smaller in its place, and the sum of the level with it. -/
theorem shrink {lost : UInt32} (h : q.Threads members) (hl : q.levels.get? key = some l)
    (hslot : slot ∈ members key) (ho : q.orders.get? slot = some o) (hf : KeepsLinks f)
    (hsize : (f o).size.toNat + lost.toNat = o.size.toNat) :
    Yields ((members key).length < 2 ^ 32)
      (l.reduce lost >>= fun l' => .ok ⟨q.orders.modify slot f, q.levels.set key l'⟩) fun q' =>
      q'.Threads members ∧ q.Alters slot f q' := by
  refine ((h.represents hl).reduce hslot ho hsize (hf o).1 (hf o).2.1).bind ?_
  rintro l' ⟨hrep, hlabel⟩
  have hget := Arena.get?_modify q.orders slot f
  refine Yields.ok ⟨?_, ?_⟩
  · have := h.replace hl hrep (Arena.sameRoom_modify _ slot f)
      (Arena.get?_modify_eq_none _ slot f) ?_ (fun s hs => Or.inl hs) ?_
    · rwa [Function.update_eq_self] at this
    · intro k hk s hs
      rw [hget, if_neg]
      rintro rfl
      exact hk (h.disjoint hs hslot)
    · intro s p hp hnot hother
      have hne : s ≠ slot := by
        rintro rfl
        exact hnot hslot
      rw [hget, if_neg hne] at hp
      refine h.loose hp ?_
      intro k hs
      by_cases hk : k = key
      · subst hk
        exact hnot hs
      · exact hother k hk hs
  · refine ⟨Arena.sameRoom_modify _ slot f, Arena.sameRoom_set _ key l', ?_, label_set hl hlabel⟩
    intro s
    show (Arena.get? (q.orders.modify slot f) s).map Order.bare = _
    rw [hget, card]
    split
    · rw [Option.map_map, Option.map_map]
      congr 1
      funext p
      exact (hf p).2.2
    · rfl

/-! ## Orders and levels come and go -/

theorem acquire_eq (q : Queues) (o : Order) :
    q.acquire o = (q.orders.nextKey, ⟨(q.orders.insert o).2, q.levels⟩) := by
  obtain ⟨orders, levels⟩ := q
  rw [← Arena.fst_insert orders o]
  rfl

/-- A new order without links is in no list. -/
theorem acquire (h : q.Threads members) (hprev : o.prev = none) (hnext : o.next = none) :
    (q.acquire o).2.Threads members := by
  rw [acquire_eq]
  have hget := h.orders_tidy.get?_insert o
  refine ⟨h.orders_tidy.insert o, h.levels_tidy, ?_, h.disjoint, h.vacant, ?_⟩
  · intro k l hl
    refine (h.represents hl).frame fun s hs => ?_
    rw [hget, if_neg]
    rintro rfl
    obtain ⟨p, hp⟩ := h.exists_order hs
    rw [h.orders_tidy.get?_nextKey] at hp
    cases hp
  · intro s p hp hnot
    rw [hget] at hp
    split at hp
    · cases hp
      exact ⟨hprev, hnext⟩
    · exact h.loose hp hnot

theorem card_acquire (h : q.Threads members) (o : Order) (s : Slot) :
    (q.acquire o).2.card s = if s = q.orders.nextKey then some o.bare else q.card s := by
  rw [acquire_eq, card, h.orders_tidy.get?_insert]
  split <;> rfl

theorem release_eq (ho : q.orders.get? slot = some o) :
    q.release slot = .ok (o, ⟨q.orders.vacate slot, q.levels⟩) := by
  obtain ⟨orders, levels⟩ := q
  simp only [release, ho]

/-- The slot of an order in no list can be given back. -/
theorem release (h : q.Threads members) (ho : q.orders.get? slot = some o)
    (hloose : ∀ k, slot ∉ members k) :
    (Queues.mk (q.orders.vacate slot) q.levels).Threads members := by
  have hget := Arena.get?_vacate q.orders slot
  refine ⟨h.orders_tidy.vacate ho, h.levels_tidy, ?_, h.disjoint, h.vacant, ?_⟩
  · intro k l hl
    refine (h.represents hl).frame fun s hs => ?_
    rw [hget, if_neg]
    rintro rfl
    exact hloose k hs
  · intro s p hp hnot
    rw [hget] at hp
    split at hp
    · cases hp
    · exact h.loose hp hnot

theorem card_vacate (q : Queues) (slot s : Slot) :
    (Queues.mk (q.orders.vacate slot) q.levels).card s = if s = slot then none else q.card s := by
  rw [card, Arena.get?_vacate]
  split <;> rfl

theorem openLevel_eq (q : Queues) (price : Int32) (side : Side) :
    q.openLevel price side =
      (q.levels.nextKey, ⟨q.orders, (q.levels.insert { price, side }).2⟩) := by
  obtain ⟨orders, levels⟩ := q
  rw [← Arena.fst_insert levels { price, side }]
  rfl

/-- A new level starts with an empty list. -/
theorem openLevel (h : q.Threads members) (price : Int32) (side : Side) :
    (q.openLevel price side).2.Threads members := by
  rw [openLevel_eq]
  have hget := h.levels_tidy.get?_insert { price, side }
  refine ⟨h.orders_tidy, h.levels_tidy.insert _, ?_, h.disjoint, ?_, h.loose⟩
  · intro k l hl
    rw [hget] at hl
    split at hl
    · rename_i hk
      cases hl
      rw [hk, h.vacant h.levels_tidy.get?_nextKey]
      exact Level.Represents.empty _ _ _
    · exact h.represents hl
  · intro k hk
    rw [hget] at hk
    split at hk
    · cases hk
    · exact h.vacant hk

theorem label_openLevel (h : q.Threads members) (price : Int32) (side : Side) (k : LevelKey) :
    (q.openLevel price side).2.label k =
      if k = q.levels.nextKey then some (side, price) else q.label k := by
  rw [openLevel_eq, label, h.levels_tidy.get?_insert]
  split <;> rfl

/-- A level with an empty list can be given up. -/
theorem closeLevel (h : q.Threads members) (hl : q.levels.get? key = some l)
    (hempty : members key = []) : (q.closeLevel key).Threads members := by
  have hget := Arena.get?_vacate q.levels key
  refine ⟨h.orders_tidy, h.levels_tidy.vacate hl, ?_, h.disjoint, ?_, h.loose⟩
  · intro k m hm
    rw [show (q.closeLevel key).levels.get? k = _ from hget k] at hm
    split at hm
    · cases hm
    · exact h.represents hm
  · intro k hk
    rw [show (q.closeLevel key).levels.get? k = _ from hget k] at hk
    split at hk
    · rename_i heq
      rw [heq, hempty]
    · exact h.vacant hk

theorem label_closeLevel (q : Queues) (key k : LevelKey) :
    (q.closeLevel key).label k = if k = key then none else q.label k := by
  rw [label, show (q.closeLevel key).levels.get? k = _ from Arena.get?_vacate q.levels key k]
  split <;> rfl

end Threads

end Queues

end PriceTime
