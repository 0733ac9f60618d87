import PriceTime.Proofs.Chain
import PriceTime.Proofs.Outcome

/-!
# Levels and the queues they stand for

A level knows the two ends of its queue, the sum of the sizes and the number of the orders. It
represents a list of slots when the orders in them form a chain with these ends, sum and number. The
sum and the number are kept in machine words, so they are compared as such: with fewer than `2 ^ 32`
orders neither wraps around.

* `Level.Represents.append`: an order put at the end comes last.
* `Level.Represents.unlink`: an order taken out is the only one to go.
* `Level.Represents.reduce`: taking from the sum what an order lost.
* `Level.Represents.orders_eq`: reading the level gives the list.
-/

namespace PriceTime

/-- An order without its links. -/
def Order.bare (o : Order) : Order := { o with prev := none, next := none }

theorem Order.eq_of_bare {o o' : Order} (hbare : o'.bare = o.bare) (hprev : o'.prev = o.prev)
    (hnext : o'.next = o.next) : o' = o := by
  obtain ⟨_, _, _, _, _, _, _, _, _⟩ := o
  obtain ⟨_, _, _, _, _, _, _, _, _⟩ := o'
  cases hbare
  cases hprev
  cases hnext
  rfl

/-- The side and the price of a level. -/
def Level.label (l : Level) : Side × Int32 := (l.side, l.price)

namespace Pool

/-- Change the order in a slot, if a slot is given. -/
def touch (pool : Pool) (slot : Option Slot) (f : Order → Order) : Pool :=
  match slot with
  | some slot => pool.modify slot f
  | none => pool

theorem get?_touch (pool : Pool) (slot : Option Slot) (f : Order → Order) (s : Slot) :
    (pool.touch slot f).get? s = if slot = some s then (pool.get? s).map f else pool.get? s := by
  cases slot with
  | none => simp [touch]
  | some t =>
    rw [touch, Arena.get?_modify]
    by_cases hs : s = t
    · simp [hs]
    · simp [hs, Ne.symm hs]

theorem sameRoom_touch (pool : Pool) (slot : Option Slot) (f : Order → Order) :
    Arena.SameRoom pool (pool.touch slot f) := by
  cases slot with
  | none => exact Arena.SameRoom.refl pool
  | some s => exact Arena.sameRoom_modify pool s f

theorem fetch_eq {pool : Pool} {slot : Slot} {o : Order} (h : pool.get? slot = some o) :
    pool.fetch slot = .ok o := by
  simp [fetch, h]

theorem update_eq {pool : Pool} {slot : Slot} {o : Order} (h : pool.get? slot = some o)
    (f : Order → Order) : pool.update slot f = .ok (pool.modify slot f) := by
  simp [update, h]

/-- Change the order in a slot, if a slot is given. -/
def updateIf (pool : Pool) (slot : Option Slot) (f : Order → Order) : Except Fault Pool :=
  match slot with
  | some slot => pool.update slot f
  | none => .ok pool

/-- The sum of the sizes of the orders in some slots. -/
def sizeSum (pool : Pool) (slots : List Slot) : Nat :=
  (slots.map fun slot => Arena.share (fun o : Order => o.size.toNat) (pool.get? slot)).sum

theorem sizeSum_append (pool : Pool) (slots rest : List Slot) :
    pool.sizeSum (slots ++ rest) = pool.sizeSum slots + pool.sizeSum rest := by
  simp [sizeSum]

theorem sizeSum_cons (pool : Pool) (slot : Slot) (rest : List Slot) {o : Order}
    (h : pool.get? slot = some o) :
    pool.sizeSum (slot :: rest) = o.size.toNat + pool.sizeSum rest := by
  simp [sizeSum, h]

theorem sizeSum_congr {pool pool' : Pool} {slots : List Slot}
    (h : ∀ s ∈ slots, (pool'.get? s).map Order.bare = (pool.get? s).map Order.bare) :
    pool'.sizeSum slots = pool.sizeSum slots := by
  have hbare : ∀ x : Option Order, Arena.share (fun o : Order => o.size.toNat) x =
      Arena.share (fun o : Order => o.size.toNat) (x.map Order.bare) := by
    intro x
    cases x <;> rfl
  unfold sizeSum
  congr 1
  refine List.map_congr_left fun s hs => ?_
  rw [hbare, h s hs, ← hbare]

/-- Free slots have no size. -/
theorem sum_entries (pool : Pool) (slots : List Slot) :
    ((pool.entries slots).map fun entry => entry.2.size.toNat).sum = pool.sizeSum slots := by
  induction slots with
  | nil => rfl
  | cons slot rest ih =>
    unfold entries sizeSum at ih ⊢
    rw [List.filterMap_cons, List.map_cons, List.sum_cons, ← ih]
    cases pool.get? slot with
    | none => simp
    | some o => simp

theorem sizeSum_le (pool : Pool) (slots : List Slot) :
    pool.sizeSum slots ≤ slots.length * (2 ^ 32 - 1) := by
  unfold sizeSum
  refine le_trans (List.sum_le_card_nsmul _ (2 ^ 32 - 1) ?_) (by simp)
  intro n hn
  obtain ⟨s, -, rfl⟩ := List.mem_map.mp hn
  cases pool.get? s with
  | none => exact Nat.zero_le _
  | some o =>
    have := o.size.toNat_lt
    simp only [Arena.share_some]
    omega

/-- Fewer than `2 ^ 32` sizes sum up within a double word. -/
theorem sizeSum_lt {pool : Pool} {slots : List Slot} (h : slots.length < 2 ^ 32) :
    pool.sizeSum slots < 2 ^ 64 := by
  have := pool.sizeSum_le slots
  have : slots.length * (2 ^ 32 - 1) ≤ (2 ^ 32 - 1) * (2 ^ 32 - 1) :=
    Nat.mul_le_mul_right _ (by omega)
  omega

/-- `pool'` is `pool` with other links, in some slots only. -/
structure Relinks (pool pool' : Pool) (slots : List Slot) : Prop where
  room : Arena.SameRoom pool pool'
  bare : ∀ s, (pool'.get? s).map Order.bare = (pool.get? s).map Order.bare
  frame : ∀ s, s ∉ slots → pool'.get? s = pool.get? s

end Pool

namespace Level

theorem append_eq_bind (l : Level) (slot : Slot) (pool : Pool) :
    l.append slot pool = pool.fetch slot >>= fun o =>
      Pool.updateIf (pool.modify slot fun o => { o with prev := l.tail, next := none }) l.tail
        (fun o => { o with next := some slot }) >>= fun pool => .ok
      ({ l with
          head := match l.tail with
            | some _ => l.head
            | none => some slot
          tail := some slot
          count := l.count + 1
          volume := l.volume + o.size.toUInt64 }, pool) := by
  obtain ⟨price, side, volume, count, head, tail⟩ := l
  cases tail <;> rfl

theorem unlink_eq_bind (l : Level) (slot : Slot) (pool : Pool) :
    l.unlink slot pool = pool.fetch slot >>= fun o =>
      pool.updateIf o.prev (fun p => { p with next := o.next }) >>= fun pool =>
      pool.updateIf o.next (fun n => { n with prev := o.prev }) >>= fun pool =>
      if l.count = 0 ∨ l.volume < o.size.toUInt64 then .error .underflow
      else .ok (o.size,
        { l with
          head := match o.prev with
            | some _ => l.head
            | none => o.next
          tail := match o.next with
            | some _ => l.tail
            | none => o.prev
          count := l.count - 1
          volume := l.volume - o.size.toUInt64 },
        pool.modify slot fun o => { o with prev := none, next := none }) := by
  unfold unlink
  congr 1
  funext o
  obtain ⟨id, price, size, side, time, filled, prev, next, level⟩ := o
  cases prev <;> cases next <;> rfl

/-- A level represents the list of the slots of its orders, oldest first. -/
structure Represents (l : Level) (pool : Pool) (slots : List Slot) : Prop where
  nodup : slots.Nodup
  chain : Chain pool none slots none
  head_eq : l.head = slots.head?
  tail_eq : l.tail = slots.getLast?
  volume_eq : l.volume = UInt64.ofNat (pool.sizeSum slots)
  count_eq : l.count = UInt32.ofNat slots.length

namespace Represents

variable {l : Level} {pool pool' : Pool} {slots : List Slot} {slot : Slot} {o : Order}

/-- A level without orders represents the empty list. -/
theorem empty (pool : Pool) (price : Int32) (side : Side) :
    ({ price, side } : Level).Represents pool [] :=
  ⟨List.nodup_nil, trivial, rfl, rfl, rfl, rfl⟩

/-- A level only sees the links of its orders and the sum of their sizes. -/
theorem congr (h : l.Represents pool slots) (hlinks : ∀ s ∈ slots, pool'.links s = pool.links s)
    (hsum : pool'.sizeSum slots = pool.sizeSum slots) : l.Represents pool' slots where
  nodup := h.nodup
  chain := h.chain.congr hlinks
  head_eq := h.head_eq
  tail_eq := h.tail_eq
  volume_eq := by rw [h.volume_eq, hsum]
  count_eq := h.count_eq

/-- A level does not see what happens in other slots. -/
theorem frame (h : l.Represents pool slots) (hframe : ∀ s ∈ slots, pool'.get? s = pool.get? s) :
    l.Represents pool' slots :=
  h.congr (fun s hs => by rw [Pool.links, Pool.links, hframe s hs])
    (Pool.sizeSum_congr fun s hs => by rw [hframe s hs])

theorem orders_eq (h : l.Represents pool slots) (htidy : pool.Tidy) :
    l.orders pool = pool.entries slots := by
  rw [Level.orders, h.head_eq]
  exact h.chain.walk_eq (h.chain.length_le_size htidy h.nodup)

theorem map_fst_orders (h : l.Represents pool slots) (htidy : pool.Tidy) :
    (l.orders pool).map Prod.fst = slots := by
  rw [h.orders_eq htidy, h.chain.map_fst_entries]

theorem sum_orders (h : l.Represents pool slots) (htidy : pool.Tidy) :
    ((l.orders pool).map fun entry => entry.2.size.toNat).sum = pool.sizeSum slots := by
  rw [h.orders_eq htidy, Pool.sum_entries]

theorem isEmpty_iff (h : l.Represents pool slots) : l.isEmpty = true ↔ slots = [] := by
  unfold Level.isEmpty
  rw [h.head_eq, h.tail_eq, h.count_eq]
  cases slots <;> simp

theorem toNat_count (h : l.Represents pool slots) (hlen : slots.length < 2 ^ 32) :
    l.count.toNat = slots.length := by
  rw [h.count_eq, UInt32.toNat_ofNat_of_lt' hlen]

theorem toNat_volume (h : l.Represents pool slots) (hlen : slots.length < 2 ^ 32) :
    l.volume.toNat = pool.sizeSum slots := by
  rw [h.volume_eq, UInt64.toNat_ofNat_of_lt' (Pool.sizeSum_lt hlen)]

/-- A level is its side, its price and what it represents. -/
theorem eq_of_label {l' : Level} (h : l.Represents pool slots) (h' : l'.Represents pool slots)
    (hlabel : l'.label = l.label) : l' = l := by
  obtain ⟨-, -, hhead, htail, hvolume, hcount⟩ := h
  obtain ⟨-, -, hhead', htail', hvolume', hcount'⟩ := h'
  obtain ⟨price, side, volume, count, head, tail⟩ := l
  obtain ⟨price', side', volume', count', head', tail'⟩ := l'
  obtain ⟨rfl, rfl⟩ := Prod.mk.inj hlabel
  dsimp only at hhead htail hvolume hcount hhead' htail' hvolume' hcount'
  rw [hhead, htail, hvolume, hcount, hhead', htail', hvolume', hcount']

/-! ### Putting an order at the end -/

/-- The pool after the order in `slot` was put behind `tail`, the end of a queue. -/
def joined (pool : Pool) (slot : Slot) (tail : Option Slot) : Pool :=
  Pool.touch (pool.modify slot fun o => { o with prev := tail, next := none }) tail
    fun o => { o with next := some slot }

theorem get?_joined (pool : Pool) {slot : Slot} {tail : Option Slot} (hnew : tail ≠ some slot)
    (s : Slot) :
    (joined pool slot tail).get? s = (pool.get? s).map fun o =>
      { o with
        prev := if s = slot then tail else o.prev
        next := if tail = some s then some slot else if s = slot then none else o.next } := by
  rw [joined, Pool.get?_touch, Arena.get?_modify]
  rcases eq_or_ne s slot with rfl | hs
  · simp [hnew]
  · cases pool.get? s <;> by_cases hlast : tail = some s <;> simp [hs, hlast]

theorem append_eq (ho : pool.get? slot = some o)
    (htail : ∀ tail, l.tail = some tail → ∃ p, pool.get? tail = some p) :
    l.append slot pool = .ok
      ({ l with
          head := match l.tail with
            | some _ => l.head
            | none => some slot
          tail := some slot
          count := l.count + 1
          volume := l.volume + o.size.toUInt64 },
        joined pool slot l.tail) := by
  unfold Level.append joined
  rw [Pool.fetch_eq ho]
  obtain ⟨price, side, volume, count, head, tail⟩ := l
  cases tail with
  | none => rfl
  | some tail =>
    obtain ⟨p, hp⟩ := htail tail rfl
    have hp' : ∃ p', Arena.get? (Arena.modify pool slot
        fun o => { o with prev := some tail, next := none }) tail = some p' := by
      rw [Arena.get?_modify, hp]
      split <;> exact ⟨_, rfl⟩
    obtain ⟨p', hp'⟩ := hp'
    simp only [bind, Except.bind, pure, Except.pure, Pool.touch, Pool.update_eq hp']

theorem chain_joined (h : Chain pool none slots none) (hnodup : slots.Nodup) (hnew : slot ∉ slots)
    (ho : pool.get? slot = some o) :
    Chain (joined pool slot slots.getLast?) none (slots ++ [slot]) none := by
  have hlast : slots.getLast? ≠ some slot := fun heq => hnew (List.mem_of_getLast? heq)
  refine (Chain.append_iff slots [slot]).mpr ⟨?_, ?_⟩
  · refine h.setAfter hnodup ?_
    intro s hs
    have hne : s ≠ slot := fun heq => hnew (heq ▸ hs)
    rw [Pool.links, get?_joined pool hlast, Pool.links, Option.map_map, Option.map_map]
    congr 1
    funext o
    simp [hne]
  · refine Chain.singleton_iff.mpr ?_
    rw [Pool.links, get?_joined pool hlast, ho]
    simp [hlast]

/-- An order put at the end of a level comes last. -/
theorem append (h : l.Represents pool slots) (hnew : slot ∉ slots) (ho : pool.get? slot = some o) :
    ∃ l' pool', l.append slot pool = .ok (l', pool') ∧ l'.Represents pool' (slots ++ [slot]) ∧
      l'.label = l.label ∧ pool.Relinks pool' (slots ++ [slot]) := by
  have hlast : slots.getLast? ≠ some slot := fun heq => hnew (List.mem_of_getLast? heq)
  have htail : ∀ tail, l.tail = some tail → ∃ p, pool.get? tail = some p := by
    intro tail ht
    rw [h.tail_eq] at ht
    exact h.chain.exists_order (List.mem_of_getLast? ht)
  have hbare : ∀ s, ((joined pool slot slots.getLast?).get? s).map Order.bare =
      (pool.get? s).map Order.bare := by
    intro s
    rw [get?_joined pool hlast, Option.map_map]
    rfl
  refine ⟨_, _, append_eq ho htail, ?_, rfl, ?_⟩
  · rw [h.tail_eq]
    refine ⟨?_, chain_joined h.chain h.nodup hnew ho, ?_, by simp, ?_, ?_⟩
    · refine List.nodup_append.mpr ⟨h.nodup, by simp, ?_⟩
      intro a ha b hb
      rw [List.mem_singleton.mp hb]
      rintro rfl
      exact hnew ha
    · show (match slots.getLast? with
        | some _ => l.head
        | none => some slot) = (slots ++ [slot]).head?
      rw [h.head_eq]
      rcases List.eq_nil_or_concat slots with rfl | ⟨older, last, rfl⟩
      · rfl
      · rw [List.concat_eq_append, List.getLast?_concat]
        cases older <;> rfl
    · show l.volume + o.size.toUInt64 = _
      rw [Pool.sizeSum_congr fun s _ => hbare s, Pool.sizeSum_append, Pool.sizeSum_cons _ _ _ ho,
        UInt64.ofNat_add, h.volume_eq]
      simp [Pool.sizeSum]
    · show l.count + 1 = _
      rw [h.count_eq, List.length_append, List.length_singleton, UInt32.ofNat_add]
      rfl
  · rw [h.tail_eq]
    refine ⟨?_, hbare, ?_⟩
    · exact (Arena.sameRoom_modify pool slot _).trans (Pool.sameRoom_touch _ _ _)
    · intro s hs
      rw [List.mem_append, List.mem_singleton, not_or] at hs
      have hne : ¬ slots.getLast? = some s := fun heq => hs.1 (List.mem_of_getLast? heq)
      rw [get?_joined pool hlast]
      simp [hs.2, hne]

/-! ### Taking an order out -/

/-- The pool after the order `o` in `slot` was taken out of its queue: its neighbours are linked to
each other. -/
def spliced (pool : Pool) (slot : Slot) (o : Order) : Pool :=
  Arena.modify
    ((pool.touch o.prev fun p => { p with next := o.next }).touch o.next
      fun n => { n with prev := o.prev })
    slot fun o => { o with prev := none, next := none }

theorem get?_spliced (pool : Pool) (slot : Slot) (o : Order) (s : Slot) :
    (spliced pool slot o).get? s = (pool.get? s).map fun p =>
      { p with
        prev := if s = slot then none else if o.next = some s then o.prev else p.prev
        next := if s = slot then none else if o.prev = some s then o.next else p.next } := by
  rw [spliced, Arena.get?_modify, Pool.get?_touch, Pool.get?_touch]
  rcases eq_or_ne s slot with rfl | hs
  · cases pool.get? s <;> by_cases hnext : o.next = some s <;>
      by_cases hprev : o.prev = some s <;> simp [hnext, hprev]
  · cases pool.get? s <;> by_cases hnext : o.next = some s <;>
      by_cases hprev : o.prev = some s <;> simp [hs, hnext, hprev]

theorem unlink_eq (ho : pool.get? slot = some o)
    (hprev : ∀ prev, o.prev = some prev → ∃ p, pool.get? prev = some p)
    (hnext : ∀ next, o.next = some next → ∃ n, pool.get? next = some n) :
    l.unlink slot pool =
      if l.count = 0 ∨ l.volume < o.size.toUInt64 then .error .underflow
      else .ok (o.size,
        { l with
          head := match o.prev with
            | some _ => l.head
            | none => o.next
          tail := match o.next with
            | some _ => l.tail
            | none => o.prev
          count := l.count - 1
          volume := l.volume - o.size.toUInt64 },
        spliced pool slot o) := by
  unfold Level.unlink spliced
  rw [Pool.fetch_eq ho]
  obtain ⟨id, price, size, side, time, filled, prev, next, level⟩ := o
  cases prev with
  | none =>
    cases next with
    | none => simp only [bind, Except.bind, pure, Except.pure, Pool.touch]; split <;> rfl
    | some next =>
      obtain ⟨n, hn⟩ := hnext next rfl
      simp only [bind, Except.bind, pure, Except.pure, Pool.touch, Pool.update_eq hn]
      split <;> rfl
  | some prev =>
    obtain ⟨p, hp⟩ := hprev prev rfl
    cases next with
    | none =>
      simp only [bind, Except.bind, pure, Except.pure, Pool.touch, Pool.update_eq hp]
      split <;> rfl
    | some next =>
      obtain ⟨n, hn⟩ := hnext next rfl
      have hn' : ∃ n', Arena.get? (Arena.modify pool prev
          fun p => { p with next := some next }) next = some n' := by
        rw [Arena.get?_modify, hn]
        split <;> exact ⟨_, rfl⟩
      obtain ⟨n', hn'⟩ := hn'
      simp only [bind, Except.bind, pure, Except.pure, Pool.touch, Pool.update_eq hp,
        Pool.update_eq hn']
      split <;> rfl

/-- The two parts of a queue around an order are linked to each other once it is taken out. -/
theorem chain_spliced {older newer : List Slot}
    (h : Chain pool none (older ++ slot :: newer) none) (hnodup : (older ++ slot :: newer).Nodup)
    (hprev : o.prev = older.getLast?) (hnext : o.next = newer.head?) :
    Chain (spliced pool slot o) none (older ++ newer) none := by
  obtain ⟨holder, hslot, hnewer⟩ := (Chain.append_iff older (slot :: newer)).mp h
  obtain ⟨hnodup₁, hnodup₂, hdisj⟩ := List.nodup_append.mp hnodup
  obtain ⟨hnot, hnodup₂⟩ := List.nodup_cons.mp hnodup₂
  refine (Chain.append_iff older newer).mpr ⟨?_, ?_⟩
  · refine holder.setAfter hnodup₁ ?_
    intro s hs
    have hne : s ≠ slot := hdisj s hs slot (List.mem_cons_self ..)
    have hnot : ¬ newer.head? = some s := fun heq =>
      hdisj s hs s (List.mem_cons_of_mem _ (List.mem_of_head? heq)) rfl
    rw [Pool.links, get?_spliced, Pool.links, Option.map_map, Option.map_map]
    congr 1
    funext p
    simp [hne, hnot, hprev, hnext]
  · refine hnewer.setBefore hnodup₂ ?_
    intro s hs
    have hne : s ≠ slot := fun heq => hnot (heq ▸ hs)
    have hnot : ¬ older.getLast? = some s := fun heq =>
      hdisj s (List.mem_of_getLast? heq) s (List.mem_cons_of_mem _ hs) rfl
    rw [Pool.links, get?_spliced, Pool.links, Option.map_map, Option.map_map]
    congr 1
    funext p
    simp [hne, hnot, hprev, hnext]

/-- The orders of a queue are relinked when one of them is taken out. -/
theorem relinks_spliced {older newer : List Slot}
    (hprev : o.prev = older.getLast?) (hnext : o.next = newer.head?) :
    pool.Relinks (spliced pool slot o) (older ++ slot :: newer) := by
  refine ⟨?_, ?_, ?_⟩
  · exact ((Pool.sameRoom_touch _ _ _).trans (Pool.sameRoom_touch _ _ _)).trans
      (Arena.sameRoom_modify _ slot _)
  · intro s
    rw [get?_spliced, Option.map_map]
    rfl
  · intro s hs
    rw [List.mem_append, List.mem_cons, not_or, not_or] at hs
    have hp : ¬ o.prev = some s := fun heq => hs.1 (List.mem_of_getLast? (hprev ▸ heq))
    have hn : ¬ o.next = some s := fun heq => hs.2.2 (List.mem_of_head? (hnext ▸ heq))
    rw [get?_spliced]
    simp [hs.2.1, hp, hn]

/-- A level without one of its orders. -/
theorem represents_spliced {older newer : List Slot}
    (h : l.Represents pool (older ++ slot :: newer)) (ho : pool.get? slot = some o)
    (hprev : o.prev = older.getLast?) (hnext : o.next = newer.head?) :
    Represents
      { l with
        head := match o.prev with
          | some _ => l.head
          | none => o.next
        tail := match o.next with
          | some _ => l.tail
          | none => o.prev
        count := l.count - 1
        volume := l.volume - o.size.toUInt64 }
      (spliced pool slot o) (older ++ newer) := by
  have hsum : pool.sizeSum (older ++ slot :: newer) =
      pool.sizeSum (older ++ newer) + o.size.toNat := by
    rw [Pool.sizeSum_append, Pool.sizeSum_append, Pool.sizeSum_cons _ _ _ ho]
    omega
  refine ⟨?_, chain_spliced h.chain h.nodup hprev hnext, ?_, ?_, ?_, ?_⟩
  · exact h.nodup.sublist (List.Sublist.append_left (List.sublist_cons_self ..) older)
  · dsimp only
    rw [hprev, hnext, h.head_eq]
    rcases List.eq_nil_or_concat older with rfl | ⟨first, last, rfl⟩
    · rfl
    · rw [List.concat_eq_append, List.getLast?_concat]
      cases first <;> rfl
  · dsimp only
    rw [hprev, hnext, h.tail_eq]
    cases newer with
    | nil => simp
    | cons n newer => simp [List.getLast?_append, List.getLast?_cons]
  · dsimp only
    -- Both sums are taken modulo `2 ^ 64`, where the subtraction undoes the sum without a bound.
    rw [Pool.sizeSum_congr fun s _ => (relinks_spliced hprev hnext).bare s, h.volume_eq, hsum,
      UInt64.ofNat_add, show o.size.toUInt64 = UInt64.ofNat o.size.toNat by simp,
      UInt64.add_sub_cancel]
  · dsimp only
    rw [h.count_eq, List.length_append, List.length_cons, List.length_append, ← Nat.add_assoc,
      UInt32.ofNat_add (older.length + newer.length) 1]
    exact UInt32.add_sub_cancel _ _

/-- An order taken out of a level is the only one to go, and nothing else of the level changes but
its sum and its number. -/
theorem unlink (h : l.Represents pool slots) (hslot : slot ∈ slots) (ho : pool.get? slot = some o) :
    Yields (slots.length < 2 ^ 32) (l.unlink slot pool) fun r =>
      r.1 = o.size ∧ r.2.1.Represents r.2.2 (slots.erase slot) ∧ r.2.1.label = l.label ∧
        pool.Relinks r.2.2 slots ∧ r.2.2.links slot = some (none, none) := by
  obtain ⟨older, newer, rfl⟩ := List.append_of_mem hslot
  obtain ⟨o', ho', hprev, hnext⟩ := Pool.links_eq_some.mp h.chain.links_middle
  rw [ho] at ho'
  cases ho'
  simp only [Option.or_none] at hprev hnext
  obtain ⟨-, -, hdisj⟩ := List.nodup_append.mp h.nodup
  have hnotin : slot ∉ older := fun hs => hdisj slot hs slot (List.mem_cons_self ..) rfl
  rw [unlink_eq ho (fun prev hp => ?_) (fun next hn => ?_), List.erase_append_right _ hnotin,
    List.erase_cons_head]
  · split
    · rename_i hunder
      refine Yields.error _ fun hlen => ?_
      rcases hunder with hcount | hvolume
      · have hcard := h.toNat_count hlen
        rw [hcount, List.length_append, List.length_cons] at hcard
        simp at hcard
      · rw [UInt64.lt_iff_toNat_lt, h.toNat_volume hlen, UInt32.toNat_toUInt64,
          Pool.sizeSum_append, Pool.sizeSum_cons _ _ _ ho] at hvolume
        omega
    · refine Yields.ok ⟨rfl, h.represents_spliced ho hprev hnext, rfl,
        relinks_spliced hprev hnext, ?_⟩
      rw [Pool.links, get?_spliced, ho]
      simp
  · exact h.chain.exists_order (List.mem_append_left _ (List.mem_of_getLast? (hprev ▸ hp)))
  · exact h.chain.exists_order
      (List.mem_append_right _ (List.mem_cons_of_mem _ (List.mem_of_head? (hnext ▸ hn))))

/-! ### Taking from the sum -/

/-- When an order of a level lost `lost` of its size, taking as much from the sum makes the level
right again. -/
theorem reduce {f : Order → Order} {lost : UInt32} (h : l.Represents pool slots)
    (hslot : slot ∈ slots) (ho : pool.get? slot = some o)
    (hsize : (f o).size.toNat + lost.toNat = o.size.toNat) (hprev : (f o).prev = o.prev)
    (hnext : (f o).next = o.next) :
    Yields (slots.length < 2 ^ 32) (l.reduce lost) fun l' =>
      l'.Represents (pool.modify slot f) slots ∧ l'.label = l.label := by
  obtain ⟨older, newer, rfl⟩ := List.append_of_mem hslot
  have hget := Arena.get?_modify pool slot f
  have hother : ∀ s, s ≠ slot → Arena.get? (pool.modify slot f) s = pool.get? s := by
    intro s hs
    rw [hget, if_neg hs]
  obtain ⟨-, hnodup₂, hdisj⟩ := List.nodup_append.mp h.nodup
  obtain ⟨hnot, -⟩ := List.nodup_cons.mp hnodup₂
  have hnotin : slot ∉ older := fun hs => hdisj slot hs slot (List.mem_cons_self ..) rfl
  have hsum : pool.sizeSum (older ++ slot :: newer) =
      Pool.sizeSum (pool.modify slot f) (older ++ slot :: newer) + lost.toNat := by
    have hnew : Arena.get? (pool.modify slot f) slot = some (f o) := by
      rw [hget, if_pos rfl, ho]
      rfl
    have holder : Pool.sizeSum (pool.modify slot f) older = pool.sizeSum older :=
      Pool.sizeSum_congr fun s hs => by rw [hother s fun heq => hnotin (heq ▸ hs)]
    have hnewer : Pool.sizeSum (pool.modify slot f) newer = pool.sizeSum newer :=
      Pool.sizeSum_congr fun s hs => by rw [hother s fun heq => hnot (heq ▸ hs)]
    rw [Pool.sizeSum_append, Pool.sizeSum_append, Pool.sizeSum_cons _ _ _ ho,
      Pool.sizeSum_cons _ _ _ hnew, holder, hnewer]
    omega
  unfold Level.reduce
  split
  · rename_i hunder
    refine Yields.error _ fun hlen => ?_
    rw [UInt64.lt_iff_toNat_lt, h.toNat_volume hlen, UInt32.toNat_toUInt64] at hunder
    omega
  · refine Yields.ok ⟨⟨h.nodup, h.chain.congr ?_, h.head_eq, h.tail_eq, ?_, h.count_eq⟩, rfl⟩
    · intro s _
      by_cases hs : s = slot
      · rw [Pool.links, Pool.links, hget, if_pos hs, hs, ho]
        simp [hprev, hnext]
      · rw [Pool.links, Pool.links, hother s hs]
    · show l.volume - lost.toUInt64 = _
      rw [h.volume_eq, hsum, UInt64.ofNat_add, show lost.toUInt64 = UInt64.ofNat lost.toNat by simp,
        UInt64.add_sub_cancel]

end Represents

end Level

end PriceTime
