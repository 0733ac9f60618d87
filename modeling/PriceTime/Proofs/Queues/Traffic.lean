import PriceTime.Proofs.Queues

/-!
# Traffic through the queues

Orders enter the pool, go to the end of a level, are taken out of it from anywhere, get smaller
where they stand, and leave the pool. Whatever the traffic, as long as no order is put into two
levels and none leaves the pool that is still in a level, every level stands for a list of slots:
the links lead along it both ways, the sum and the number are those of its orders, and what happens
to one level leaves the others alone.

* `Queues.act`: one operation.
* `Queues.Lists`: what the levels and the pool stand for, and what an operation does to that.
* `Queues.Threads.same_level`: the links follow from the lists.
* `Queues.Linked.act`: an operation does to the links what it does to the lists.
* `Queues.reached_shows`: any traffic.
-/

namespace PriceTime

theorem Order.bare_eq {o : Order} (hprev : o.prev = none) (hnext : o.next = none) : o.bare = o :=
  Order.eq_of_bare rfl hprev.symm hnext.symm

theorem Order.toNat_left (o : Order) (quantity : UInt32) :
    (o.size - min quantity o.size).toNat = o.size.toNat - min quantity.toNat o.size.toNat := by
  have hmin := UInt32.toNat_min quantity o.size
  rw [UInt32.toNat_sub_of_le _ _ (UInt32.le_iff_toNat_le.mpr (by omega)), hmin]

/-- What is taken from an order and what is left of it make up the order. -/
theorem Order.toNat_fill (o : Order) (quantity : UInt32) :
    (o.fill quantity).2.size.toNat + (o.fill quantity).1.toNat = o.size.toNat := by
  have hmin := UInt32.toNat_min quantity o.size
  have hleft := o.toNat_left quantity
  show (o.size - min quantity o.size).toNat + (min quantity o.size).toNat = o.size.toNat
  omega

/-- An order is filled by whoever asks for all that is left. -/
theorem Order.snd_fill (o : Order) (quantity : UInt32) : (o.fill quantity).2 =
    { o with
      size := o.size - min quantity o.size
      filled := o.filled || decide (o.size ≤ quantity) } := by
  have hzero : (o.size - min quantity o.size == 0) = decide (o.size ≤ quantity) := by
    have hleft := o.toNat_left quantity
    rw [Bool.eq_iff_iff, beq_iff_eq, decide_eq_true_iff, ← UInt32.toNat_inj, hleft,
      UInt32.le_iff_toNat_le, UInt32.toNat_zero]
    omega
  unfold fill
  dsimp only
  rw [hzero]

namespace Level

/-- A level shows a list of slots, along the links in both directions, and the sum of the sizes of
the orders in them. The words are exact as long as there are fewer than `2 ^ 32` orders. -/
structure Shows (l : Level) (pool : Pool) (slots : List Slot) (volume : Nat) : Prop where
  /-- The walk ends by itself: more steps do not lead further. -/
  forward : ∀ steps, slots.length ≤ steps → (walk pool steps l.head).map Prod.fst = slots
  backward : ∀ steps, slots.length ≤ steps →
    (walkBack pool steps l.tail).map Prod.fst = slots.reverse
  head_eq : l.head = slots.head?
  tail_eq : l.tail = slots.getLast?
  isEmpty_iff : l.isEmpty = true ↔ slots = []
  ends_iff : l.head = none ∧ l.tail = none ↔ l.isEmpty = true
  volume_eq : l.volume = UInt64.ofNat volume
  count_eq : l.count = UInt32.ofNat slots.length
  words_exact : slots.length < 2 ^ 32 → l.volume.toNat = volume ∧ l.count.toNat = slots.length

theorem Represents.shows {l : Level} {pool : Pool} {slots : List Slot}
    (h : l.Represents pool slots) : l.Shows pool slots (pool.sizeSum slots) where
  forward steps hsteps := by
    rw [h.head_eq, h.chain.walk_eq hsteps, h.chain.map_fst_entries]
  backward steps hsteps := by
    rw [h.tail_eq, h.chain.walkBack_eq hsteps, List.map_reverse, h.chain.map_fst_entries]
  head_eq := h.head_eq
  tail_eq := h.tail_eq
  isEmpty_iff := h.isEmpty_iff
  ends_iff := by
    rw [h.isEmpty_iff, h.head_eq, h.tail_eq]
    cases slots <;> simp
  volume_eq := h.volume_eq
  count_eq := h.count_eq
  words_exact hlen := ⟨h.toNat_volume hlen, h.toNat_count hlen⟩

end Level

namespace Queues

/-! ## Operations -/

/-- One operation on the levels and the pool. -/
inductive Act where
  /-- Put an order into the pool. -/
  | acquire (order : Order)
  /-- Take the order in a slot out of the pool. -/
  | release (slot : Slot)
  /-- Put the order in a slot at the end of a level. -/
  | append (key : LevelKey) (slot : Slot)
  /-- Take the order in a slot out of a level. -/
  | unlink (key : LevelKey) (slot : Slot)
  /-- Take up to `quantity` from the order in a slot, and what was taken from the sum of its level. -/
  | fill (key : LevelKey) (slot : Slot) (quantity : UInt32)

/-- What an operation returns. -/
inductive Reply where
  | slot (slot : Slot)
  | order (order : Order)
  | size (size : UInt32)
  | taken (quantity : UInt32)
  | done

/-- Do one operation. -/
def act (q : Queues) : Act → Except Fault (Reply × Queues)
  | .acquire order => .ok (.slot (q.acquire order).1, (q.acquire order).2)
  | .release slot => q.release slot >>= fun r => .ok (.order r.1, r.2)
  | .append key slot => q.append key slot >>= fun q => .ok (.done, q)
  | .unlink key slot => q.unlink key slot >>= fun r => .ok (.size r.1, r.2)
  | .fill key slot quantity => q.fill slot quantity >>= fun r =>
    r.2.reduce key r.1 >>= fun q => .ok (.taken r.1, q)

/-- The level that an operation changes. -/
def Act.key? : Act → Option LevelKey
  | .acquire _ | .release _ => none
  | .append key _ | .unlink key _ | .fill key _ _ => some key

/-- Levels at some places, and an empty pool. -/
def opened (places : List (Side × Int32)) : Queues :=
  places.foldl (fun q place => (q.openLevel place.2 place.1).2) .empty

/-! ## Lists -/

/-- The orders in the slots of a pool, and a list of slots for each level. -/
structure Lists where
  orders : Slot → Option Order
  members : LevelKey → List Slot

namespace Lists

/-- No orders. -/
def empty : Lists where
  orders _ := none
  members _ := []

/-- There is an order in the slot, and it is in no list. -/
def Loose (lists : Lists) (slot : Slot) : Prop :=
  (∃ order, lists.orders slot = some order) ∧ ∀ key, slot ∉ lists.members key

/-- The sum of the sizes of the orders of a level. -/
def volume (lists : Lists) (key : LevelKey) : Nat :=
  ((lists.members key).map fun slot =>
    Arena.share (fun order : Order => order.size.toNat) (lists.orders slot)).sum

/-- Whether an operation may be done, with so many levels. -/
def Allows (lists : Lists) (levels : Nat) : Act → Prop
  | .acquire order => order.prev = none ∧ order.next = none
  | .release slot => lists.Loose slot
  | .append key slot => key < levels ∧ lists.Loose slot
  | .unlink key slot => slot ∈ lists.members key
  | .fill key slot _ => slot ∈ lists.members key

/-- Whether a reply is right. -/
def Answers (lists : Lists) : Act → Reply → Prop
  | .acquire _, .slot slot => lists.orders slot = none
  | .release slot, .order order => lists.orders slot = some order
  | .append _ _, .done => True
  | .unlink _ slot, .size size => ∃ order, lists.orders slot = some order ∧ size = order.size
  | .fill _ slot quantity, .taken taken =>
    ∃ order, lists.orders slot = some order ∧ taken = min quantity order.size
  | _, _ => False

/-- What an operation leaves. A new order is where the reply says. -/
def after (lists : Lists) : Act → Reply → Lists
  | .acquire order, .slot slot =>
    { lists with orders := Function.update lists.orders slot (some order) }
  | .release slot, _ => { lists with orders := Function.update lists.orders slot none }
  | .append key slot, _ =>
    { lists with members := Function.update lists.members key (lists.members key ++ [slot]) }
  | .unlink key slot, _ =>
    { lists with members := Function.update lists.members key ((lists.members key).erase slot) }
  | .fill _ slot quantity, _ =>
    let rest := (lists.orders slot).map fun order =>
      { order with
        size := order.size - min quantity order.size
        filled := order.filled || decide (order.size ≤ quantity) }
    { lists with orders := Function.update lists.orders slot rest }
  | _, _ => lists

end Lists

/-! ## Links -/

variable {q q' : Queues} {places : List (Side × Int32)} {lists : Lists}
  {members members' : LevelKey → List Slot} {key : LevelKey} {a : Act}

/-- The links thread the lists, through these orders and in levels at these places. -/
structure Linked (q : Queues) (places : List (Side × Int32)) (lists : Lists) : Prop where
  threads : q.Threads lists.members
  card : ∀ slot, q.card slot = lists.orders slot
  label : ∀ key, q.label key = places[key]?

/-- The links of a list and the sums of its level follow from the list and from the rest of its
orders. -/
theorem Threads.same_level (h : q.Threads members) (h' : q'.Threads members')
    (hmembers : members' key = members key) (hcard : ∀ s ∈ members key, q'.card s = q.card s)
    (hlabel : q'.label key = q.label key) :
    q'.levels.get? key = q.levels.get? key ∧
      ∀ s ∈ members key, q'.orders.get? s = q.orders.get? s := by
  have horders : ∀ s ∈ members key, q'.orders.get? s = q.orders.get? s := by
    intro s hs
    obtain ⟨l, hl⟩ := h.exists_level hs
    obtain ⟨l', hl'⟩ := h'.exists_level (hmembers ▸ hs : s ∈ members' key)
    have hchain := (h.represents hl).chain
    have hchain' := (h'.represents hl').chain
    rw [hmembers] at hchain'
    have hbare := hcard s hs
    -- Both links name the neighbours in the list, which is the same list.
    obtain ⟨older, newer, hslots⟩ := List.append_of_mem hs
    rw [hslots] at hchain hchain'
    obtain ⟨o, ho, hprev, hnext⟩ := Pool.links_eq_some.mp hchain.links_middle
    obtain ⟨o', ho', hprev', hnext'⟩ := Pool.links_eq_some.mp hchain'.links_middle
    rw [card_eq ho, card_eq ho', Option.some.injEq] at hbare
    rw [ho, ho', Order.eq_of_bare hbare (hprev'.trans hprev.symm) (hnext'.trans hnext.symm)]
  refine ⟨?_, horders⟩
  cases hl : q.levels.get? key with
  | none =>
    rw [label_eq_none_iff.mpr hl] at hlabel
    exact label_eq_none_iff.mp hlabel
  | some l =>
    rw [label_eq hl] at hlabel
    obtain ⟨l', hl', hsame⟩ := get?_of_label hlabel
    have hrep' := h'.represents hl'
    rw [hmembers] at hrep'
    rw [hl', ((h.represents hl).frame horders).eq_of_label hrep' hsame]

theorem Alters.card_same {slot : Slot} (h : q.Alters slot id q') (s : Slot) :
    q'.card s = q.card s := by
  rw [h.card, Option.map_id]
  split <;> rfl

theorem Linked.empty : Queues.empty.Linked [] .empty where
  threads := Threads.empty
  card slot := congrArg (Option.map Order.bare) (Arena.get?_empty slot)
  label key := congrArg (Option.map Level.label) (Arena.get?_empty key)

theorem opened_append (places : List (Side × Int32)) (place : Side × Int32) :
    opened (places ++ [place]) = ((opened places).openLevel place.2 place.1).2 := by
  rw [opened, List.foldl_append]
  rfl

theorem nextKey_opened (places : List (Side × Int32)) :
    (opened places).levels.free = [] ∧ (opened places).levels.places.size = places.length := by
  induction places using List.reverseRecOn with
  | nil => exact ⟨rfl, rfl⟩
  | append_singleton places place ih =>
    rw [opened_append, Threads.openLevel_eq]
    generalize opened places = q at ih
    obtain ⟨orders, ⟨slots, free⟩⟩ := q
    obtain ⟨rfl, hsize⟩ := ih
    exact ⟨rfl, by simp_all [Arena.insert]⟩

theorem Linked.opened (places : List (Side × Int32)) : (opened places).Linked places .empty := by
  induction places using List.reverseRecOn with
  | nil => exact .empty
  | append_singleton places place ih =>
    obtain ⟨hfree, hsize⟩ := nextKey_opened places
    have hnext : (Queues.opened places).levels.nextKey = places.length := by
      rw [Arena.nextKey, hfree, hsize]
    rw [opened_append]
    refine ⟨ih.threads.openLevel _ _, ?_, fun key => ?_⟩
    · intro slot
      rw [Threads.openLevel_eq]
      exact ih.card slot
    · rw [ih.threads.label_openLevel, ih.label, hnext]
      rcases Nat.lt_trichotomy key places.length with hlt | rfl | hgt
      · rw [if_neg (Nat.ne_of_lt hlt), List.getElem?_append_left hlt]
      · simp
      · rw [if_neg (Nat.ne_of_gt hgt), List.getElem?_eq_none (Nat.le_of_lt hgt),
          List.getElem?_eq_none]
        rwa [List.length_append, List.length_singleton]

theorem act_fill {slot : Slot} {o : Order} {l : Level} (ho : q.orders.get? slot = some o)
    (hl : q.levels.get? key = some l) (quantity : UInt32) :
    q.act (.fill key slot quantity) =
      (l.reduce (o.fill quantity).1 >>= fun l' =>
        .ok ⟨q.orders.modify slot fun o => (o.fill quantity).2, q.levels.set key l'⟩) >>=
      fun q' => .ok (.taken (o.fill quantity).1, q') := by
  have hpair : q.act (.fill key slot quantity) =
      (q.fill slot quantity >>= fun r => r.2.reduce key r.1 >>= fun q => .ok (r.1, q)) >>=
      fun r => .ok (.taken r.1, r.2) := by
    simp only [Queues.act, bind_assoc, ok_bind]
  rw [hpair, fill_reduce_eq ho hl, bind_assoc, bind_assoc]
  rfl

namespace Linked

/-- A loose order has no links, so it is what is known of it. -/
theorem get?_of_loose {slot : Slot} (h : q.Linked places lists) (hloose : lists.Loose slot) :
    ∃ o, q.orders.get? slot = some o ∧ lists.orders slot = some o := by
  obtain ⟨⟨o, ho⟩, hnot⟩ := hloose
  obtain ⟨o', ho', hbare⟩ := get?_of_card ((h.card slot).trans ho)
  obtain ⟨hprev, hnext⟩ := h.threads.loose ho' hnot
  exact ⟨o', ho', by rw [ho, ← hbare, Order.bare_eq hprev hnext]⟩

theorem act_acquire {order : Order} (h : q.Linked places lists) (hprev : order.prev = none)
    (hnext : order.next = none) :
    lists.orders (q.acquire order).1 = none ∧
      (q.acquire order).2.Linked places
        { lists with
          orders := Function.update lists.orders (q.acquire order).1 (some order) } := by
  have hslot : (q.acquire order).1 = q.orders.nextKey := by rw [Threads.acquire_eq]
  rw [hslot]
  refine ⟨?_, h.threads.acquire hprev hnext, fun s => ?_, fun key => ?_⟩
  · rw [← h.card, card_eq_none_iff]
    exact h.threads.orders_tidy.get?_nextKey
  · rw [h.threads.card_acquire, Order.bare_eq hprev hnext, h.card]
    exact (Function.update_apply ..).symm
  · rw [Threads.acquire_eq]
    exact h.label key

/-- An operation that is allowed does to the links what it does to the lists. -/
theorem act (h : q.Linked places lists) (hallowed : lists.Allows places.length a) :
    Yields (∀ key, a.key? = some key → (lists.members key).length < 2 ^ 32) (q.act a) fun r =>
      lists.Answers a r.1 ∧ r.2.Linked places (lists.after a r.1) := by
  cases a with
  | acquire order => exact .ok (h.act_acquire hallowed.1 hallowed.2)
  | release slot =>
    obtain ⟨o, ho, hsome⟩ := h.get?_of_loose hallowed
    have heq : q.act (.release slot) = .ok (.order o, ⟨q.orders.vacate slot, q.levels⟩) := by
      rw [Queues.act, Threads.release_eq ho]
      rfl
    rw [heq]
    refine .ok ⟨hsome, h.threads.release ho hallowed.2, fun s => ?_, h.label⟩
    rw [Threads.card_vacate, h.card]
    exact (Function.update_apply ..).symm
  | append key slot =>
    obtain ⟨hkey, hloose⟩ := hallowed
    obtain ⟨o, ho, -⟩ := h.get?_of_loose hloose
    obtain ⟨l, hl, -⟩ := get?_of_label ((h.label key).trans (List.getElem?_eq_getElem hkey))
    refine (h.threads.append hl ho hloose.2).bind ?_
    rintro q' ⟨hthreads, halters⟩
    refine .ok ⟨trivial, hthreads, fun s => ?_, fun k => ?_⟩
    · rw [halters.card_same, h.card]
      rfl
    · rw [halters.label, h.label]
  | unlink key slot =>
    obtain ⟨l, hl⟩ := h.threads.exists_level hallowed
    obtain ⟨o, ho⟩ := h.threads.exists_order hallowed
    refine ((h.threads.unlink hl hallowed ho).of_room fun hroom => hroom key rfl).bind ?_
    rintro ⟨size, q'⟩ ⟨hsize, hthreads, halters⟩
    have hcard := (h.card slot).symm.trans (card_eq ho)
    refine .ok ⟨⟨o.bare, hcard, hsize⟩, hthreads, fun s => ?_, fun k => ?_⟩
    · rw [halters.card_same, h.card]
      rfl
    · rw [halters.label, h.label]
  | fill key slot quantity =>
    obtain ⟨l, hl⟩ := h.threads.exists_level hallowed
    obtain ⟨o, ho⟩ := h.threads.exists_order hallowed
    have hkeeps : KeepsLinks fun o => (o.fill quantity).2 := fun _ => ⟨rfl, rfl, rfl⟩
    have hshrink := h.threads.shrink hl hallowed ho hkeeps (o.toNat_fill quantity)
    rw [act_fill ho hl]
    refine (hshrink.of_room fun hroom => hroom key rfl).bind ?_
    rintro q' ⟨hthreads, halters⟩
    have hcard := (h.card slot).symm.trans (card_eq ho)
    refine .ok ⟨⟨o.bare, hcard, rfl⟩, hthreads, fun s => ?_, fun k => ?_⟩
    · rw [halters.card, h.card]
      refine Eq.trans ?_ (Function.update_apply ..).symm
      rw [show (fun o => (Order.fill o quantity).2) = _ from funext fun o => o.snd_fill quantity]
      split
      · rename_i hs
        rw [hs]
      · rfl
    · rw [halters.label, h.label]

/-- An operation on one level leaves the lists of the others and the orders in them alone. -/
theorem after_of_ne {reply : Reply} (h : q.Linked places lists)
    (hallowed : lists.Allows places.length a) (hanswers : lists.Answers a reply)
    (hkey : a.key? ≠ some key) :
    (lists.after a reply).members key = lists.members key ∧
      ∀ s ∈ lists.members key, (lists.after a reply).orders s = lists.orders s := by
  cases a with
  | acquire order =>
    cases reply with
    | slot slot =>
      -- The slot was free, so it is in no list.
      refine ⟨rfl, fun s hs => Function.update_of_ne ?_ _ _⟩
      rintro rfl
      obtain ⟨o, ho⟩ := h.threads.exists_order hs
      rw [Lists.Answers, ← h.card, card_eq ho] at hanswers
      cases hanswers
    | _ => cases hanswers
  | release slot =>
    refine ⟨rfl, fun s hs => Function.update_of_ne ?_ _ _⟩
    rintro rfl
    exact hallowed.2 key hs
  | append key' slot =>
    refine ⟨Function.update_of_ne ?_ _ _, fun _ _ => rfl⟩
    rintro rfl
    exact hkey rfl
  | unlink key' slot =>
    refine ⟨Function.update_of_ne ?_ _ _, fun _ _ => rfl⟩
    rintro rfl
    exact hkey rfl
  | fill key' slot quantity =>
    refine ⟨rfl, fun s hs => Function.update_of_ne ?_ _ _⟩
    rintro rfl
    exact hkey (congrArg some (h.threads.disjoint hallowed hs))

end Linked

/-! ## Traffic -/

/-- What is seen of the lists: the orders, without links if they are in no list, and the levels. -/
structure Shows (q : Queues) (places : List (Side × Int32)) (lists : Lists) : Prop where
  orders : ∀ slot, (q.orders.get? slot).map Order.bare = lists.orders slot
  loose : ∀ slot order, q.orders.get? slot = some order → (∀ key, slot ∉ lists.members key) →
    order.prev = none ∧ order.next = none
  nodup : ∀ key, (lists.members key).Nodup
  disjoint : ∀ key key' slot, slot ∈ lists.members key → slot ∈ lists.members key' → key = key'
  level : ∀ key place, places[key]? = some place → ∃ l, q.levels.get? key = some l ∧
    (l.side, l.price) = place ∧ l.Shows q.orders (lists.members key) (lists.volume key)

theorem Linked.sizeSum_eq (h : q.Linked places lists) (key : LevelKey) :
    q.orders.sizeSum (lists.members key) = lists.volume key := by
  refine congrArg List.sum (List.map_congr_left fun slot _ => ?_)
  rw [← h.card, Queues.card]
  cases q.orders.get? slot <;> rfl

theorem Linked.shows (h : q.Linked places lists) : q.Shows places lists where
  orders := h.card
  loose _ _ := h.threads.loose
  nodup := h.threads.nodup
  disjoint _ _ _ := h.threads.disjoint
  level key place hplace := by
    obtain ⟨l, hl, hlabel⟩ := get?_of_label ((h.label key).trans hplace)
    refine ⟨l, hl, hlabel, ?_⟩
    exact h.sizeSum_eq key ▸ (h.threads.represents hl).shows

/-- What operations that are allowed lead to, with the lists beside the queues. -/
inductive Reached (places : List (Side × Int32)) : Queues → Lists → Prop where
  | start : Reached places (opened places) .empty
  | act {q q' : Queues} {lists : Lists} {a : Act} {reply : Reply} (h : Reached places q lists)
      (hallowed : lists.Allows places.length a) (hact : q.act a = .ok (reply, q')) :
      Reached places q' (lists.after a reply)

theorem Reached.linked (h : Reached places q lists) : q.Linked places lists := by
  induction h with
  | start => exact .opened places
  | act _ hallowed hact ih => exact ((ih.act hallowed).sound _ hact).2

/-- Only the levels there are need to be searched for an order. -/
theorem Reached.loose {slot : Slot} {order : Order} (h : Reached places q lists)
    (horder : lists.orders slot = some order)
    (hnot : ∀ key < places.length, slot ∉ lists.members key) : lists.Loose slot := by
  refine ⟨⟨order, horder⟩, fun key hmem => ?_⟩
  obtain ⟨l, hl⟩ := h.linked.threads.exists_level hmem
  have hplace := (h.linked.label key).symm.trans (label_eq hl)
  obtain ⟨hkey, -⟩ := List.getElem?_eq_some_iff.mp hplace
  exact hnot key hkey hmem

/-- Whatever operations were done, the levels stand for the lists that the operations leave. Every
operation that is allowed next is answered, unless the level it changes has `2 ^ 32` orders, with
what the lists say. It leaves the other levels, their orders and the links of these alone. -/
theorem reached_shows (h : Reached places q lists) :
    q.Shows places lists ∧ ∀ a, lists.Allows places.length a →
      Yields (∀ key, a.key? = some key → (lists.members key).length < 2 ^ 32) (q.act a) fun r =>
        lists.Answers a r.1 ∧ r.2.Shows places (lists.after a r.1) ∧
        ∀ key, a.key? ≠ some key →
          (lists.after a r.1).members key = lists.members key ∧
          r.2.levels.get? key = q.levels.get? key ∧
          ∀ slot ∈ lists.members key, r.2.orders.get? slot = q.orders.get? slot := by
  refine ⟨h.linked.shows, fun a hallowed => (h.linked.act hallowed).mono ?_⟩
  rintro ⟨reply, q'⟩ ⟨hanswers, hlinked⟩
  refine ⟨hanswers, hlinked.shows, fun key hkey => ?_⟩
  obtain ⟨hmembers, horders⟩ := h.linked.after_of_ne hallowed hanswers hkey
  refine ⟨hmembers, h.linked.threads.same_level hlinked.threads hmembers ?_ ?_⟩
  · intro s hs
    rw [hlinked.card, h.linked.card, horders s hs]
  · rw [hlinked.label, h.linked.label]

/-- Three orders wait at one level and a fourth at another one. The middle one of the three leaves,
the last one gets smaller, and a fifth order comes to the other level in the slot that was left.
When the first one leaves, too, the other level stays as it is. -/
theorem reached_shows_waiting : ∃ q lists, Reached [(.bid, 100), (.ask, 105)] q lists ∧
    lists.members 0 = [0, 2] ∧ lists.members 1 = [3, 1] ∧ lists.volume 0 = 8 ∧
    q.Shows [(.bid, 100), (.ask, 105)] lists ∧
    ∃ q', q.act (.unlink 0 0) = .ok (.size 5, q') ∧
      q'.Shows [(.bid, 100), (.ask, 105)] (lists.after (.unlink 0 0) (.size 5)) ∧
      q'.levels.get? 1 = q.levels.get? 1 ∧
      q'.orders.get? 3 = q.orders.get? 3 ∧ q'.orders.get? 1 = q.orders.get? 1 := by
  have h := Reached.act (a := .acquire { id := 1, price := 100, size := 5 })
    (.start : Reached [(.bid, 100), (.ask, 105)] _ _) ⟨rfl, rfl⟩ rfl
  have h := h.act (a := .acquire { id := 2, price := 100, size := 6 }) ⟨rfl, rfl⟩ rfl
  have h := h.act (a := .acquire { id := 3, price := 100, size := 7 }) ⟨rfl, rfl⟩ rfl
  have h := h.act (a := .acquire { id := 4, price := 105, size := 8, side := .ask }) ⟨rfl, rfl⟩ rfl
  have h := h.act (a := .append 0 0) ⟨by decide, h.loose rfl (by decide)⟩ rfl
  have h := h.act (a := .append 0 1) ⟨by decide, h.loose rfl (by decide)⟩ rfl
  have h := h.act (a := .append 0 2) ⟨by decide, h.loose rfl (by decide)⟩ rfl
  have h := h.act (a := .append 1 3) ⟨by decide, h.loose rfl (by decide)⟩ rfl
  have h := h.act (a := .unlink 0 1) (show 1 ∈ [0, 1, 2] by decide) rfl
  have h := h.act (a := .fill 0 2 4) (show 2 ∈ [0, 2] by decide) rfl
  have h := h.act (a := .release 1) (h.loose rfl (by decide)) rfl
  have h := h.act (a := .acquire { id := 5, price := 105, size := 9, side := .ask }) ⟨rfl, rfl⟩ rfl
  have h := h.act (a := .append 1 1) ⟨by decide, h.loose rfl (by decide)⟩ rfl
  obtain ⟨hshows, hacts⟩ := reached_shows h
  have hnext := hacts (.unlink 0 0) (show 0 ∈ [0, 2] by decide)
  obtain ⟨⟨reply, q'⟩, hact, hanswers, hshows', hframe⟩ := hnext.exists_ok (by
    rintro key ⟨⟩
    show [0, 2].length < 2 ^ 32
    decide)
  obtain rfl : reply = .size 5 := congrArg Prod.fst (Except.ok.inj (hact.symm.trans rfl))
  obtain ⟨-, hlevel, horders⟩ := hframe 1 nofun
  exact ⟨_, _, h, rfl, rfl, rfl, hshows, q', hact, hshows', hlevel,
    horders 3 (show 3 ∈ [3, 1] by decide), horders 1 (show 1 ∈ [3, 1] by decide)⟩

end Queues

end PriceTime
