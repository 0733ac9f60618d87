import PriceTime.Channel
import PriceTime.Proofs.Ring

/-!
# Channels are bounded queues

A channel over `n` slots is a queue of at most `n - 1` items. Whatever its two ends do, one act
after the other, they are answered as by a list that grows at its end and shrinks at its front, and
what the ends have counted tells how many items the list has.

The ends count in machine words. The accounts count in whole numbers, which the words stand for.

* `Account.act`: what an act does to the list and to the accounts.
* `Channel.Keeps`: a channel and the accounts it keeps.
* `Channel.act_keeps`: one act, here and there.
* `Channel.run_fifo`: any number of acts, and what the channel shows afterwards.
-/

namespace PriceTime

/-- What an end of a channel does. -/
inductive Act (α : Type) where
  /-- The producer offers an item. -/
  | enqueue (x : α)
  /-- The consumer takes an item. -/
  | dequeue

/-- What an end of a channel is answered. -/
inductive Reply (α : Type) where
  | enqueued (result : Except α Unit)
  | dequeued (item : Option α)

/-- The items in a channel, oldest first, and how many were offered, turned down and taken. -/
structure Account (α : Type) where
  items : List α := []
  offered : Nat := 0
  refused : Nat := 0
  taken : Nat := 0

variable {α : Type}

/-- What an act does to a queue that holds at most `capacity` items. -/
def Account.act (capacity : Nat) (a : Account α) : Act α → Reply α × Account α
  | .enqueue x =>
    if a.items.length = capacity then
      (.enqueued (.error x), { a with offered := a.offered + 1, refused := a.refused + 1 })
    else (.enqueued (.ok ()), { a with items := a.items ++ [x], offered := a.offered + 1 })
  | .dequeue =>
    match a.items with
    | [] => (.dequeued none, a)
    | x :: items => (.dequeued (some x), { a with items, taken := a.taken + 1 })

/-- One act after the other: the answers, and the accounts afterwards. -/
def Account.run (capacity : Nat) (a : Account α) : List (Act α) → List (Reply α) × Account α
  | [] => ([], a)
  | act :: acts =>
    let (reply, a) := a.act capacity act
    let (replies, a) := a.run capacity acts
    (reply :: replies, a)

theorem Account.run_cons (capacity : Nat) (a : Account α) (act : Act α) (acts : List (Act α)) :
    a.run capacity (act :: acts) =
      ((a.act capacity act).1 :: ((a.act capacity act).2.run capacity acts).1,
        ((a.act capacity act).2.run capacity acts).2) := rfl

namespace Channel

/-- One act of an end. -/
def act (c : Channel α) : Act α → Reply α × Channel α
  | .enqueue x => (.enqueued (c.enqueue x).1, (c.enqueue x).2)
  | .dequeue => (.dequeued c.dequeue.1, c.dequeue.2)

/-- One act after the other: the answers, and the channel afterwards. -/
def run (c : Channel α) : List (Act α) → List (Reply α) × Channel α
  | [] => ([], c)
  | act :: acts =>
    let (reply, c) := c.act act
    let (replies, c) := c.run acts
    (reply :: replies, c)

theorem run_cons (c : Channel α) (act : Act α) (acts : List (Act α)) :
    c.run (act :: acts) =
      ((c.act act).1 :: ((c.act act).2.run acts).1, ((c.act act).2.run acts).2) := rfl

/-- A channel over `n` slots keeps its accounts: it holds their items, its words stand for their
numbers, and every item offered was turned down, was taken, or is still there. -/
structure Keeps (n : Nat) (c : Channel α) (a : Account α) : Prop where
  slots_size : c.ring.slots.size = n
  holds : c.ring.Holds a.items
  enqueued_eq : c.enqueued = UInt64.ofNat a.offered
  dropped_eq : c.dropped = UInt64.ofNat a.refused
  dequeued_eq : c.dequeued = UInt64.ofNat a.taken
  balance : a.offered = a.refused + a.taken + a.items.length

variable {n : Nat} {c : Channel α} {a : Account α}

theorem enqueue_eq (c : Channel α) (x : α) :
    c.enqueue x = ((c.ring.push x).1, { c with
      ring := (c.ring.push x).2
      enqueued := c.enqueued + 1
      dropped := match (c.ring.push x).1 with
        | .ok _ => c.dropped
        | .error _ => c.dropped + 1 }) := rfl

theorem dequeue_eq (c : Channel α) :
    c.dequeue = (c.ring.pop.1, { c with
      ring := c.ring.pop.2
      dequeued := match c.ring.pop.1 with
        | some _ => c.dequeued + 1
        | none => c.dequeued }) := rfl

theorem ofNat_succ (n : Nat) : UInt64.ofNat (n + 1) = UInt64.ofNat n + 1 :=
  UInt64.ofNat_add n 1

theorem keeps_ofSlots (hn : 0 < n) : (ofSlots n : Channel α).Keeps n {} where
  slots_size := Array.size_replicate
  holds := Ring.holds_ofSlots hn
  enqueued_eq := rfl
  dropped_eq := rfl
  dequeued_eq := rfl
  balance := rfl

namespace Keeps

variable (h : c.Keeps n a)

include h

theorem capacity_eq : c.ring.capacity = n - 1 := by
  rw [Ring.capacity, h.slots_size]

/-- A full channel hands the item back and only counts. -/
theorem enqueue_full (hfull : a.items.length = n - 1) (x : α) :
    c.enqueue x =
      (.error x, { c with enqueued := c.enqueued + 1, dropped := c.dropped + 1 }) := by
  rw [enqueue_eq, h.holds.push_full (hfull.trans h.capacity_eq.symm)]

theorem keeps_refused (hfull : a.items.length = n - 1) (x : α) :
    (c.enqueue x).2.Keeps n { a with offered := a.offered + 1, refused := a.refused + 1 } := by
  have hbalance := h.balance
  rw [h.enqueue_full hfull]
  refine ⟨h.slots_size, h.holds, ?_, ?_, h.dequeued_eq, ?_⟩
  · rw [ofNat_succ, ← h.enqueued_eq]
  · rw [ofNat_succ, ← h.dropped_eq]
  · dsimp only
    omega

theorem enqueue_room (hroom : a.items.length ≠ n - 1) (x : α) :
    (c.enqueue x).1 = .ok () ∧
      (c.enqueue x).2.Keeps n { a with items := a.items ++ [x], offered := a.offered + 1 } := by
  have hbalance := h.balance
  have hlt : a.items.length < c.ring.capacity := by
    have hle := h.holds.length_le_capacity
    rw [h.capacity_eq] at hle ⊢
    omega
  rw [enqueue_eq, h.holds.push_room hlt]
  refine ⟨rfl, ?_, h.holds.push hlt x, ?_, h.dropped_eq, h.dequeued_eq, ?_⟩
  · rw [← h.slots_size]
    exact Array.size_setIfInBounds
  · rw [ofNat_succ, ← h.enqueued_eq]
  · rw [List.length_append, List.length_singleton]
    dsimp only
    omega

theorem dequeue_nil (hnil : a.items = []) : c.dequeue = (none, c) := by
  have hholds : c.ring.Holds [] := hnil ▸ h.holds
  rw [dequeue_eq, hholds.pop_nil]

theorem dequeue_cons {x : α} {items : List α} (hcons : a.items = x :: items) :
    c.dequeue.1 = some x ∧ c.dequeue.2.Keeps n { a with items, taken := a.taken + 1 } := by
  have hbalance := h.balance
  have hholds : c.ring.Holds (x :: items) := hcons ▸ h.holds
  rw [dequeue_eq, hholds.pop_cons]
  refine ⟨rfl, ?_, hholds.pop, h.enqueued_eq, h.dropped_eq, ?_, ?_⟩
  · rw [← h.slots_size]
    exact Array.size_setIfInBounds
  · rw [ofNat_succ, ← h.dequeued_eq]
  · rw [hcons, List.length_cons] at hbalance
    dsimp only
    omega

end Keeps

/-- One act is answered as the accounts say, and they are kept. -/
theorem act_keeps (h : c.Keeps n a) (act : Act α) :
    (c.act act).1 = (a.act (n - 1) act).1 ∧ (c.act act).2.Keeps n (a.act (n - 1) act).2 := by
  cases act with
  | enqueue x =>
    unfold Channel.act Account.act
    dsimp only
    split
    · rename_i hfull
      refine ⟨?_, h.keeps_refused hfull x⟩
      rw [h.enqueue_full hfull]
    · rename_i hroom
      obtain ⟨hreply, hkeeps⟩ := h.enqueue_room hroom x
      exact ⟨congrArg Reply.enqueued hreply, hkeeps⟩
  | dequeue =>
    unfold Channel.act Account.act
    dsimp only
    split
    · rename_i hnil
      rw [h.dequeue_nil hnil]
      exact ⟨rfl, h⟩
    · rename_i x items hcons
      obtain ⟨hreply, hkeeps⟩ := h.dequeue_cons hcons
      exact ⟨congrArg Reply.dequeued hreply, hkeeps⟩

theorem run_keeps (h : c.Keeps n a) (acts : List (Act α)) :
    (c.run acts).1 = (a.run (n - 1) acts).1 ∧ (c.run acts).2.Keeps n (a.run (n - 1) acts).2 := by
  induction acts generalizing c a with
  | nil => exact ⟨rfl, h⟩
  | cons act acts ih =>
    obtain ⟨hreply, hkeeps⟩ := act_keeps h act
    obtain ⟨hreplies, hlast⟩ := ih hkeeps
    rw [run_cons, Account.run_cons, hreply, hreplies]
    exact ⟨rfl, hlast⟩

/-- What a channel over `n` slots shows of its accounts. -/
structure Shows (n : Nat) (c : Channel α) (a : Account α) : Prop where
  capacity_eq : c.ring.capacity = n - 1
  length_le : a.items.length ≤ n - 1
  size_eq : c.ring.size = a.items.length
  isEmpty_iff : c.ring.isEmpty = true ↔ a.items = []
  isFull_iff : c.ring.isFull = true ↔ a.items.length = n - 1
  /-- The slots in use are those from the head up to the tail. -/
  occupied_iff : ∀ slot < n, (∃ x, c.ring.slots[slot]? = some (some x)) ↔ c.ring.Between slot
  /-- Where an item is due, there is one. -/
  head_occupied : c.ring.head ≠ c.ring.tail → ∃ x, c.ring.slots[c.ring.head]? = some (some x)
  /-- An offer that is turned down only counts. -/
  refused : a.items.length = n - 1 → ∀ x, c.enqueue x =
    (.error x, { c with enqueued := c.enqueued + 1, dropped := c.dropped + 1 })
  counts : c.enqueued = UInt64.ofNat a.offered ∧ c.dropped = UInt64.ofNat a.refused ∧
    c.dequeued = UInt64.ofNat a.taken
  balance : a.offered = a.refused + a.taken + a.items.length
  /-- The words agree as well, even when they have wrapped around. -/
  words : c.enqueued = c.dropped + c.dequeued + UInt64.ofNat c.ring.size

theorem Keeps.shows (h : c.Keeps n a) : c.Shows n a where
  capacity_eq := h.capacity_eq
  length_le := h.capacity_eq ▸ h.holds.length_le_capacity
  size_eq := h.holds.size_eq
  isEmpty_iff := h.holds.isEmpty_iff
  isFull_iff := h.capacity_eq ▸ h.holds.isFull_iff
  occupied_iff slot hslot := h.holds.occupied_iff (h.slots_size ▸ hslot)
  head_occupied := h.holds.head_occupied
  refused := h.enqueue_full
  counts := ⟨h.enqueued_eq, h.dropped_eq, h.dequeued_eq⟩
  balance := h.balance
  words := by
    rw [h.enqueued_eq, h.dropped_eq, h.dequeued_eq, h.holds.size_eq, ← UInt64.ofNat_add,
      ← UInt64.ofNat_add, ← h.balance]

/-- Whatever the ends of a channel over at least two slots do, they are answered as by a queue that
holds one item less than there are slots, and the channel shows the accounts of that queue. As the
acts are any acts, this is so after each of them. -/
theorem run_fifo {n : Nat} (hn : 2 ≤ n) (acts : List (Act α)) :
    ((ofSlots n : Channel α).run acts).1 = (Account.run (n - 1) {} acts).1 ∧
      ((ofSlots n : Channel α).run acts).2.Shows n (Account.run (n - 1) {} acts).2 := by
  obtain ⟨hreplies, hkeeps⟩ := run_keeps (keeps_ofSlots (by omega : 0 < n)) acts
  exact ⟨hreplies, hkeeps.shows⟩

/-- Two slots hold one item at a time, and every other offer meets a full ring. -/
theorem run_fifo_two_slots :
    2 ≤ 2 ∧ ((ofSlots 2 : Channel Nat).run [.dequeue, .enqueue 1, .enqueue 2, .dequeue, .enqueue 3,
        .enqueue 4, .dequeue, .dequeue, .enqueue 5]).1 =
      [.dequeued none, .enqueued (.ok ()), .enqueued (.error 2), .dequeued (some 1),
        .enqueued (.ok ()), .enqueued (.error 4), .dequeued (some 3), .dequeued none,
        .enqueued (.ok ())] ∧
      ((ofSlots 2 : Channel Nat).run [.dequeue, .enqueue 1, .enqueue 2, .dequeue, .enqueue 3,
        .enqueue 4, .dequeue, .dequeue, .enqueue 5]).2.Shows 2
          { items := [5], offered := 5, refused := 2, taken := 2 } := by
  obtain ⟨hreplies, hshows⟩ := run_fifo (α := Nat) (n := 2) (by decide) [.dequeue, .enqueue 1,
    .enqueue 2, .dequeue, .enqueue 3, .enqueue 4, .dequeue, .dequeue, .enqueue 5]
  exact ⟨by decide, hreplies, hshows⟩

end Channel

end PriceTime
