import Mathlib.Data.List.Rotate
import PriceTime.Proofs.Channel

/-!
# Where the items of a channel go

Every item offered to a channel is handed back, or taken, or lost with the ring once both ends have
let go; and each goes one of these ways once. The end that lets go first loses nothing. What the
other one loses is what still waits: the items accepted are numbered around the circle of slots, so
that, read off slot by slot, the waiting items come in the order of their arrival but for the place
where the circle starts over.

* `Ring.Holds.leftovers_eq`: the items of a ring, slot by slot.
* `Account.run_accepts`: what was accepted was taken or still waits, in this order.
* `Channel.Disposes`: where all items have gone.
* `Channel.run_disposes`: any number of acts, and then both ends let go.
-/

namespace PriceTime

variable {α : Type}

/-! ## Slot by slot -/

theorem filterMap_getElem? (xs : List α) (n : Nat) :
    ((List.range n).map fun i => xs[i]?).filterMap id = xs.take n := by
  induction n with
  | zero => rfl
  | succ n ih =>
    rw [List.range_succ, List.map_append, List.filterMap_append, ih, List.take_add_one,
      List.map_singleton, List.filterMap_cons]
    cases xs[n]? <;> rfl

namespace Ring.Holds

variable {r : Ring α} {items : List α}

/-- The slots before the head are the last ones on the way around the circle. -/
theorem slots_eq (h : r.Holds items) : r.slots.toList =
    ((List.range r.head).map fun i => (items.drop (r.slots.size - r.head))[i]?) ++
      (List.range (r.slots.size - r.head)).map fun i => items[i]? := by
  have hhead := h.head_lt
  refine List.ext_getElem? fun slot => ?_
  -- A slot before the head is reached once the circle has started over.
  by_cases hslot : slot < r.slots.size
  · rw [Array.getElem?_toList]
    by_cases hbefore : slot < r.head
    · have hoffset := h.slot_eq (r.slots.size - r.head + slot) (by omega)
      rw [mod_eq_ite (by omega), if_neg (by omega),
        show r.head + (r.slots.size - r.head + slot) - r.slots.size = slot by omega] at hoffset
      rw [hoffset, List.getElem?_append_left (by simpa using hbefore), List.getElem?_map,
        List.getElem?_range hbefore, Option.map_some, List.getElem?_drop]
    · have hoffset := h.slot_eq (slot - r.head) (by omega)
      rw [mod_eq_ite (by omega), if_pos (by omega),
        show r.head + (slot - r.head) = slot by omega] at hoffset
      rw [hoffset, List.getElem?_append_right (by simpa using hbefore), List.length_map,
        List.length_range, List.getElem?_map, List.getElem?_range (by omega), Option.map_some]
  · rw [List.getElem?_eq_none (by simpa using hslot), List.getElem?_eq_none]
    rw [List.length_append, List.length_map, List.length_map, List.length_range, List.length_range]
    omega

/-- Slot by slot come first the items past the place where the circle starts over, and then those
before it. -/
theorem leftovers_eq (h : r.Holds items) : r.leftovers =
    items.drop (r.slots.size - r.head) ++ items.take (r.slots.size - r.head) := by
  have hlength := h.length_lt
  have hhead := h.head_lt
  rw [leftovers, h.slots_eq, List.filterMap_append, filterMap_getElem?, filterMap_getElem?,
    List.take_of_length_le (by rw [List.length_drop]; omega)]

end Ring.Holds

/-! ## What the ends are answered -/

/-- What an act offers. -/
def Act.offered? : Act α → Option α
  | .enqueue x => some x
  | .dequeue => none

namespace Reply

/-- What an answer hands back. -/
def refused? : Reply α → Option α
  | .enqueued (.error x) => some x
  | _ => none

/-- What the consumer takes with an answer. -/
def taken? : Reply α → Option α
  | .dequeued item => item
  | _ => none

/-- What an answer accepts of what the act offers. -/
def accepted? : Act α → Reply α → Option α
  | .enqueue x, .enqueued (.ok _) => some x
  | _, _ => none

/-- How an act can be answered. An item that is handed back is the one that was offered. -/
inductive Fits : Act α → Reply α → Prop where
  | accepted (x : α) : Fits (.enqueue x) (.enqueued (.ok ()))
  | refused (x : α) : Fits (.enqueue x) (.enqueued (.error x))
  | taken (item : Option α) : Fits .dequeue (.dequeued item)

end Reply

/-- The items accepted, in order. -/
def acceptedItems (acts : List (Act α)) (replies : List (Reply α)) : List α :=
  (acts.zip replies).filterMap fun entry => Reply.accepted? entry.1 entry.2

theorem filterMap_cons_eq_append {β : Type} (f : α → Option β) (x : α) (xs : List α) :
    (x :: xs).filterMap f = (f x).toList ++ xs.filterMap f := by
  rw [List.filterMap_eq_flatMap_toList, List.flatMap_cons, ← List.filterMap_eq_flatMap_toList]

namespace Account

variable {capacity : Nat} {a : Account α}

theorem act_fits (capacity : Nat) (a : Account α) (act : Act α) :
    Reply.Fits act (a.act capacity act).1 := by
  unfold Account.act
  cases act with
  | enqueue x =>
    dsimp only
    split
    · exact .refused x
    · exact .accepted x
  | dequeue =>
    dsimp only
    split
    · exact .taken none
    · exact .taken _

/-- One act puts what it accepts behind the items and takes an item from their front. -/
theorem act_accepts (capacity : Nat) (a : Account α) (act : Act α) :
    a.items ++ (Reply.accepted? act (a.act capacity act).1).toList =
      (a.act capacity act).1.taken?.toList ++ (a.act capacity act).2.items := by
  unfold Account.act
  cases act with
  | enqueue x =>
    dsimp only
    split
    · exact List.append_nil _
    · rfl
  | dequeue =>
    dsimp only
    split
    · rename_i hnil
      simp [Reply.accepted?, Reply.taken?, hnil]
    · rename_i x items hcons
      simp [Reply.accepted?, Reply.taken?, hcons]

theorem act_taken (capacity : Nat) (a : Account α) (act : Act α) :
    (a.act capacity act).2.taken = a.taken + (a.act capacity act).1.taken?.toList.length := by
  unfold Account.act
  cases act with
  | enqueue x =>
    dsimp only
    split <;> rfl
  | dequeue =>
    dsimp only
    split <;> rfl

theorem run_fits (capacity : Nat) (a : Account α) (acts : List (Act α)) :
    List.Forall₂ Reply.Fits acts (a.run capacity acts).1 := by
  induction acts generalizing a with
  | nil => exact .nil
  | cons act acts ih =>
    rw [run_cons]
    exact .cons (act_fits capacity a act) (ih _)

theorem run_accepts (capacity : Nat) (a : Account α) (acts : List (Act α)) :
    a.items ++ acceptedItems acts (a.run capacity acts).1 =
      (a.run capacity acts).1.filterMap Reply.taken? ++ (a.run capacity acts).2.items := by
  induction acts generalizing a with
  | nil => exact List.append_nil _
  | cons act acts ih =>
    rw [run_cons, acceptedItems, List.zip_cons_cons, filterMap_cons_eq_append,
      filterMap_cons_eq_append, ← List.append_assoc, act_accepts, List.append_assoc,
      List.append_assoc]
    congr 1
    exact ih _

theorem run_taken (capacity : Nat) (a : Account α) (acts : List (Act α)) :
    (a.run capacity acts).2.taken =
      a.taken + ((a.run capacity acts).1.filterMap Reply.taken?).length := by
  induction acts generalizing a with
  | nil => rfl
  | cons act acts ih =>
    rw [run_cons, filterMap_cons_eq_append, List.length_append, ← Nat.add_assoc, ← act_taken]
    exact ih _

end Account

/-- What was offered was handed back or accepted. -/
theorem offered_perm {acts : List (Act α)} {replies : List (Reply α)}
    (h : List.Forall₂ Reply.Fits acts replies) :
    (acts.filterMap Act.offered?).Perm
      (replies.filterMap Reply.refused? ++ acceptedItems acts replies) := by
  induction h with
  | nil => exact .nil
  | @cons act reply acts replies hfits _ ih =>
    rw [acceptedItems, List.zip_cons_cons, filterMap_cons_eq_append, filterMap_cons_eq_append,
      filterMap_cons_eq_append]
    cases hfits with
    | accepted x => exact (ih.cons x).trans List.perm_middle.symm
    | refused x => exact ih.cons x
    | taken item => exact ih

/-! ## Both ends let go -/

namespace Channel

variable {n : Nat} {c : Channel α} {a : Account α}

/-- A channel that keeps its accounts and is held by both its ends. Its head has gone one slot
further with every item taken. -/
structure Held (n : Nat) (c : Channel α) (a : Account α) : Prop extends c.Keeps n a where
  hasProducer : c.hasProducer = true
  hasConsumer : c.hasConsumer = true
  head_eq : c.ring.head = a.taken % n

theorem held_ofSlots (hn : 0 < n) : (ofSlots n : Channel α).Held n {} where
  toKeeps := keeps_ofSlots hn
  hasProducer := rfl
  hasConsumer := rfl
  head_eq := (Nat.zero_mod n).symm

theorem head_push (r : Ring α) (x : α) : (r.push x).2.head = r.head := by
  unfold Ring.push
  dsimp only
  split <;> rfl

namespace Held

variable (h : c.Held n a)

include h

theorem head_act (act : Act α) :
    (c.act act).2.ring.head = (a.act (n - 1) act).2.taken % n := by
  cases act with
  | enqueue x =>
    have htaken : (a.act (n - 1) (.enqueue x)).2.taken = a.taken := by
      unfold Account.act
      dsimp only
      split <;> rfl
    rw [htaken, ← h.head_eq]
    exact head_push c.ring x
  | dequeue =>
    unfold Channel.act Account.act
    dsimp only
    split
    · rename_i hnil
      rw [h.dequeue_nil hnil]
      exact h.head_eq
    · rename_i x items hcons
      have hholds : c.ring.Holds (x :: items) := hcons ▸ h.holds
      rw [dequeue_eq, hholds.pop_cons]
      show (c.ring.head + 1) % c.ring.slots.size = (a.taken + 1) % n
      rw [h.slots_size, h.head_eq, Nat.mod_add_mod]

theorem act (act : Act α) : (c.act act).2.Held n (a.act (n - 1) act).2 where
  toKeeps := (act_keeps h.toKeeps act).2
  hasProducer := by cases act <;> exact h.hasProducer
  hasConsumer := by cases act <;> exact h.hasConsumer
  head_eq := h.head_act act

theorem run (acts : List (Act α)) : (c.run acts).2.Held n (a.run (n - 1) acts).2 := by
  induction acts generalizing c a with
  | nil => exact h
  | cons act acts ih => exact ih (h.act act)

theorem first_drop : c.dropProducer = ([], { c with hasProducer := false }) ∧
    c.dropConsumer = ([], { c with hasConsumer := false }) := by
  constructor
  · rw [dropProducer, settle, if_pos (.inr h.hasConsumer)]
  · rw [dropConsumer, settle, if_pos (.inl h.hasProducer)]

theorem drop_consumer_last : c.dropProducer.2.dropConsumer.1 = c.ring.leftovers ∧
    c.dropProducer.2.dropConsumer.2.ring = .ofSlots c.ring.slots.size := by
  rw [h.first_drop.1, dropConsumer, settle, if_neg (by simp)]
  exact ⟨rfl, rfl⟩

theorem drop_producer_last : c.dropConsumer.2.dropProducer.1 = c.ring.leftovers ∧
    c.dropConsumer.2.dropProducer.2.ring = .ofSlots c.ring.slots.size := by
  rw [h.first_drop.2, dropProducer, settle, if_neg (by simp)]
  exact ⟨rfl, rfl⟩

end Held

/-- Where the items of a channel over `n` slots have gone, once both its ends let go: those that
were not handed back or taken wait in a queue, and are lost. -/
structure Disposes (n : Nat) (acts : List (Act α)) (replies : List (Reply α)) (c : Channel α)
    (queued lost : List α) : Prop where
  /-- An item that is handed back is handed back by the offer that failed. -/
  fits : List.Forall₂ Reply.Fits acts replies
  /-- The items accepted were taken or still wait, in the order of their arrival. -/
  fifo : acceptedItems acts replies = replies.filterMap Reply.taken? ++ queued
  /-- The items accepted go around the circle, and no slot holds anything else. -/
  slot_eq : ∀ i < n,
    c.ring.slots[((replies.filterMap Reply.taken?).length + i) % n]? = some queued[i]?
  /-- The end that lets go first loses nothing. -/
  first : c.dropProducer.1 = [] ∧ c.dropConsumer.1 = []
  /-- Whichever lets go last, it loses the same. -/
  last : c.dropProducer.2.dropConsumer.1 = lost ∧ c.dropConsumer.2.dropProducer.1 = lost
  /-- Nothing is left in the slots to be lost again. -/
  emptied : c.dropProducer.2.dropConsumer.2.ring.leftovers = [] ∧
    c.dropConsumer.2.dropProducer.2.ring.leftovers = []
  /-- What is lost is lost slot by slot. -/
  slots : lost = c.ring.slots.toList.filterMap id
  /-- It is lost in the order of its arrival, but for where the circle starts over. -/
  rotated : lost ~r queued
  /-- Each item offered was handed back, or taken, or lost, and each once. -/
  balance : (acts.filterMap Act.offered?).Perm
    (replies.filterMap Reply.refused? ++ replies.filterMap Reply.taken? ++ lost)

theorem leftovers_ofSlots (n : Nat) : (Ring.ofSlots n : Ring α).leftovers = [] := by
  simp [Ring.leftovers, Ring.ofSlots]

theorem Held.disposes {acts : List (Act α)} {replies : List (Reply α)} (h : c.Held n a)
    (hfits : List.Forall₂ Reply.Fits acts replies)
    (hfifo : acceptedItems acts replies = replies.filterMap Reply.taken? ++ a.items)
    (htaken : a.taken = (replies.filterMap Reply.taken?).length) :
    c.Disposes n acts replies a.items c.ring.leftovers := by
  have hrotated : c.ring.leftovers ~r a.items := by
    rw [h.holds.leftovers_eq]
    refine List.isRotated_append.trans ?_
    rw [List.take_append_drop]
  refine {
    fits := hfits
    fifo := hfifo
    slot_eq := ?_
    first := ⟨congrArg Prod.fst h.first_drop.1, congrArg Prod.fst h.first_drop.2⟩
    last := ⟨h.drop_consumer_last.1, h.drop_producer_last.1⟩
    emptied := ?_
    slots := rfl
    rotated := hrotated
    balance := ?_ }
  · intro i hi
    have hslot := h.holds.slot_eq i (h.slots_size.symm ▸ hi)
    rw [h.slots_size, h.head_eq, Nat.mod_add_mod, htaken] at hslot
    exact hslot
  · rw [h.drop_consumer_last.2, h.drop_producer_last.2]
    exact ⟨leftovers_ofSlots _, leftovers_ofSlots _⟩
  · rw [List.append_assoc]
    refine (offered_perm hfits).trans (.append_left _ ?_)
    rw [hfifo]
    exact .append_left _ hrotated.perm.symm

/-- Whatever the ends of a channel over at least two slots do before they let go, every item offered
is handed back by the offer that failed, or taken once, or lost once with the end that lets go last.
What is lost is what still waits, slot by slot. -/
theorem run_disposes {n : Nat} (hn : 2 ≤ n) (acts : List (Act α)) :
    ∃ queued lost, ((ofSlots n : Channel α).run acts).2.Disposes n acts
      ((ofSlots n : Channel α).run acts).1 queued lost := by
  have hpos : 0 < n := by omega
  have hreplies := (run_keeps (keeps_ofSlots hpos) acts).1
  have hheld := (held_ofSlots hpos (α := α)).run acts
  rw [hreplies]
  refine ⟨_, _, hheld.disposes (Account.run_fits _ _ acts) (Account.run_accepts _ {} acts) ?_⟩
  rw [Account.run_taken, Nat.zero_add]

/-- Past the last slot the circle starts over: the item that came last is lost first. -/
theorem run_disposes_wrapped :
    2 ≤ 4 ∧ ∃ queued lost, ((ofSlots 4 : Channel Nat).run [.enqueue 1, .enqueue 2, .enqueue 3,
        .enqueue 4, .dequeue, .dequeue, .enqueue 5, .enqueue 6]).2.Disposes 4
        [.enqueue 1, .enqueue 2, .enqueue 3, .enqueue 4, .dequeue, .dequeue, .enqueue 5, .enqueue 6]
        ((ofSlots 4 : Channel Nat).run [.enqueue 1, .enqueue 2, .enqueue 3, .enqueue 4, .dequeue,
          .dequeue, .enqueue 5, .enqueue 6]).1 queued lost ∧
      queued = [3, 5, 6] ∧ lost = [6, 3, 5] := by
  obtain ⟨queued, lost, h⟩ := run_disposes (α := Nat) (n := 4) (by decide) [.enqueue 1, .enqueue 2,
    .enqueue 3, .enqueue 4, .dequeue, .dequeue, .enqueue 5, .enqueue 6]
  refine ⟨by decide, queued, lost, h, ?_, ?_⟩
  · exact (List.append_cancel_left (h.fifo.symm.trans (by rfl)) :)
  · exact h.slots.trans (by decide)

end Channel

end PriceTime
