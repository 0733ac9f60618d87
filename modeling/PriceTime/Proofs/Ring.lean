import PriceTime.Ring

/-!
# Rings hold lists

The items of a ring, from the head on, make a list that is shorter than the circle. A push puts an
item at its end unless there is but one slot left, and a pop takes its first item. The slots in use
are those from the head up to the tail, wherever the circle starts over, so a slot is never found
empty where an item is due.

* `Ring.Holds`: the list that a ring holds.
* `Ring.Holds.push_full`, `Ring.Holds.push_room`, `Ring.Holds.pop_nil`, `Ring.Holds.pop_cons`: the
operations on the list.
* `Ring.Holds.occupied_iff`: the slots in use.
-/

namespace PriceTime.Ring

variable {α : Type} {r : Ring α} {items : List α} {x : α}

/-- Less than twice around the circle, a place is found without division. -/
theorem mod_eq_ite {n a : Nat} (ha : a < 2 * n) : a % n = if a < n then a else a - n := by
  split
  · rename_i hlt
    exact Nat.mod_eq_of_lt hlt
  · rename_i hle
    rw [Nat.mod_eq_sub_mod (by omega), Nat.mod_eq_of_lt (by omega)]

/-- A ring holds the items of a list: they lie one after the other from the head on, and all other
slots are empty. -/
structure Holds (r : Ring α) (items : List α) : Prop where
  head_lt : r.head < r.slots.size
  length_lt : items.length < r.slots.size
  tail_eq : r.tail = (r.head + items.length) % r.slots.size
  slot_eq : ∀ i < r.slots.size, r.slots[(r.head + i) % r.slots.size]? = some items[i]?

/-- A slot lies from the head up to, not including, the tail, past the last slot on to the first. -/
def Between (r : Ring α) (slot : Nat) : Prop :=
  if r.head ≤ r.tail then r.head ≤ slot ∧ slot < r.tail else r.head ≤ slot ∨ slot < r.tail

theorem holds_ofSlots {n : Nat} (hn : 0 < n) : (ofSlots n : Ring α).Holds [] where
  head_lt := by simpa [ofSlots] using hn
  length_lt := by simpa [ofSlots] using hn
  tail_eq := by simp [ofSlots]
  slot_eq := by
    intro i _
    have hlt : i % n < n := Nat.mod_lt i hn
    simp [ofSlots, hlt]

namespace Holds

variable (h : r.Holds items)

include h

theorem tail_lt : r.tail < r.slots.size := by
  rw [h.tail_eq]
  exact Nat.mod_lt _ (Nat.zero_lt_of_lt h.head_lt)

theorem length_le_capacity : items.length ≤ r.capacity := by
  have := h.length_lt
  unfold capacity
  omega

theorem size_eq : r.size = items.length := by
  have hhead := h.head_lt
  have hlength := h.length_lt
  unfold size
  rw [h.tail_eq, mod_eq_ite (a := r.head + items.length) (by omega)]
  split
  · rw [mod_eq_ite (by omega)]
    split <;> omega
  · rw [mod_eq_ite (by omega)]
    split <;> omega

theorem head_eq_tail_iff : r.head = r.tail ↔ items = [] := by
  have hhead := h.head_lt
  have hlength := h.length_lt
  rw [h.tail_eq, mod_eq_ite (by omega), ← List.length_eq_zero_iff]
  split <;> omega

theorem isEmpty_iff : r.isEmpty = true ↔ items = [] := by
  rw [isEmpty, beq_iff_eq, h.head_eq_tail_iff]

theorem isFull_iff : r.isFull = true ↔ items.length = r.capacity := by
  rw [isFull, beq_iff_eq, h.size_eq]

theorem after_tail_eq_head_iff : r.after r.tail = r.head ↔ items.length = r.capacity := by
  have hhead := h.head_lt
  have hlength := h.length_lt
  unfold after capacity
  rw [h.tail_eq, Nat.mod_add_mod, mod_eq_ite (by omega)]
  split <;> omega

/-! ## Slots in use -/

/-- The place of a slot, counted from the head on. -/
theorem exists_offset {slot : Nat} (hslot : slot < r.slots.size) :
    ∃ i < r.slots.size, (r.head + i) % r.slots.size = slot ∧
      (r.Between slot ↔ i < items.length) := by
  have hhead := h.head_lt
  have hlength := h.length_lt
  unfold Between
  rw [h.tail_eq, mod_eq_ite (a := r.head + items.length) (by omega)]
  by_cases hle : r.head ≤ slot
  · refine ⟨slot - r.head, by omega, ?_, ?_⟩
    · rw [Nat.add_sub_cancel' hle, Nat.mod_eq_of_lt hslot]
    · split <;> split <;> omega
  · refine ⟨slot + r.slots.size - r.head, by omega, ?_, ?_⟩
    · rw [mod_eq_ite (by omega)]
      split <;> omega
    · split <;> split <;> omega

/-- The slots in use are those from the head up to the tail. -/
theorem occupied_iff {slot : Nat} (hslot : slot < r.slots.size) :
    (∃ x, r.slots[slot]? = some (some x)) ↔ r.Between slot := by
  obtain ⟨i, hi, rfl, hbetween⟩ := h.exists_offset hslot
  rw [hbetween, h.slot_eq i hi]
  simp [← Option.isSome_iff_exists]

/-- Where an item is due, there is one. -/
theorem head_occupied (hne : r.head ≠ r.tail) : ∃ x, r.slots[r.head]? = some (some x) := by
  rw [h.occupied_iff h.head_lt]
  unfold Between
  split <;> omega

/-! ## The two operations -/

theorem push_full (hfull : items.length = r.capacity) (x : α) : r.push x = (.error x, r) := by
  rw [push, if_pos (h.after_tail_eq_head_iff.mpr hfull)]

theorem push_room (hroom : items.length < r.capacity) (x : α) :
    r.push x = (.ok (), ⟨r.slots.setIfInBounds r.tail (some x), r.head, r.after r.tail⟩) := by
  rw [push, if_neg]
  rw [h.after_tail_eq_head_iff]
  omega

theorem push (hroom : items.length < r.capacity) (x : α) :
    (⟨r.slots.setIfInBounds r.tail (some x), r.head, r.after r.tail⟩ : Ring α).Holds
      (items ++ [x]) := by
  have hhead := h.head_lt
  unfold capacity at hroom
  refine ⟨?_, ?_, ?_, ?_⟩
  · simpa using hhead
  · simp only [Array.size_setIfInBounds, List.length_append, List.length_singleton]
    omega
  · simp only [after, Array.size_setIfInBounds, List.length_append, List.length_singleton]
    rw [h.tail_eq, Nat.mod_add_mod, Nat.add_assoc]
  · intro i hi
    simp only [Array.size_setIfInBounds] at hi ⊢
    -- The tail is as far from the head as the list is long, so the other slots stay as they were.
    by_cases hlast : i = items.length
    · rw [hlast, ← h.tail_eq, Array.getElem?_setIfInBounds_self_of_lt h.tail_lt]
      simp
    · have hother : r.tail ≠ (r.head + i) % r.slots.size := by
        have hlength := h.length_lt
        rw [h.tail_eq, mod_eq_ite (by omega), mod_eq_ite (by omega)]
        split <;> split <;> omega
      rw [Array.getElem?_setIfInBounds_ne hother, h.slot_eq i hi]
      by_cases hlt : i < items.length
      · rw [List.getElem?_append_left hlt]
      · rw [List.getElem?_eq_none (by omega), List.getElem?_eq_none (by simp; omega)]

end Holds

theorem Holds.pop_nil (h : r.Holds []) : r.pop = (none, r) := by
  rw [pop, if_pos (h.head_eq_tail_iff.mpr rfl)]

theorem Holds.pop_cons (h : r.Holds (x :: items)) :
    r.pop = (some x, ⟨r.slots.setIfInBounds r.head none, r.after r.head, r.tail⟩) := by
  have hne : r.head ≠ r.tail := fun heq => by simpa using h.head_eq_tail_iff.mp heq
  have hslot : r.slots[r.head]? = some (some x) := by
    have hzero := h.slot_eq 0 (Nat.zero_lt_of_lt h.head_lt)
    rw [Nat.add_zero, Nat.mod_eq_of_lt h.head_lt] at hzero
    exact hzero
  rw [pop, if_neg hne, hslot]

theorem Holds.pop (h : r.Holds (x :: items)) :
    (⟨r.slots.setIfInBounds r.head none, r.after r.head, r.tail⟩ : Ring α).Holds items := by
  have hhead := h.head_lt
  have hlength := h.length_lt
  rw [List.length_cons] at hlength
  refine ⟨?_, ?_, ?_, ?_⟩
  · simpa [after] using Nat.mod_lt _ (Nat.zero_lt_of_lt hhead)
  · simp only [Array.size_setIfInBounds]
    omega
  · simp only [after, Array.size_setIfInBounds]
    rw [h.tail_eq, List.length_cons, Nat.mod_add_mod, Nat.add_right_comm, Nat.add_assoc]
  · intro i hi
    simp only [after, Array.size_setIfInBounds] at hi ⊢
    rw [Nat.mod_add_mod, Nat.add_right_comm, Nat.add_assoc]
    -- Once around the circle lies the slot that was just emptied.
    by_cases hlast : i + 1 = r.slots.size
    · rw [hlast, Nat.add_mod_right, Nat.mod_eq_of_lt hhead,
        Array.getElem?_setIfInBounds_self_of_lt hhead, List.getElem?_eq_none (by omega)]
    · have hother : r.head ≠ (r.head + (i + 1)) % r.slots.size := by
        rw [mod_eq_ite (by omega)]
        split <;> omega
      rw [Array.getElem?_setIfInBounds_ne hother, h.slot_eq (i + 1) (by omega),
        List.getElem?_cons_succ]

end PriceTime.Ring
