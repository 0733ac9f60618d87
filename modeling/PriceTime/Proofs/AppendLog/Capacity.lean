import Mathlib.Algebra.GroupWithZero.Nat
import PriceTime.Proofs.AppendLog

/-!
# Capacities grow by doubling

The capacity of a log is doubled until it is enough, and not once more. So how often it was doubled
depends on how much was asked for altogether, and not on the steps in which it was asked for.

Capacities are numbers of 64 bits. As long as no more than `2 ^ 63` bytes are asked for, doubling
stays within them, whatever the first capacity was.

* `AppendLog.exists_enough`: the least doubling that is enough.
* `AppendLog.enough_enough`: asking in steps.
* `AppendLog.Doubles`, `AppendLog.doubles_enough`: doubling on words.
-/

namespace PriceTime

namespace AppendLog

variable {capacity required more : Nat}

theorem enough_of_le (h : required ≤ capacity) : enough capacity required = capacity := by
  rw [enough_eq, if_neg (by omega)]

theorem enough_of_lt (hpos : 0 < capacity) (h : capacity < required) :
    enough capacity required = enough (2 * capacity) required := by
  rw [enough_eq, if_pos ⟨hpos, h⟩]

/-- What is enough is the least doubling that is not too small. -/
theorem exists_enough (hpos : 0 < capacity) (required : Nat) :
    ∃ k, enough capacity required = capacity * 2 ^ k ∧ required ≤ capacity * 2 ^ k ∧
      ∀ j < k, capacity * 2 ^ j < required := by
  induction capacity using enough.induct required with
  | case1 capacity hless ih =>
    obtain ⟨k, hk, hle, hleast⟩ := ih (by omega)
    have hdouble (j : Nat) : 2 * capacity * 2 ^ j = capacity * 2 ^ (j + 1) := by
      rw [Nat.pow_succ, Nat.mul_comm 2 capacity, Nat.mul_assoc, Nat.mul_comm 2]
    rw [hdouble] at hk hle
    refine ⟨k + 1, (enough_of_lt hless.1 hless.2).trans hk, hle, ?_⟩
    intro j hj
    cases j with
    | zero => simpa using hless.2
    | succ j => simpa only [hdouble] using hleast j (by omega)
  | case2 capacity henough =>
    have hle : required ≤ capacity := by omega
    exact ⟨0, by simpa using enough_of_le hle, by simpa using hle,
      fun j hj => absurd hj (Nat.not_lt_zero j)⟩

/-- Asking for some and then for more is asking for more at once. -/
theorem enough_enough (hpos : 0 < capacity) (h : required ≤ more) :
    enough (enough capacity required) more = enough capacity more := by
  induction capacity using enough.induct required with
  | case1 capacity hless ih =>
    rw [enough_of_lt hless.1 hless.2, ih (by omega), ← enough_of_lt hless.1 (by omega)]
  | case2 capacity henough =>
    have hle : required ≤ capacity := by omega
    rw [enough_of_le hle]

/-- A capacity is doubled to less than twice of what is asked for. -/
theorem enough_lt (hpos : 0 < capacity) (h : capacity < required) :
    enough capacity required < 2 * required := by
  induction capacity using enough.induct required with
  | case1 capacity hless ih =>
    rw [enough_of_lt hless.1 hless.2]
    by_cases hagain : 2 * capacity < required
    · exact ih (by omega) hagain
    · rw [enough_of_le (by omega)]
      omega
  | case2 capacity henough => omega

/-! ## On words -/

/-- Doubling a word until it is not less than another one comes to an end, and never leaves the
words. -/
inductive Doubles (required : UInt64) : UInt64 → UInt64 → Prop where
  | done {capacity : UInt64} (h : ¬ capacity < required) : Doubles required capacity capacity
  | again {capacity result : UInt64} (h : capacity < required)
      (hfits : 2 * capacity.toNat < UInt64.size) (hrest : Doubles required (2 * capacity) result) :
      Doubles required capacity result

theorem enough_lt_size {capacity required : Nat} (hcapacity : capacity < UInt64.size)
    (hrequired : required ≤ 2 ^ 63) : enough capacity required < UInt64.size := by
  by_cases hless : 0 < capacity ∧ capacity < required
  · have := enough_lt hless.1 hless.2
    rw [show UInt64.size = 2 * 2 ^ 63 from rfl]
    omega
  · rwa [enough_eq, if_neg hless]

/-- As long as not too much is asked for, words are doubled like numbers. -/
theorem doubles_enough (hpos : 0 < capacity) (hcapacity : capacity < UInt64.size)
    (hrequired : required ≤ 2 ^ 63) :
    Doubles (.ofNat required) (.ofNat capacity) (.ofNat (enough capacity required)) := by
  have hword {n : Nat} (hn : n < UInt64.size) : (UInt64.ofNat n).toNat = n :=
    UInt64.toNat_ofNat_of_lt' hn
  have hsize : UInt64.size = 2 * 2 ^ 63 := rfl
  have hless : UInt64.ofNat capacity < .ofNat required ↔ capacity < required := by
    rw [UInt64.lt_iff_toNat_lt, hword hcapacity, hword (by omega)]
  induction capacity using enough.induct required with
  | case1 capacity hagain ih =>
    have hfits : 2 * capacity < UInt64.size := by omega
    have hdouble : 2 * UInt64.ofNat capacity = .ofNat (2 * capacity) := by
      rw [UInt64.ofNat_mul]
      rfl
    rw [enough_of_lt hagain.1 hagain.2]
    refine .again (hless.mpr hagain.2) (by rwa [hword hcapacity]) ?_
    rw [hdouble]
    refine ih (by omega) hfits ?_
    rw [UInt64.lt_iff_toNat_lt, hword hfits, hword (by omega)]
  | case2 capacity henough =>
    rw [enough_of_le (by omega)]
    exact .done (by rw [hless]; omega)

end AppendLog

end PriceTime
