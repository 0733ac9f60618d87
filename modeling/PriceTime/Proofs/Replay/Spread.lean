import Mathlib.Data.Finset.Prod
import Mathlib.Data.Nat.Count
import PriceTime.Proofs.Feed

/-!
# How a feed spreads its orders

The book counts the orders of a level in a word of 32 bits. The feed adds its orders at a hundred
places, bids below the middle and asks above it, and the middle drifts from one price to the next; so
at most one message in eighty adds an order at the same price of the same side, and it takes that
much longer until the word of a level wraps around.

* `Feed.quota_le`: how many of the first messages can add an order at a price.
* `Message.Suits.length_slotsAt_le`: only an order that is added makes a queue longer.
* `Feed.Ready.length_slotsAt_le`: no queue is longer than its quota.
-/

namespace PriceTime

namespace Feed

/-- How many of the first `n` messages can add an order at a price of a side. -/
def quota (n : Nat) (side : Side) (price : Int32) : Nat :=
  Nat.count (fun k => spot (k + 1) = (side, price.toInt)) n

/-- While the middle goes through its forty prices, it comes to five from which a price is reached,
and stays at each for 500 messages; every tenth of them reaches the price. -/
theorem quota_le (n : Nat) (side : Side) (price : Int32) :
    quota n side price ≤ 250 * (n / 20000 + 1) := by
  unfold quota
  rw [Nat.count_eq_card_filter_range]
  have hcard := Finset.card_le_card_of_injOn
    (s := {k ∈ Finset.range n | spot (k + 1) = (side, price.toInt)})
    (t := Finset.range (n / 20000 + 1) ×ˢ (Finset.range 5 ×ˢ Finset.range 50))
    (fun k => ((k + 1) / 20000, (k + 1) % 5, (k + 1) % 500 / 10)) ?_ ?_
  · simp only [Finset.card_product, Finset.card_range] at hcard
    omega
  · intro k hk
    have hk := Finset.mem_range.mp (Finset.mem_filter.mp hk).1
    simp only [Finset.coe_product, Set.mem_prod, Finset.mem_coe, Finset.mem_range]
    omega
  · intro j hj k hk heq
    obtain ⟨hcycle, hrest⟩ := Prod.mk.inj heq
    obtain ⟨hfive, hten⟩ := Prod.mk.inj hrest
    have hspot : spot (j + 1) = spot (k + 1) :=
      (Finset.mem_filter.mp hj).2.trans (Finset.mem_filter.mp hk).2.symm
    unfold spot at hspot
    split at hspot <;> split at hspot
    · have := (Prod.mk.inj hspot).2
      omega
    · cases (Prod.mk.inj hspot).1
    · cases (Prod.mk.inj hspot).1
    · have := (Prod.mk.inj hspot).2
      omega

end Feed

/-! ## The queues of the book -/

/-- What suits a book makes a queue longer only where it adds an order. -/
theorem Message.Suits.length_slotsAt_le {m : Message} {b b' : Book}
    {result : Except BookError Applied} (hsuits : m.Suits b result)
    (hperforms : b.Performs m.operation result b') (h : b.WellFormed) (side : Side)
    (price : Int32) : (b'.slotsAt side price).length ≤ (b.slotsAt side price).length +
      if m.action = .add ∧ (m.side, m.price) = (side, price) then 1 else 0 := by
  unfold Message.operation at hperforms
  cases hsuits with
  | added haction =>
    rw [haction] at hperforms
    cases hperforms with
    | added _ hadded =>
      rw [hadded.slotsAt_eq]
      simp only [haction, true_and, Prod.mk.injEq, eq_comm (a := side), eq_comm (a := price)]
      split
      · rw [List.length_append, List.length_singleton]
      · exact Nat.le_refl _
  | cancelled haction =>
    rw [haction] at hperforms
    cases hperforms with
    | cancelled _ _ hremoved =>
      exact (hremoved.length_slotsAt_le side price).trans (Nat.le_add_right ..)
  | modified haction _ _ _ houtcome =>
    rw [haction] at hperforms
    generalize hresult : (Except.ok (Applied.modified _) : Except BookError Applied) = result
      at hperforms
    cases hperforms with
    | @modified _ _ _ _ _ _ _ answer hmodified =>
      cases answer with
      | error error => cases hresult
      | ok outcome =>
        cases hresult
        exact (hmodified.length_slotsAt_le h houtcome side price).trans (Nat.le_add_right ..)
  | traded haction =>
    rw [haction] at hperforms
    cases hperforms with
    | traded htraded => exact (htraded.length_slotsAt_le side price).trans (Nat.le_add_right ..)

namespace Feed

variable {f f' : Feed} {b b' : Book} {m : Message} {n : Nat}

theorem quota_succ (n : Nat) (side : Side) (price : Int32) : quota (n + 1) side price =
    quota n side price + if spot (n + 1) = (side, price.toInt) then 1 else 0 :=
  Nat.count_succ _ _

/-- An order is added at the spot of its message. -/
theorem Sends.spot_eq (hsends : f.Sends b m f') (hadd : m.action = .add) :
    (m.side, m.price.toInt) = spot f.seq.toNat := by
  cases hsends with
  | added _ _ _ hspot => exact hspot
  | cancelled | modified | traded => cases hadd

/-- No queue gets longer than its quota. -/
theorem Ready.length_slotsAt_le {result : Except BookError Applied} (hf : f.Ready b n)
    (h : b.WellFormed) (hsends : f.Sends b m f') (hsuits : m.Suits b result)
    (hperforms : b.Performs m.operation result b') {side : Side} {price : Int32}
    (hle : (b.slotsAt side price).length ≤ quota n side price) :
    (b'.slotsAt side price).length ≤ quota (n + 1) side price := by
  refine (hsuits.length_slotsAt_le hperforms h side price).trans ?_
  rw [quota_succ]
  refine Nat.add_le_add hle ?_
  split
  · rename_i hadds
    have hspot := hsends.spot_eq hadds.1
    obtain ⟨hside, hprice⟩ := Prod.mk.inj hadds.2
    rw [hf.seq_eq, hside, hprice] at hspot
    rw [if_pos hspot.symm]
  · exact Nat.zero_le _

end Feed

end PriceTime
