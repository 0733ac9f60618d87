import PriceTime.Proofs.Book.Census
import PriceTime.Proofs.Mirror.Book

/-!
# What mirrored books show

What a book shows of a side its image shows of the other one: the levels in the same order at
negated prices, the same queues, counts and volumes. The mid price is negated, because it is rounded
toward zero, and the spread stays.

* `mean_neg`: the mean of two prices and the mean of their images.
* `Book.Reflects`, `Book.Mirrors.reflects`: what mirrored books show.
-/

namespace PriceTime

/-! ## Prices between the two sides -/

theorem neg_div_two {x : Int64} (hx : x ≠ Int64.minValue) : -x / 2 = -(x / 2) := by
  have hne : x.toInt ≠ -2 ^ 63 := by
    intro h
    exact hx (Int64.toInt_inj.mp (h.trans Int64.toInt_minValue.symm))
  have hle := Int64.le_toInt x
  have hlt := Int64.toInt_lt x
  have htwo : (2 : Int64) ≠ -1 := by decide
  have hhalf := Int.natAbs_tdiv_le_natAbs x.toInt 2
  have hneg : (-x).toInt = -x.toInt := by
    rw [Int64.toInt_neg, Int.bmod_eq_of_le]
    · omega
    · omega
  apply Int64.toInt_inj.mp
  rw [Int64.toInt_div_of_ne_right _ _ htwo, hneg, Int64.toInt_neg,
    Int64.toInt_div_of_ne_right _ _ htwo, show (2 : Int64).toInt = 2 from rfl, Int.neg_tdiv,
    Int.bmod_eq_of_le]
  · omega
  · omega

/-- The mean of two prices, rounded toward zero, is negated with them. -/
theorem mean_neg {p q : Int32} (hp : p ≠ Int32.minValue) (hq : q ≠ Int32.minValue) :
    ((-p).toInt64 + (-q).toInt64) / 2 = -((p.toInt64 + q.toInt64) / 2) := by
  have hsum : p.toInt64 + q.toInt64 ≠ Int64.minValue := by
    intro h
    have hp := Int32.le_toInt p
    have hp' := Int32.toInt_lt p
    have hq := Int32.le_toInt q
    have hq' := Int32.toInt_lt q
    have htoInt := congrArg Int64.toInt h
    rw [Int64.toInt_add, Int32.toInt_toInt64, Int32.toInt_toInt64, Int64.toInt_minValue,
      Int.bmod_eq_of_le (by omega) (by omega)] at htoInt
    omega
  rw [Int32.toInt64_neg_of_ne hp, Int32.toInt64_neg_of_ne hq, ← neg_div_two hsum, Int64.neg_add,
    Int64.sub_eq_add_neg]

/-! ## Books -/

/-- The orders of the image of a level are the images of its orders, in the same slots. -/
theorem Level.walk_mirror (pool : Pool) (steps : Nat) (slot : Option Slot) :
    Level.walk pool.mirror steps slot =
      (Level.walk pool steps slot).map fun slotted => (slotted.1, slotted.2.mirror) := by
  induction steps generalizing slot with
  | zero => rfl
  | succ steps ih =>
    cases slot with
    | none => rfl
    | some slot =>
      unfold Level.walk
      rw [Pool.get?_mirror]
      cases pool.get? slot with
      | none => rfl
      | some o => exact congrArg (_ :: ·) (ih o.next)

namespace Book

variable {b b' : Book} {side : Side} {price : Int32}

/-- What a book shows of a side, the other shows of the opposite side. -/
structure Reflects (b b' : Book) : Prop where
  levels : ∀ side, b'.levels side.opposite = (b.levels side).map Level.mirror
  queues : ∀ side, ∀ l ∈ b.levels side,
    b'.ordersOf l.mirror = (b.ordersOf l).map fun slotted => (slotted.1, slotted.2.mirror)
  /-- So the negated price of a level is as far from zero as its price. -/
  price_ne : ∀ side, ∀ l ∈ b.levels side, l.price ≠ Int32.minValue
  level? : ∀ side price, b'.level? side.opposite (-price) = (b.level? side price).map Level.mirror
  get? : ∀ id, b'.get? id = (b.get? id).map Order.mirror
  count : ∀ side, (b'.half side.opposite).count = (b.half side).count
  levelCount : ∀ side, b'.levelCount side.opposite = b.levelCount side
  bestPrice? : ∀ side, b'.bestPrice? side.opposite = (b.bestPrice? side).map fun price => -price
  bestVolume? : ∀ side, b'.bestVolume? side.opposite = b.bestVolume? side
  midPrice? : b'.midPrice? = b.midPrice?.map fun price => -price
  spread? : b'.spread? = b.spread?

namespace Mirrors

variable (h : b.Mirrors b')

include h

theorem levels (side : Side) : b'.levels side.opposite = (b.levels side).map Level.mirror := by
  unfold Book.levels
  rw [(h.half side).ladder, Ladder.keys_mirror, List.map_filterMap]
  congr 1
  funext key
  exact h.queues.get?_levels key

theorem ordersOf (l : Level) : b'.ordersOf l.mirror =
    (b.ordersOf l).map fun slotted => (slotted.1, slotted.2.mirror) := by
  show Level.walk b'.queues.orders b'.queues.orders.size l.head = _
  rw [h.queues.size_orders, h.queues.orders_eq]
  exact Level.walk_mirror _ _ _

theorem level? (side : Side) (price : Int32) :
    b'.level? side.opposite (-price) = (b.level? side price).map Level.mirror := by
  unfold Book.level?
  rw [h.levelKey?]
  cases b.levelKey? side price with
  | none => rfl
  | some key => exact h.queues.get?_levels key

theorem get? (id : UInt64) : b'.get? id = (b.get? id).map Order.mirror := by
  unfold Book.get?
  rw [h.index]
  cases b.index[id]? with
  | none => rfl
  | some slot => exact h.queues.get?_orders slot

theorem best? (side : Side) : b'.best? side.opposite = (b.best? side).map Level.mirror := by
  unfold Book.best?
  rw [(h.half side).ladder, Ladder.best?_mirror]
  cases (b.half side).ladder.best? with
  | none => rfl
  | some entry => exact h.queues.get?_levels entry.2

theorem bestPrice? (side : Side) :
    b'.bestPrice? side.opposite = (b.bestPrice? side).map fun price => -price := by
  unfold Book.bestPrice?
  rw [(h.half side).ladder, Ladder.best?_mirror, Option.map_map, Option.map_map]
  rfl

theorem bestVolume? (side : Side) : b'.bestVolume? side.opposite = b.bestVolume? side := by
  unfold Book.bestVolume?
  rw [h.best?, Option.map_map]
  rfl

theorem bestQuote? (side : Side) :
    b'.bestQuote? side.opposite = (b.bestQuote? side).map fun quote => (-quote.1, quote.2) := by
  unfold Book.bestQuote?
  rw [(h.half side).ladder, Ladder.best?_mirror]
  cases (b.half side).ladder.best? with
  | none => rfl
  | some entry =>
    show (b'.queues.levels.get? entry.2).map (fun level => (-entry.1, level.volume)) =
      ((b.queues.levels.get? entry.2).map fun level => (entry.1, level.volume)).map _
    rw [h.queues.get?_levels, Option.map_map, Option.map_map]
    rfl

theorem price_ne (side : Side) : ∀ l ∈ b.levels side, l.price ≠ Int32.minValue := by
  intro l hl
  obtain ⟨key, -, hkey⟩ := List.mem_filterMap.mp hl
  exact h.queues.price_ne key l hkey

/-- The best price is the price of a level. -/
theorem bestPrice_ne (hb : b.WellFormed) (hprice : b.bestPrice? side = some price) :
    price ≠ Int32.minValue := by
  obtain ⟨members, hstands⟩ := hb.stands
  obtain ⟨⟨p, key⟩, hbest, rfl⟩ := Option.map_eq_some_iff.mp hprice
  rw [(hstands.shelved.sound side).best?_eq] at hbest
  have hmem := List.mem_of_mem_head? hbest
  have hkey := hstands.mem_ladder.mp hmem
  obtain ⟨l, hl, hlabel, -⟩ := hstands.level?_of_key hkey
  have hlprice : l.price = p := congrArg Prod.snd hlabel
  rw [← hlprice]
  exact h.queues.price_ne key l hl

theorem bestQuote_ne (hb : b.WellFormed) {quote : Int32 × UInt64}
    (hquote : b.bestQuote? side = some quote) : quote.1 ≠ Int32.minValue := by
  obtain ⟨entry, hentry, hquote⟩ := Option.bind_eq_some_iff.mp hquote
  obtain ⟨l, -, rfl⟩ := Option.map_eq_some_iff.mp hquote
  exact h.bestPrice_ne hb (congrArg (Option.map Prod.fst) hentry)

theorem midPrice? (hb : b.WellFormed) : b'.midPrice? = b.midPrice?.map fun price => -price := by
  have hbid : b'.bestPrice? .bid = _ := h.bestPrice? .ask
  have hask : b'.bestPrice? .ask = _ := h.bestPrice? .bid
  unfold Book.midPrice?
  rw [hbid, hask]
  cases hb' : b.bestPrice? .bid with
  | none => cases b.bestPrice? .ask <;> rfl
  | some bid =>
    cases ha' : b.bestPrice? .ask with
    | none => rfl
    | some ask =>
      have hbidne := h.bestPrice_ne hb hb'
      have haskne := h.bestPrice_ne hb ha'
      show some (((-ask).toInt64 + (-bid).toInt64) / 2).toInt32 =
        some (-((bid.toInt64 + ask.toInt64) / 2).toInt32)
      rw [mean_neg haskne hbidne, Int64.toInt32_neg, Int64.add_comm]

theorem spread? (hb : b.WellFormed) : b'.spread? = b.spread? := by
  have hbid : b'.bestPrice? .bid = _ := h.bestPrice? .ask
  have hask : b'.bestPrice? .ask = _ := h.bestPrice? .bid
  unfold Book.spread?
  rw [hbid, hask]
  cases hb' : b.bestPrice? .bid with
  | none => cases b.bestPrice? .ask <;> rfl
  | some bid =>
    cases ha' : b.bestPrice? .ask with
    | none => rfl
    | some ask =>
      have hbidne := h.bestPrice_ne hb hb'
      have haskne := h.bestPrice_ne hb ha'
      show some ((-bid).toInt64 - (-ask).toInt64) = some (ask.toInt64 - bid.toInt64)
      rw [Int32.toInt64_neg_of_ne hbidne, Int32.toInt64_neg_of_ne haskne, Int64.sub_neg,
        Int64.add_comm, Int64.sub_eq_add_neg]

theorem reflects (hb : b.WellFormed) : b.Reflects b' where
  levels := h.levels
  queues _ l _ := h.ordersOf l
  price_ne := h.price_ne
  level? := h.level?
  get? := h.get?
  count side := (h.half side).count
  levelCount side := by
    show (b'.half side.opposite).ladder.size = _
    rw [(h.half side).ladder]
    rfl
  bestPrice? := h.bestPrice?
  bestVolume? := h.bestVolume?
  midPrice? := h.midPrice? hb
  spread? := h.spread? hb

end Mirrors

end Book

end PriceTime
