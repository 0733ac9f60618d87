import PriceTime.Proofs.Book.Census
import PriceTime.Proofs.Book.Trade
import PriceTime.Proofs.Book.Views

/-!
# What a side holds

The number of the orders of a side and the sum of their sizes are sums over the pool. Each operation
changes one order at a time, so the sums follow it: an order that comes in adds its size, one that
leaves takes with it what remained of it, and a trade takes from the other side as much as it
reports.

* `Book.Takes`: what a trade takes from a side, in orders and in size.
* `Book.Matches.takes`: a trade takes what it reports.
* `Book.WellFormed.restingSize_eq`, `Book.WellFormed.length_resting`: the sums, along the orders of a
side from the best price on.
* `Book.WellFormed.foldl_volumes`, `Book.WellFormed.sum_volumes`: the sum of the sizes, by levels.
-/

namespace PriceTime

namespace Book

variable {b b' : Book} {members : LevelKey → List Slot} {key : LevelKey} {slot : Slot}
  {side : Side} {price : Int32} {o o' : Order} {events : List Event}
  {report report' : TradeReport}

/-- The size of an order if it is on a side. -/
def sized (side : Side) (o : Order) : Nat := if o.side = side then o.size.toNat else 0

/-- The sum of the sizes of the orders of a side. -/
def sizeOn (b : Book) (side : Side) : Nat :=
  b.queues.orders.total (sized side)

/-! ## One order -/

theorem sizeOn_of_arrival (hfresh : b.card slot = none)
    (hcard : ∀ s, b'.card s = if s = slot then some o else b.card s) (side : Side) :
    b'.sizeOn side = b.sizeOn side + sized side o :=
  total_of_arrival (sized side) (fun _ => rfl) hfresh hcard

theorem sizeOn_of_removal (ho : b.card slot = some o)
    (hcard : ∀ s, b'.card s = if s = slot then none else b.card s) (side : Side) :
    b'.sizeOn side + sized side o = b.sizeOn side :=
  total_of_removal (sized side) (fun _ => rfl) ho hcard

theorem sizeOn_of_revision (ho : b.card slot = some o)
    (hcard : ∀ s, b'.card s = if s = slot then some o' else b.card s) (side : Side) :
    b'.sizeOn side + sized side o = b.sizeOn side + sized side o' :=
  total_of_revision (sized side) (fun _ => rfl) ho hcard

/-! ## A trade -/

/-- From the report `report` to `report'`, a trade takes `orders` orders of a side completely, and
`size` in all; the other side keeps everything. -/
structure Takes (side : Side) (b : Book) (report : TradeReport) (b' : Book) (report' : TradeReport)
    (orders size : Nat) : Prop where
  filled : report'.filled = report.filled + UInt32.ofNat orders
  traded : report'.traded.toNat = report.traded.toNat + size
  ordersOn : ∀ s, b'.ordersOn s + (if side = s then orders else 0) = b.ordersOn s
  sizeOn : ∀ s, b'.sizeOn s + (if side = s then size else 0) = b.sizeOn s

theorem Takes.nothing (side : Side) (b : Book) (report : TradeReport) :
    Takes side b report b report 0 0 := by
  refine ⟨?_, rfl, ?_, ?_⟩
  · exact (UInt32.add_zero _).symm
  · intro s
    rw [ite_self, Nat.add_zero]
  · intro s
    rw [ite_self, Nat.add_zero]

/-- What is unmatched is taken off a larger order. -/
theorem Takes.part (ho : b.card slot = some o) (hside : o.side = side)
    (hsize : report.unmatched < o.size)
    (hfits : report.traded.toNat + report.unmatched.toNat < 2 ^ 32)
    (hcard : ∀ s, b'.card s =
      if s = slot then some { o with size := o.size - report.unmatched } else b.card s) :
    Takes side b report b' { report with
      traded := report.traded + report.unmatched
      unmatched := 0
      reduced := report.reduced + 1 } 0 report.unmatched.toNat := by
  refine ⟨?_, ?_, ?_, ?_⟩
  · exact (UInt32.add_zero _).symm
  · rw [UInt32.toNat_add, Nat.mod_eq_of_lt hfits]
  · intro s
    rw [ite_self, Nat.add_zero]
    exact ordersOn_of_revision ho hcard rfl s
  · intro s
    have hsum := sizeOn_of_revision ho hcard s
    have hle := UInt32.le_iff_toNat_le.mp (UInt32.le_of_lt hsize)
    have hless := UInt32.toNat_sub_of_le _ _ (UInt32.le_of_lt hsize)
    unfold sized at hsum
    dsimp only at hsum
    rw [hside, hless] at hsum
    by_cases hs : side = s
    · rw [if_pos hs, if_pos hs] at hsum
      rw [if_pos hs]
      omega
    · rw [if_neg hs, if_neg hs] at hsum
      rw [if_neg hs]
      omega

/-- An order is taken completely, and then the trade goes on. -/
theorem Takes.whole {b₁ : Book} {orders size : Nat} (ho : b.card slot = some o)
    (hside : o.side = side) (hfits : report.traded.toNat + o.size.toNat < 2 ^ 32)
    (hcard : ∀ s, b₁.card s = if s = slot then none else b.card s)
    (hrest : Takes side b₁ { report with
      traded := report.traded + o.size
      unmatched := report.unmatched - o.size
      filled := report.filled + 1 } b' report' orders size) :
    Takes side b report b' report' (orders + 1) (size + o.size.toNat) := by
  obtain ⟨hfilled, htraded, horders, hsizes⟩ := hrest
  refine ⟨?_, ?_, ?_, ?_⟩
  · rw [hfilled, UInt32.add_assoc, UInt32.ofNat_add]
    congr 1
    exact UInt32.add_comm _ _
  · dsimp only at htraded
    rw [UInt32.toNat_add, Nat.mod_eq_of_lt hfits] at htraded
    omega
  · intro s
    have hone := ordersOn_of_removal ho hcard s
    have hmany := horders s
    unfold onSide at hone
    rw [hside] at hone
    by_cases hs : side = s
    · rw [if_pos hs] at hone hmany ⊢
      omega
    · rw [if_neg hs] at hone hmany ⊢
      omega
  · intro s
    have hone := sizeOn_of_removal ho hcard s
    have hmany := hsizes s
    unfold sized at hone
    rw [hside] at hone
    by_cases hs : side = s
    · rw [if_pos hs] at hone hmany ⊢
      omega
    · rw [if_neg hs] at hone hmany ⊢
      omega

/-- A trade takes what it reports. What it is about and what it has taken so far fit into a word, and
that stays so. -/
theorem Matches.takes (hmatches : Matches side price b report b' report' events) (h : b.WellFormed)
    (hfits : report.traded.toNat + report.unmatched.toNat < 2 ^ 32) :
    ∃ orders size, Takes side b report b' report' orders size := by
  induction hmatches with
  | spent => exact ⟨0, 0, .nothing ..⟩
  | exhausted => exact ⟨0, 0, .nothing ..⟩
  | part hhead ho _ hsize halters =>
    obtain ⟨hside, -⟩ := h.place_eq (List.mem_of_mem_head? hhead) ho
    exact ⟨0, _, .part ho hside hsize hfits (halters.card_of ho)⟩
  | @whole b b₁ b' report report' slot o key events more hhead ho _ _ hsize hremoved hb₁ _ ih =>
    obtain ⟨hside, -⟩ := h.place_eq (List.mem_of_mem_head? hhead) ho
    have hle := UInt32.le_iff_toNat_le.mp hsize
    have hless := UInt32.toNat_sub_of_le _ _ hsize
    have hnow : report.traded.toNat + o.size.toNat < 2 ^ 32 := by omega
    have hsum : (report.traded + o.size).toNat = report.traded.toNat + o.size.toNat := by
      rw [UInt32.toNat_add, Nat.mod_eq_of_lt hnow]
    obtain ⟨orders, size, hrest⟩ := ih hb₁ (by
      dsimp only
      omega)
    exact ⟨orders + 1, size + o.size.toNat, .whole ho hside hnow hremoved.card_eq hrest⟩

/-- A whole trade, from an empty report on. -/
theorem Traded.takes {id : UInt64} {size : UInt32}
    (htraded : b.Traded id price size side report b' events) (h : b.WellFormed) :
    ∃ orders, report.filled = UInt32.ofNat orders ∧
      (∀ s, b'.ordersOn s + (if side.opposite = s then orders else 0) = b.ordersOn s) ∧
      ∀ s, b'.sizeOn s + (if side.opposite = s then report.traded.toNat else 0) = b.sizeOn s := by
  cases htraded with
  | missed =>
    refine ⟨0, rfl, ?_, ?_⟩
    · intro s
      rw [ite_self, Nat.add_zero]
    · intro s
      show b.sizeOn s + (if side.opposite = s then 0 else 0) = b.sizeOn s
      rw [ite_self, Nat.add_zero]
  | met _ hmatches =>
    have hzero : (0 : UInt32).toNat + size.toNat < 2 ^ 32 := by
      have := size.toNat_lt
      simpa using this
    obtain ⟨orders, taken, hfilled, htraded, horders, hsizes⟩ := hmatches.takes h hzero
    have htaken : report.traded.toNat = taken := by simpa using htraded
    refine ⟨orders, ?_, horders, ?_⟩
    · simpa using hfilled
    · rw [htaken]
      exact hsizes

/-! ## Along the levels -/

/-- The orders of a side, level by level from the best price on, and the oldest first at each. -/
def resting (b : Book) (side : Side) : List Order :=
  (b.levels side).flatMap fun level => (b.ordersOf level).map Prod.snd

/-- The sum of their sizes. -/
def restingSize (b : Book) (side : Side) : Nat :=
  ((b.resting side).map fun o => o.size.toNat).sum

theorem sum_flatMap {α : Type} (xs : List α) (f : α → List Nat) :
    (xs.flatMap f).sum = (xs.map fun x => (f x).sum).sum := by
  rw [List.flatMap_def, List.sum_flatten, List.map_map]
  rfl

namespace WellFormed

variable (h : b.WellFormed)

include h

/-- The sizes of the orders of a side, along its line. -/
theorem sizeSum_lineUp (side : Side) : b.queues.orders.sizeSum (b.lineUp side) = b.sizeOn side := by
  have hshare : ∀ s, Arena.share (sized side) (b.queues.orders.get? s) =
      Arena.share (sized side) (b.card s) := share_card (sized side) (fun _ => rfl) b
  have htotal : b.sizeOn side =
      ((b.lineUp side).map fun s => Arena.share (sized side) (b.queues.orders.get? s)).sum := by
    refine Arena.total_eq_sum (sized side) (h.nodup_lineUp side) ?_
    intro s hs
    rw [hshare] at hs
    cases ho : b.card s with
    | none =>
      rw [ho] at hs
      exact absurd rfl hs
    | some o =>
      rw [ho, Arena.share_some, sized] at hs
      refine h.mem_lineUp.mpr ⟨o, ho, ?_⟩
      by_contra hside
      exact hs (if_neg hside)
  rw [htotal, Pool.sizeSum]
  congr 1
  refine List.map_congr_left fun s hs => ?_
  obtain ⟨o, ho, hside⟩ := h.mem_lineUp.mp hs
  obtain ⟨p, hp, rfl⟩ := Queues.get?_of_card ho
  have hp : b.queues.orders.get? s = some p := hp
  rw [hp, Arena.share_some, Arena.share_some]
  exact (if_pos hside).symm

/-- The sizes of the orders of a side, level by level. -/
theorem sum_sizes (side : Side) : (((b.half side).ladder.toList.map Prod.fst).map fun price =>
    b.queues.orders.sizeSum (b.slotsAt side price)).sum = b.sizeOn side := by
  rw [← h.sizeSum_lineUp, Pool.sizeSum, lineUp, List.map_flatMap, sum_flatMap, List.map_map]
  rfl

/-- The sum of the sizes of the orders of a side. -/
theorem restingSize_eq (side : Side) : b.restingSize side = b.sizeOn side := by
  have hlevels := h.map_levels side
    (fun l => ((b.ordersOf l).map fun slotted => slotted.2.size.toNat).sum)
    (fun price => b.queues.orders.sizeSum (b.slotsAt side price))
    (fun price l hlevel => (h.represents_of_level? hlevel).sum_orders h.tidy)
  rw [restingSize, resting, List.map_flatMap, sum_flatMap, ← h.sum_sizes, ← hlevels]
  simp only [List.map_map]
  rfl

/-- The number of the orders of a side. -/
theorem length_resting (side : Side) : (b.resting side).length = b.ordersOn side := by
  have hlevels := h.map_levels side (fun l => ((b.ordersOf l).map Prod.snd).length)
    (fun price => (b.slotsAt side price).length) (by
      intro price l hlevel
      rw [List.length_map, ← (h.represents_of_level? hlevel).map_fst_orders h.tidy, List.length_map]
      rfl)
  rw [resting, List.length_flatMap, hlevels, ← h.length_lineUp, lineUp, List.length_flatMap,
    List.map_map]
  rfl

/-- The volumes of the levels of a side, as words. -/
theorem foldl_volumes (side : Side) :
    (b.levels side).foldl (fun sum level => sum + level.volume) 0 =
      UInt64.ofNat (b.sizeOn side) := by
  have hlevels := h.map_levels side Level.volume
    (fun price => UInt64.ofNat (b.queues.orders.sizeSum (b.slotsAt side price)))
    fun _ _ hlevel => (h.represents_of_level? hlevel).volume_eq
  rw [← List.foldl_map, hlevels, foldl_ofNat, h.sum_sizes, UInt64.zero_add]

/-- With fewer than `2 ^ 32` orders, the volumes of the levels of a side. -/
theorem sum_volumes (hroom : b.queues.orders.size < 2 ^ 32) (side : Side) :
    ((b.levels side).map fun level => level.volume.toNat).sum = b.sizeOn side := by
  have hlevels := h.map_levels side (fun level => level.volume.toNat)
    (fun price => b.queues.orders.sizeSum (b.slotsAt side price)) (by
      intro price l hlevel
      have hlength := h.length_slotsAt_le side price
      exact (h.represents_of_level? hlevel).toNat_volume (lt_of_le_of_lt hlength hroom))
  rw [hlevels, h.sum_sizes]

end WellFormed

end Book

end PriceTime
