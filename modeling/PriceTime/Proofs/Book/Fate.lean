import PriceTime.Proofs.Book.Trade

/-!
# What a trade leaves of an order

A trade leaves an order in its slot, possibly with a smaller size, unless the order waits at the
price of the trade and is no larger than what the trade takes.

* `Book.Matches.fate`, `Book.Traded.fate`: what becomes of each order.
* `Book.Traded.traded_add_unmatched`: what is taken and what is not make up the size.
* `Book.Matches.card_eq_none`: no order comes in.
* `Book.Traded.traded_pos`: a trade that meets an order takes something.
-/

namespace PriceTime

namespace Book

variable {b b' : Book} {slot : Slot} {o : Order} {id : UInt64} {side : Side} {price : Int32}
  {size : UInt32} {report report' : TradeReport} {events : List Event} {taken taken' : Nat}

/-- What a trade that takes `taken` at a price of a side may leave of an order. -/
inductive Fate (side : Side) (price : Int32) (taken : Nat) (o : Order) : Option Order → Prop where
  | kept {size : UInt32} (hle : size ≤ o.size) (hpos : 0 < o.size → 0 < size) :
      Fate side price taken o (some { o with size })
  | filled (hside : o.side = side) (hprice : o.price = price) (htaken : o.size.toNat ≤ taken) :
      Fate side price taken o none

theorem Fate.same (side : Side) (price : Int32) (taken : Nat) (o : Order) :
    Fate side price taken o (some o) :=
  @Fate.kept side price taken o o.size (UInt32.le_refl _) id

theorem Fate.mono {left : Option Order} (h : Fate side price taken o left) (hle : taken ≤ taken') :
    Fate side price taken' o left := by
  cases h with
  | kept hsize hpos => exact .kept hsize hpos
  | filled hside hprice htaken => exact .filled hside hprice (htaken.trans hle)

/-- A turn takes a size from what is open, and no word wraps. -/
theorem toNat_take {traded unmatched size : UInt32}
    (hfits : traded.toNat + unmatched.toNat < 2 ^ 32) (hle : size ≤ unmatched) :
    (traded + size).toNat = traded.toNat + size.toNat ∧
      (unmatched - size).toNat + size.toNat = unmatched.toNat := by
  have hless := UInt32.toNat_sub_of_le _ _ hle
  rw [UInt32.le_iff_toNat_le] at hle
  rw [UInt32.toNat_add, Nat.mod_eq_of_lt (by omega)]
  omega

/-- What was taken and what is open always add up to the same. -/
theorem Matches.traded_le (hmatches : Matches side price b report b' report' events)
    (hfits : report.traded.toNat + report.unmatched.toNat < 2 ^ 32) :
    report.traded.toNat ≤ report'.traded.toNat ∧
      report'.traded.toNat + report'.unmatched.toNat =
        report.traded.toNat + report.unmatched.toNat := by
  induction hmatches with
  | spent => exact ⟨Nat.le_refl _, rfl⟩
  | exhausted => exact ⟨Nat.le_refl _, rfl⟩
  | @part b b' report slot o hhead ho hopen hsize halters =>
    obtain ⟨hsum, -⟩ := toNat_take hfits (UInt32.le_refl _)
    dsimp only
    rw [hsum]
    exact ⟨Nat.le_add_right _ _, Nat.add_zero _⟩
  | @whole b b₁ b' report report' slot o key events more hhead ho hlevel hopen hsize hremoved hb₁
      hrest ih =>
    obtain ⟨hsum, hless⟩ := toNat_take hfits hsize
    dsimp only at ih
    obtain ⟨hmore, hboth⟩ := ih (by omega)
    exact ⟨by omega, by omega⟩

/-- A trade brings no order in. -/
theorem Matches.card_eq_none (hmatches : Matches side price b report b' report' events)
    (hnone : b.card slot = none) : b'.card slot = none := by
  induction hmatches with
  | spent => exact hnone
  | exhausted => exact hnone
  | part _ _ _ _ halters =>
    rw [halters.card_eq, hnone, Option.map_none, ite_self]
  | whole _ _ _ _ _ hremoved _ _ ih =>
    apply ih
    rw [hremoved.card_eq, hnone, ite_self]

/-- What becomes of each order, given what the trade takes. -/
theorem Matches.fate (hmatches : Matches side price b report b' report' events) (h : b.WellFormed)
    (hfits : report.traded.toNat + report.unmatched.toNat < 2 ^ 32) (ho : b.card slot = some o) :
    Fate side price (report'.traded.toNat - report.traded.toNat) o (b'.card slot) := by
  induction hmatches with
  | spent =>
    rw [ho]
    exact Fate.same ..
  | exhausted =>
    rw [ho]
    exact Fate.same ..
  | @part b b' report head p hhead hp hopen hsize halters =>
    rw [halters.card_of hp]
    split
    · rename_i hs
      subst hs
      obtain rfl : p = o := Option.some.inj (hp.symm.trans ho)
      have hle := UInt32.le_of_lt hsize
      have hless := UInt32.toNat_sub_of_le _ _ hle
      have hlt := UInt32.lt_iff_toNat_lt.mp hsize
      refine .kept ?_ ?_
      · rw [UInt32.le_iff_toNat_le]
        omega
      · intro
        rw [UInt32.lt_iff_toNat_lt, hless]
        exact Nat.sub_pos_of_lt hlt
    · rw [ho]
      exact Fate.same ..
  | @whole b b₁ b' report report' head p key events more hhead hp hlevel hopen hsize hremoved hb₁
      hrest ih =>
    obtain ⟨hside, hprice⟩ := h.place_eq (List.mem_of_mem_head? hhead) hp
    obtain ⟨hsum, hless⟩ := toNat_take hfits hsize
    have hfits₁ : (report.traded + p.size).toNat + (report.unmatched - p.size).toNat < 2 ^ 32 := by
      omega
    have hcard := hremoved.card_eq slot
    by_cases hs : slot = head
    · rw [if_pos hs] at hcard
      rw [hrest.card_eq_none hcard]
      subst hs
      obtain rfl : p = o := Option.some.inj (hp.symm.trans ho)
      obtain ⟨hmore, -⟩ := hrest.traded_le hfits₁
      dsimp only at hmore
      exact .filled hside hprice (by omega)
    · rw [if_neg hs] at hcard
      refine (ih hb₁ hfits₁ (hcard.trans ho)).mono ?_
      dsimp only
      omega

/-- Something is taken where something is open and the oldest order has a size. -/
theorem Matches.traded_lt (hmatches : Matches side price b report b' report' events)
    (hfits : report.traded.toNat + report.unmatched.toNat < 2 ^ 32) (hopen : report.unmatched ≠ 0)
    (hhead : (b.slotsAt side price).head? = some slot) (ho : b.card slot = some o)
    (hsize : 0 < o.size) : report.traded.toNat < report'.traded.toNat := by
  have hleft : 0 < report.unmatched.toNat :=
    UInt32.lt_iff_toNat_lt.mp (UInt32.pos_iff_ne_zero.mpr hopen)
  have hpos : 0 < o.size.toNat := UInt32.lt_iff_toNat_lt.mp hsize
  cases hmatches with
  | spent hspent => exact absurd hspent hopen
  | exhausted hslots =>
    rw [hslots] at hhead
    cases hhead
  | part =>
    dsimp only
    rw [UInt32.toNat_add, Nat.mod_eq_of_lt hfits]
    omega
  | whole hhead' hp _ _ hle _ _ hrest =>
    obtain rfl := Option.some.inj (hhead'.symm.trans hhead)
    obtain rfl := Option.some.inj (hp.symm.trans ho)
    obtain ⟨hsum, hless⟩ := toNat_take hfits hle
    obtain ⟨hmore, -⟩ := hrest.traded_le (by
      dsimp only
      omega)
    dsimp only at hmore
    omega

/-! ## A whole trade -/

/-- What becomes of each order in a trade. -/
theorem Traded.fate (htraded : b.Traded id price size side report b' events) (h : b.WellFormed)
    (ho : b.card slot = some o) :
    Fate side.opposite price report.traded.toNat o (b'.card slot) := by
  cases htraded with
  | missed =>
    rw [ho]
    exact Fate.same ..
  | met _ hmatches =>
    have hfits : (0 : UInt32).toNat + size.toNat < 2 ^ 32 := by simpa using size.toNat_lt
    exact (hmatches.fate h hfits ho).mono (Nat.sub_le _ _)

/-- What a trade takes and what it leaves unmatched make up its size. -/
theorem Traded.traded_add_unmatched (htraded : b.Traded id price size side report b' events) :
    report.traded.toNat + report.unmatched.toNat = size.toNat := by
  have hopen : (0 : UInt32).toNat + size.toNat = size.toNat := Nat.zero_add _
  cases htraded with
  | missed => exact hopen
  | met _ hmatches => exact (hmatches.traded_le (hopen.trans_lt size.toNat_lt)).2.trans hopen

theorem Traded.card_eq_none (htraded : b.Traded id price size side report b' events)
    (hnone : b.card slot = none) : b'.card slot = none := by
  cases htraded with
  | missed => exact hnone
  | met _ hmatches => exact hmatches.card_eq_none hnone

/-- A trade of some size takes something where orders wait and all of them have a size. -/
theorem Traded.traded_pos (htraded : b.Traded id price size side report b' events)
    (h : b.WellFormed) (hsize : size ≠ 0) (hslots : b.slotsAt side.opposite price ≠ [])
    (hsizes : ∀ slot o, b.card slot = some o → 0 < o.size) : 0 < report.traded := by
  cases htraded with
  | missed hnone => exact absurd hnone hslots
  | met _ hmatches =>
    have hfits : (0 : UInt32).toNat + size.toNat < 2 ^ 32 := by simpa using size.toNat_lt
    obtain ⟨slot, rest, heq⟩ := List.exists_cons_of_ne_nil hslots
    obtain ⟨o, ho, -⟩ := h.mem_slotsAt.mp (heq ▸ List.mem_cons_self ..)
    rw [UInt32.lt_iff_toNat_lt]
    exact hmatches.traded_lt hfits hsize (heq ▸ rfl) ho (hsizes slot o ho)

end Book

end PriceTime
