import PriceTime.Proofs.Book.Fate
import PriceTime.Proofs.Book.Holdings
import PriceTime.Proofs.Book.Shape

/-!
# Trades in parts

What a trade does to a book depends on its size alone, and not on how the size came about. So when a
part of it is traded first, the rest of it leads from the book left by that part to the same book.
The part may end within an order, between two orders, or beyond the end of the queue.

* `Book.Depletes`: what a trade of a size does to a book, its report apart.
* `Book.Depletes.rest`: what is left of a trade once a part of it was traded.
* `Book.TradedInParts.eq_of_whole`: the parts lead to the book of the whole.
* `Book.TradedInParts.takes`: what the parts take, in orders and in size.
-/

namespace PriceTime

namespace Book

variable {b b' b₁ b₂ : Book} {slot : Slot} {side : Side} {price : Int32} {o : Order}
  {key : LevelKey} {size m n : Nat} {events released : List Event} {slots : List Slot}
  {f g k : Order → Order}

/-! ## The same change, seen from two books -/

theorem Alters.sameShape (h₁ : b.Alters slot f side price slots b₁)
    (h₂ : b.Alters slot g side price slots b₂) (ho : b.card slot = some o) (hfg : g o = f o) :
    b₁.SameShape b₂ where
  card_eq s := by rw [h₁.card_of ho, h₂.card_of ho, hfg]
  slotsAt_eq s p := by rw [h₁.slotsAt_eq, h₂.slotsAt_eq]
  levelKey?_eq s p := by rw [h₁.levelKey?_eq, h₂.levelKey?_eq]
  orders_room := h₁.orders_room.symm.trans h₂.orders_room
  levels_room := h₁.levels_room.symm.trans h₂.levels_room

theorem Removed.sameShape (h₁ : b.Removed slot o key b₁ events)
    (h₂ : b.Removed slot o key b₂ released) : b₁.SameShape b₂ where
  card_eq s := by rw [h₁.card_eq, h₂.card_eq]
  slotsAt_eq s p := by rw [h₁.slotsAt_eq, h₂.slotsAt_eq]
  levelKey?_eq s p := by rw [h₁.levelKey?_eq, h₂.levelKey?_eq]
  orders_room := h₁.orders_room.symm.trans h₂.orders_room
  levels_room := h₁.levels_room.symm.trans h₂.levels_room

/-- One change in place is a first part of another one. -/
theorem Alters.rest (h₁ : b.Alters slot f side price slots b₁)
    (h₂ : b.Alters slot g side price slots b₂) (ho : b.card slot = some o) (hk : k (f o) = g o) :
    b₁.Alters slot k side price slots b₂ where
  card_eq s := by
    rw [h₁.card_of ho, h₂.card_of ho]
    split
    · rw [Option.map_some, hk]
    · rfl
  slotsAt_eq s p := by
    rw [h₁.slotsAt_eq, h₂.slotsAt_eq]
    split <;> rfl
  levelKey?_eq s p := by rw [h₁.levelKey?_eq, h₂.levelKey?_eq]
  orders_room := h₁.orders_room.symm.trans h₂.orders_room
  levels_room := h₁.levels_room.symm.trans h₂.levels_room
  register := h₁.register.symm.trans h₂.register

/-- An order that changed in place leaves the same book behind. -/
theorem Alters.removed_rest (h₁ : b.Alters slot f o.side o.price (b.slotsAt o.side o.price) b₁)
    (hremoved : b.Removed slot o key b₂ events) (hside : (f o).side = o.side)
    (hprice : (f o).price = o.price) : b₁.Removed slot (f o) key b₂ events := by
  obtain ⟨hcard, hslots, hkeys, horders, hlevels, hevents⟩ := hremoved
  refine ⟨?_, ?_, ?_, (h₁.orders_room.symm.vacate slot).trans horders, ?_, ?_⟩
  · intro s
    rw [hcard, h₁.card_eq]
    split <;> rfl
  · intro s p
    rw [hslots, hside, hprice, h₁.slotsAt_kept]
  · intro s p
    rw [hkeys, hside, hprice, h₁.slotsAt_kept, h₁.levelKey?_eq]
  · rw [hside, hprice, h₁.slotsAt_kept]
    refine Arena.SameRoom.trans ?_ hlevels
    split
    · exact h₁.levels_room.symm.vacate key
    · exact h₁.levels_room.symm
  · rw [hevents, hside, hprice, h₁.slotsAt_kept]

/-! ## What a size does to a book -/

/-- What a trade of a size does to the queue at a price of a side, its report apart. -/
inductive Depletes (side : Side) (price : Int32) : Book → Nat → Book → Prop where
  /-- Nothing is left to be traded. -/
  | spent {b : Book} : Depletes side price b 0 b
  /-- No order is left at the price. -/
  | exhausted {b : Book} {size : Nat} (hslots : b.slotsAt side price = []) :
      Depletes side price b size b
  /-- The oldest order is larger than the size. -/
  | part {b b' : Book} {size : Nat} {slot : Slot} {o : Order}
      (hhead : (b.slotsAt side price).head? = some slot) (ho : b.card slot = some o)
      (hopen : 0 < size) (hsize : size < o.size.toNat)
      (halters : b.Alters slot (fun o => { o with size := o.size - UInt32.ofNat size }) side price
        (b.slotsAt side price) b') : Depletes side price b size b'
  /-- The oldest order goes, and with what is left of the size it goes on. -/
  | whole {b b₁ b' : Book} {size : Nat} {slot : Slot} {o : Order} {key : LevelKey}
      {events : List Event} (hhead : (b.slotsAt side price).head? = some slot)
      (ho : b.card slot = some o) (hlevel : o.level = some key) (hopen : 0 < size)
      (hsize : o.size.toNat ≤ size) (hremoved : b.Removed slot o key b₁ events)
      (hb₁ : b₁.WellFormed) (hrest : Depletes side price b₁ (size - o.size.toNat) b') :
      Depletes side price b size b'

theorem Matches.depletes {report report' : TradeReport}
    (hmatches : Matches side price b report b' report' events) :
    Depletes side price b report.unmatched.toNat b' := by
  induction hmatches with
  | spent hspent =>
    rw [hspent]
    exact .spent
  | exhausted hslots => exact .exhausted hslots
  | @part b b' report slot o hhead ho hopen hsize halters =>
    refine .part hhead ho ?_ (UInt32.lt_iff_toNat_lt.mp hsize) ?_
    · exact Nat.pos_of_ne_zero fun hzero => hopen (UInt32.toNat_inj.mp hzero)
    · rw [UInt32.ofNat_toNat]
      exact halters
  | @whole b b₁ b' report report' slot o key events more hhead ho hlevel hopen hsize hremoved hb₁
      hrest ih =>
    refine .whole hhead ho hlevel ?_ (UInt32.le_iff_toNat_le.mp hsize) hremoved hb₁ ?_
    · exact Nat.pos_of_ne_zero fun hzero => hopen (UInt32.toNat_inj.mp hzero)
    · rw [← UInt32.toNat_sub_of_le _ _ hsize]
      exact ih

theorem Traded.depletes {id : UInt64} {quantity : UInt32} {report : TradeReport}
    (htraded : b.Traded id price quantity side report b' events) :
    Depletes side.opposite price b quantity.toNat b' := by
  cases htraded with
  | missed hslots => exact .exhausted hslots
  | met _ hmatches => exact hmatches.depletes

namespace Depletes

theorem eq_of_zero (h : Depletes side price b 0 b') : b' = b := by
  cases h with
  | spent => rfl
  | exhausted => rfl
  | part _ _ hopen => exact absurd hopen (Nat.lt_irrefl 0)
  | whole _ _ _ hopen => exact absurd hopen (Nat.lt_irrefl 0)

theorem eq_of_nil (h : Depletes side price b size b') (hslots : b.slotsAt side price = []) :
    b' = b := by
  cases h with
  | spent => rfl
  | exhausted => rfl
  | part hhead =>
    rw [hslots] at hhead
    cases hhead
  | whole hhead =>
    rw [hslots] at hhead
    cases hhead

/-- What becomes of the oldest order tells what the size is. -/
theorem of_head (h : Depletes side price b size b')
    (hhead : (b.slotsAt side price).head? = some slot) (ho : b.card slot = some o)
    (hopen : 0 < size) :
    (size < o.size.toNat ∧
      b.Alters slot (fun o => { o with size := o.size - UInt32.ofNat size }) side price
        (b.slotsAt side price) b') ∨
    (o.size.toNat ≤ size ∧ ∃ key b₁ events, o.level = some key ∧ b.Removed slot o key b₁ events ∧
      b₁.WellFormed ∧ Depletes side price b₁ (size - o.size.toNat) b') := by
  cases h with
  | spent => exact absurd hopen (Nat.lt_irrefl 0)
  | exhausted hslots =>
    rw [hslots] at hhead
    cases hhead
  | part hhead' ho' _ hsize halters =>
    obtain rfl := Option.some.inj (hhead'.symm.trans hhead)
    obtain rfl := Option.some.inj (ho'.symm.trans ho)
    exact .inl ⟨hsize, halters⟩
  | whole hhead' ho' hlevel _ hsize hremoved hb₁ hrest =>
    obtain rfl := Option.some.inj (hhead'.symm.trans hhead)
    obtain rfl := Option.some.inj (ho'.symm.trans ho)
    exact .inr ⟨hsize, _, _, _, hlevel, hremoved, hb₁, hrest⟩

/-- The rest of a trade that ends its first part within the oldest order. -/
theorem rest_of_part (hwhole : Depletes side price b (m + n) b') (h : b.WellFormed)
    (h' : b'.WellFormed) (h₁ : b₁.WellFormed) (hhead : (b.slotsAt side price).head? = some slot)
    (ho : b.card slot = some o) (hopen : 0 < m) (hsize : m < o.size.toNat)
    (halters : b.Alters slot (fun o => { o with size := o.size - UInt32.ofNat m }) side price
      (b.slotsAt side price) b₁) : Depletes side price b₁ n b' := by
  obtain ⟨hside, hprice⟩ := h.place_eq (List.mem_of_head? hhead) ho
  have hhead₁ : (b₁.slotsAt side price).head? = some slot := by
    rw [halters.slotsAt_kept]
    exact hhead
  have ho₁ : b₁.card slot = some { o with size := o.size - UInt32.ofNat m } := by
    rw [halters.card_of ho, if_pos rfl]
  have hm : (UInt32.ofNat m).toNat = m :=
    UInt32.toNat_ofNat_of_lt' (Nat.lt_trans hsize o.size.toNat_lt)
  have hsize₁ : (o.size - UInt32.ofNat m).toNat = o.size.toNat - m := by
    rw [UInt32.toNat_sub_of_le, hm]
    rw [UInt32.le_iff_toNat_le, hm]
    omega
  rcases hwhole.of_head hhead ho (Nat.add_pos_left hopen n) with
    ⟨hmore, halters'⟩ | ⟨hless, key, b₂, events, hlevel, hremoved, hb₂, hrest⟩
  · have htwice : o.size - UInt32.ofNat m - UInt32.ofNat n = o.size - UInt32.ofNat (m + n) := by
      rw [UInt32.ofNat_add]
      grind
    rcases Nat.eq_zero_or_pos n with rfl | hpos
    · -- The first part is the whole.
      obtain rfl := h₁.eq_of_sameShape h' (halters.sameShape halters' ho rfl)
      exact .spent
    · refine .part hhead₁ ho₁ hpos ?_ ?_
      · dsimp only
        omega
      · rw [halters.slotsAt_kept]
        refine halters.rest halters' ho ?_
        dsimp only
        rw [htwice]
  · subst hside hprice
    refine .whole hhead₁ ho₁ hlevel (by omega) ?_ (halters.removed_rest hremoved rfl rfl) hb₂ ?_
    · dsimp only
      omega
    · dsimp only
      rw [hsize₁, show n - (o.size.toNat - m) = m + n - o.size.toNat by omega]
      exact hrest

/-- Once a part of a trade was traded, the rest of it leads to the same book. -/
theorem rest (hpart : Depletes side price b m b₁) (hwhole : Depletes side price b (m + n) b')
    (h : b.WellFormed) (h₁ : b₁.WellFormed) (h' : b'.WellFormed) : Depletes side price b₁ n b' := by
  induction hpart with
  | spent =>
    rw [Nat.zero_add] at hwhole
    exact hwhole
  | exhausted hslots =>
    obtain rfl := hwhole.eq_of_nil hslots
    exact .exhausted hslots
  | part hhead ho hopen hsize halters =>
    exact hwhole.rest_of_part h h' h₁ hhead ho hopen hsize halters
  | @whole b b₂ b₁ m slot o key events hhead ho hlevel hopen hsize hremoved hb₂ hrest ih =>
    rcases hwhole.of_head hhead ho (Nat.add_pos_left hopen n) with
      ⟨hmore, -⟩ | ⟨-, key', b₃, events', hlevel', hremoved', hb₃, hrest'⟩
    · omega
    · -- Either way the oldest order has left the same book.
      obtain rfl := Option.some.inj (hlevel'.symm.trans hlevel)
      obtain rfl := hb₂.eq_of_sameShape hb₃ (hremoved.sameShape hremoved')
      refine ih ?_ hb₂ h₁
      rw [show m - o.size.toNat + n = m + n - o.size.toNat by omega]
      exact hrest'

end Depletes

/-! ## One part after the other -/

/-- Trades at one price, one after the other. The parts say who trades and how much. -/
inductive TradedInParts (price : Int32) (side : Side) :
    Book → List (UInt64 × UInt32) → Book → List TradeReport → Prop where
  | nil {b : Book} : TradedInParts price side b [] b []
  | cons {b b₁ b' : Book} {part : UInt64 × UInt32} {parts : List (UInt64 × UInt32)}
      {report : TradeReport} {reports : List TradeReport} {events : List Event}
      (htraded : b.Traded part.1 price part.2 side report b₁ events) (hb₁ : b₁.WellFormed)
      (hrest : TradedInParts price side b₁ parts b' reports) :
      TradedInParts price side b (part :: parts) b' (report :: reports)

namespace TradedInParts

variable {parts : List (UInt64 × UInt32)} {reports : List TradeReport}

theorem eq_of_whole (hparts : TradedInParts price side b parts b₁ reports)
    (hwhole : Depletes side.opposite price b (parts.map fun part => part.2.toNat).sum b')
    (h : b.WellFormed) (h' : b'.WellFormed) : b₁ = b' := by
  induction hparts with
  | nil => exact hwhole.eq_of_zero.symm
  | cons htraded hb₁ _ ih => exact ih (htraded.depletes.rest hwhole h hb₁ h') hb₁

/-- What the parts take and what they leave unmatched make up their sizes. -/
theorem traded_add_unmatched (hparts : TradedInParts price side b parts b₁ reports) :
    (reports.map fun report => report.traded.toNat).sum +
      (reports.map fun report => report.unmatched.toNat).sum =
      (parts.map fun part => part.2.toNat).sum := by
  induction hparts with
  | nil => rfl
  | cons htraded _ _ ih =>
    have hpart := htraded.traded_add_unmatched
    simp only [List.map_cons, List.sum_cons]
    omega

/-- The parts take from the other side what they report. -/
theorem takes (hparts : TradedInParts price side b parts b₁ reports) (h : b.WellFormed) :
    ∃ orders, UInt32.ofNat (reports.map fun report => report.filled.toNat).sum =
        UInt32.ofNat orders ∧
      b₁.ordersOn side.opposite + orders = b.ordersOn side.opposite ∧
      b₁.sizeOn side.opposite + (reports.map fun report => report.traded.toNat).sum =
        b.sizeOn side.opposite ∧
      (b.ordersOn side.opposite < 2 ^ 32 →
        (reports.map fun report => report.filled.toNat).sum = orders) := by
  induction hparts with
  | nil => exact ⟨0, rfl, rfl, rfl, fun _ => rfl⟩
  | @cons b b₂ b₁ part parts report reports events htraded hb₂ hrest ih =>
    obtain ⟨first, hfilled, horders, hsizes⟩ := htraded.takes h
    obtain ⟨orders, hfilled', horders', hsizes', hexact⟩ := ih hb₂
    have horders := horders side.opposite
    have hsizes := hsizes side.opposite
    rw [if_pos rfl] at horders hsizes
    simp only [List.map_cons, List.sum_cons]
    refine ⟨first + orders, ?_, by omega, by omega, ?_⟩
    · rw [UInt32.ofNat_add, UInt32.ofNat_toNat, hfilled, hfilled', ← UInt32.ofNat_add]
    · intro hroom
      have hfirst : report.filled.toNat = first := by
        rw [hfilled]
        exact UInt32.toNat_ofNat_of_lt' (show first < 2 ^ 32 by omega)
      rw [hfirst, hexact (by omega)]

end TradedInParts

end Book

end PriceTime
