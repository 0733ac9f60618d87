import PriceTime.Book.Audit
import PriceTime.Proofs.Book.Census

/-!
# A well-formed book passes its audit

The audit goes along the ladders and, at each level, along the queue. In a well-formed book it finds
every order where the order says it is, and adds up what the level, the side and the index hold.

* `Book.auditOrders_eq`: the tally of a queue.
* `Book.WellFormed.auditLevels_eq`: the number of orders along the levels of a side.
* `Book.WellFormed.audit_eq`: the audit finds nothing wrong.
-/

namespace PriceTime

namespace Book

variable {b : Book} {members : LevelKey → List Slot} {key : LevelKey} {slot : Slot} {side : Side}
  {price : Int32} {o : Order} {tally : LevelTally}

theorem auditOrder_eq (hlevel : o.level = some key) (hprev : o.prev = tally.prev)
    (hprice : o.price = price) (hside : o.side = side) (hindex : b.index[o.id]? = some slot) :
    b.auditOrder side price key tally (slot, o) = .ok {
      volume := tally.volume + o.size.toUInt64
      count := tally.count + 1
      prev := some slot } := by
  simp [auditOrder, hlevel, hprev, hprice, hside, hindex]

/-- Along a queue the audit adds up the sizes and the number of the orders. -/
theorem auditOrders_eq {slots : List Slot} (hchain : Chain b.queues.orders tally.prev slots none)
    (hslots : ∀ s ∈ slots, ∃ o, b.card s = some o ∧ o.level = some key ∧ o.price = price ∧
      o.side = side ∧ b.index[o.id]? = some s) :
    (b.queues.orders.entries slots).foldlM (b.auditOrder side price key) tally = .ok {
      volume := tally.volume + UInt64.ofNat (b.queues.orders.sizeSum slots)
      count := tally.count + UInt32.ofNat slots.length
      prev := slots.getLast?.or tally.prev } := by
  induction slots generalizing tally with
  | nil =>
    show Except.ok tally = Except.ok _
    simp [Pool.sizeSum]
  | cons s rest ih =>
    obtain ⟨o, ho, hlevel, hprice, hside, hindex⟩ := hslots s (List.mem_cons_self ..)
    obtain ⟨p, hp, rfl⟩ := Queues.get?_of_card ho
    obtain ⟨p', hp', hprev, -⟩ := Pool.links_eq_some.mp hchain.1
    rw [hp] at hp'
    cases hp'
    have hentries : b.queues.orders.entries (s :: rest) =
        (s, p) :: b.queues.orders.entries rest := by
      simp [Pool.entries, hp]
    have hstep : b.auditOrder side price key tally (s, p) = _ :=
      auditOrder_eq hlevel hprev hprice hside hindex
    rw [hentries, List.foldlM_cons, hstep]
    refine (ih hchain.2 fun t ht => hslots t (List.mem_cons_of_mem _ ht)).trans ?_
    congr 2
    · rw [Pool.sizeSum_cons _ _ _ hp, UInt64.ofNat_add, ← UInt64.add_assoc]
      simp
    · rw [List.length_cons, Nat.add_comm, UInt32.ofNat_add, ← UInt32.add_assoc]
      rfl
    · cases rest with
      | nil => rfl
      | cons t rest => simp [List.getLast?_cons]

/-- A level passes when it stands after the levels before it. -/
theorem WellFormed.auditLevel_eq (h : b.WellFormed) (hkey : b.levelKey? side price = some key)
    {last : Option Int32} (hlast : ∀ p ∈ last, side.rank p < side.rank price) :
    b.auditLevel side last price key = .ok (UInt32.ofNat (b.slotsAt side price).length) := by
  obtain ⟨members, hstands⟩ := h.stands
  obtain ⟨l, hl, hlabel, hlevel⟩ := hstands.level?_of_key hkey
  have hrep := hstands.places.represents hl
  have hslots := hstands.slotsAt_of_key hkey
  have hside : l.side = side := congrArg Prod.fst hlabel
  have hprice : l.price = price := congrArg Prod.snd hlabel
  have hempty : l.isEmpty = false := by
    rw [Bool.eq_false_iff, Ne, hrep.isEmpty_iff, ← hslots]
    exact h.nonempty hkey
  have hrank : last.any (fun p => decide (side.rank price ≤ side.rank p)) = false := by
    cases last with
    | none => rfl
    | some p => exact decide_eq_false (Int.not_le.mpr (hlast p rfl))
  have hfold : (b.ordersOf l).foldlM (b.auditOrder side price key) {} = .ok
      { volume := l.volume, count := l.count, prev := l.tail } := by
    rw [show b.ordersOf l = b.queues.orders.entries (members key) from
      hrep.orders_eq h.tidy,
      auditOrders_eq hrep.chain]
    · rw [hrep.volume_eq, hrep.count_eq, hrep.tail_eq]
      simp
    · intro s hs
      rw [← hslots] at hs
      obtain ⟨o, ho, hoside, hoprice⟩ := h.mem_slotsAt.mp hs
      obtain ⟨k, hk, hkey'⟩ := h.level_eq ho
      rw [hoside, hoprice, hkey] at hkey'
      cases hkey'
      exact ⟨o, ho, hk, hoprice, hoside, h.index_iff.mpr ⟨o, ho, rfl⟩⟩
  unfold auditLevel
  simp only [hl, hprice, hside, hkey, hempty, hrank, hfold, bind, Except.bind]
  rw [hslots, ← hrep.count_eq]
  simp

/-- Along the levels of a side the audit counts the orders. -/
theorem WellFormed.auditLevels_eq (h : b.WellFormed) (hroom : b.queues.orders.size < 2 ^ 32)
    (last : Option Int32) {entries : List (Int32 × LevelKey)}
    (hkeys : ∀ e ∈ entries, b.levelKey? side e.1 = some e.2)
    (hpair : entries.Pairwise fun a c => side.rank a.1 < side.rank c.1)
    (hlast : ∀ p ∈ last, ∀ e ∈ entries, side.rank p < side.rank e.1) :
    b.auditLevels side last entries =
      .ok (entries.flatMap fun e => b.slotsAt side e.1).length := by
  induction entries generalizing last with
  | nil => rfl
  | cons entry rest ih =>
    obtain ⟨price, key⟩ := entry
    obtain ⟨hfirst, hpair⟩ := List.pairwise_cons.mp hpair
    have hlevel := h.auditLevel_eq (hkeys _ (List.mem_cons_self ..))
      fun p hp => hlast p hp _ (List.mem_cons_self ..)
    have hrest := ih (some price) (fun e he => hkeys e (List.mem_cons_of_mem _ he)) hpair
      fun p hp e he => by
        cases hp
        exact hfirst e he
    have hcount : (UInt32.ofNat (b.slotsAt side price).length).toNat =
        (b.slotsAt side price).length :=
      UInt32.toNat_ofNat_of_lt' (lt_of_le_of_lt (h.length_slotsAt_le side price) hroom)
    rw [auditLevels, hlevel]
    show (b.auditLevels side (some price) rest >>= _) = _
    rw [hrest]
    show Except.ok _ = Except.ok _
    rw [hcount, List.flatMap_cons, List.length_append]

theorem WellFormed.auditSide_eq (h : b.WellFormed) (hroom : b.queues.orders.size < 2 ^ 32)
    (side : Side) : b.auditSide side = .ok (b.ordersOn side) := by
  obtain ⟨members, hstands⟩ := h.stands
  have hlevels := h.auditLevels_eq hroom none
    (fun e he => hstands.mem_ladder.mp he) (hstands.pairwise_ladder side) (by simp)
  have hlength : ((b.half side).ladder.toList.flatMap fun e => b.slotsAt side e.1).length =
      b.ordersOn side := h.length_lineUp side
  unfold auditSide
  rw [hlevels, hlength]
  have hcount : (b.half side).count = (b.ordersOn side).toUInt64 := h.count_eq side
  simp only [bind, Except.bind, hcount, ne_eq, not_true_eq_false, if_false]
  rfl

/-- The audit of a well-formed book finds nothing wrong. -/
theorem WellFormed.audit_eq (h : b.WellFormed) (hroom : b.queues.orders.size < 2 ^ 32) :
    b.audit = .ok () := by
  obtain ⟨members, hstands⟩ := h.stands
  have horders := h.size_orders
  have hlevels := hstands.size_levels
  have hbids : b.bids.index.size = b.levelCount .bid := hstands.size_prices .bid
  have hasks : b.asks.index.size = b.levelCount .ask := hstands.size_prices .ask
  unfold audit findViolation
  rw [h.auditSide_eq hroom, h.auditSide_eq hroom]
  simp only [bind, Except.bind, h.size_index, ← horders, hbids, hasks, ← hlevels, ne_eq,
    not_true_eq_false, or_self, if_false]
  rfl

end Book

end PriceTime
