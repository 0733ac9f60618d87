import PriceTime.Proofs.Book.Census
import PriceTime.Proofs.Book.Trade

/-!
# Levels that come and go

An operation reports each level it makes and each one it gives up. The reports are complete: what is
reported of a side and price is exactly the difference between the levels there were and the levels
there are, a level that was not there and is, or one that was there and is not.

* `Book.Tells`: the reports tell two books apart, level by level and in number.
* `Book.Modified.tells`, `Book.Traded.tells`: so they do after each operation.
* `Book.Tells.of_emptied`: a level that has lost its last order is told to be given up.
* `Book.Modified.events_of_repriced`: a move to another price gives up a level before it makes one.
-/

namespace PriceTime

namespace Event

/-- Whether an event tells of the level at a price of a side. -/
def concerns (side : Side) (price : Int32) : Event → Bool
  | levelCreated p s | levelReleased p s => side = s ∧ price = p
  | _ => false

def isCreated : Event → Bool
  | levelCreated .. => true
  | _ => false

def isReleased : Event → Bool
  | levelReleased .. => true
  | _ => false

/-- Whether an event tells of no level at all. -/
def isQuiet (e : Event) : Bool :=
  !e.isCreated && !e.isReleased

/-- What there is to tell of the level at a price of a side that was there or not before, and is
there or not after. -/
def passage (side : Side) (price : Int32) : (before after : Bool) → List Event
  | false, true => [.levelCreated price side]
  | true, false => [.levelReleased price side]
  | _, _ => []

variable {side : Side} {price : Int32} {events : List Event}

@[simp] theorem passage_self (side : Side) (price : Int32) (there : Bool) :
    passage side price there there = [] := by
  cases there <;> rfl

/-- One passage after the other, where at most one of them is a change. -/
theorem passage_append {before between after : Bool}
    (hone : before = between ∨ between = after) :
    passage side price before between ++ passage side price between after =
      passage side price before after := by
  rcases hone with rfl | rfl
  · rw [passage_self, List.nil_append]
  · rw [passage_self, List.append_nil]

theorem filter_concerns_of_quiet (hquiet : ∀ e ∈ events, e.isQuiet = true) (side : Side)
    (price : Int32) : events.filter (concerns side price) = [] := by
  apply List.filter_eq_nil_iff.mpr
  intro e he
  have hloud := hquiet e he
  cases e <;> simp_all [concerns, isQuiet, isCreated, isReleased]

theorem countP_of_quiet (hquiet : ∀ e ∈ events, e.isQuiet = true) :
    events.countP isCreated = 0 ∧ events.countP isReleased = 0 := by
  rw [List.countP_eq_zero, List.countP_eq_zero]
  constructor
  · intro e he
    have hloud := hquiet e he
    simp_all [isQuiet]
  · intro e he
    have hloud := hquiet e he
    simp_all [isQuiet]

end Event

namespace Book

open Event

variable {b b' b'' : Book} {key : LevelKey} {slot : Slot} {id : UInt64} {side : Side}
  {price : Int32} {size : UInt32} {time : UInt64} {o : Order} {events more : List Event}
  {room : Prop}

/-- The events of a step from `b` to `b'` tell which levels came and went: place by place, and in
number. -/
structure Tells (b b' : Book) (events : List Event) : Prop where
  filter_eq : ∀ side price, events.filter (concerns side price) =
    passage side price (b.levelKey? side price).isSome (b'.levelKey? side price).isSome
  size_eq : b'.queues.levels.size + events.countP isReleased =
    b.queues.levels.size + events.countP isCreated

namespace Tells

/-- No level came or went, and none is mentioned. -/
theorem of_same (hkeys : ∀ s p, b'.levelKey? s p = b.levelKey? s p)
    (hsize : b'.queues.levels.size = b.queues.levels.size)
    (hquiet : ∀ e ∈ events, e.isQuiet = true) : b.Tells b' events := by
  obtain ⟨hcreated, hreleased⟩ := countP_of_quiet hquiet
  constructor
  · intro side price
    rw [filter_concerns_of_quiet hquiet, hkeys, passage_self]
  · omega

theorem refl (b : Book) (hquiet : ∀ e ∈ events, e.isQuiet = true) : b.Tells b events :=
  of_same (fun _ _ => rfl) rfl hquiet

/-- One step after the other, where a level comes or goes in at most one of them. -/
theorem trans (h : b.Tells b' events) (h' : b'.Tells b'' more)
    (hone : ∀ s p, (b.levelKey? s p).isSome = (b'.levelKey? s p).isSome ∨
      (b'.levelKey? s p).isSome = (b''.levelKey? s p).isSome) : b.Tells b'' (events ++ more) := by
  constructor
  · intro side price
    rw [List.filter_append, h.filter_eq, h'.filter_eq, passage_append (hone side price)]
  · have := h.size_eq
    have := h'.size_eq
    simp only [List.countP_append]
    omega

theorem append_quiet (h : b.Tells b' events) (hquiet : ∀ e ∈ more, e.isQuiet = true) :
    b.Tells b' (events ++ more) :=
  h.trans (refl b' hquiet) fun _ _ => .inr rfl

theorem cons_quiet {e : Event} (h : b.Tells b' events) (hquiet : e.isQuiet = true) :
    b.Tells b' (e :: events) := by
  have hfirst : b.Tells b [e] := refl b (by simpa using hquiet)
  exact hfirst.trans h fun _ _ => .inl rfl

end Tells

/-! ## Operations -/

theorem WellFormed.levels_tidy (h : b.WellFormed) : b.queues.levels.Tidy := by
  obtain ⟨members, hstands⟩ := h.stands
  exact hstands.places.levels_tidy

/-- The level an order names is in use, and is the one at its side and price. -/
theorem WellFormed.level_of_card (h : b.WellFormed) (ho : b.card slot = some o)
    (hlevel : o.level = some key) :
    b.levelKey? o.side o.price = some key ∧ ∃ l, b.queues.levels.get? key = some l := by
  obtain ⟨key', hlevel', hkey⟩ := h.level_eq ho
  obtain rfl : key' = key := Option.some.inj (hlevel'.symm.trans hlevel)
  obtain ⟨members, hstands⟩ := h.stands
  obtain ⟨l, hl, -⟩ := hstands.level?_of_key hkey
  exact ⟨hkey, l, hl⟩

theorem Added.tells (hadded : b.Added o b' events) (h : b.WellFormed) : b.Tells b' events := by
  have hroom := hadded.levels_room.size_eq
  have hnew := h.levels_tidy.size_insert { price := o.price, side := o.side }
  rw [hadded.events_eq]
  constructor
  · intro side price
    rw [hadded.levelKey?_eq]
    by_cases hplace : side = o.side ∧ price = o.price
    · obtain ⟨rfl, rfl⟩ := hplace
      cases b.levelKey? o.side o.price <;> simp [concerns, passage]
    · rw [if_neg hplace, passage_self]
      split
      · rfl
      · simp [concerns, hplace]
  · split at hroom
    · rename_i hsome
      simp [hsome, hroom]
    · rename_i hnone
      simp [hnone, hroom, hnew, isCreated, isReleased]

theorem Removed.tells (hremoved : b.Removed slot o key b' events) (h : b.WellFormed)
    (ho : b.card slot = some o) (hlevel : o.level = some key) : b.Tells b' events := by
  obtain ⟨hkey, l, hl⟩ := h.level_of_card ho hlevel
  have hroom := hremoved.levels_room.size_eq
  have hold := h.levels_tidy.size_vacate hl
  rw [hremoved.events_eq]
  constructor
  · intro side price
    rw [hremoved.levelKey?_eq]
    by_cases hplace : side = o.side ∧ price = o.price
    · obtain ⟨rfl, rfl⟩ := hplace
      by_cases hlast : b.slotsAt o.side o.price = [slot]
      · simp [hlast, hkey, concerns, passage]
      · simp [hlast]
    · have hkept : ¬ (side = o.side ∧ price = o.price ∧ b.slotsAt side price = [slot]) :=
        fun hall => hplace ⟨hall.1, hall.2.1⟩
      rw [if_neg hkept, passage_self]
      split
      · simp [concerns, hplace]
      · rfl
  · split at hroom
    · rename_i hlast
      rw [if_pos hlast, hroom]
      exact hold
    · rename_i hmore
      simp [hmore, hroom]

/-- The levels without an order: as many, or one less if the order was the last of its own. -/
theorem WellFormed.levelsWithout_spec (h : b.WellFormed) (ho : b.card slot = some o)
    (hlevel : o.level = some key) : (b.levelsWithout slot o key).Tidy ∧
      (b.levelsWithout slot o key).size + (if b.slotsAt o.side o.price = [slot] then 1 else 0) =
        b.queues.levels.size := by
  obtain ⟨-, l, hl⟩ := h.level_of_card ho hlevel
  unfold levelsWithout
  split
  · exact ⟨h.levels_tidy.vacate hl, h.levels_tidy.size_vacate hl⟩
  · exact ⟨h.levels_tidy, rfl⟩

theorem Repriced.tells {key' : LevelKey}
    (hrepriced : b.Repriced slot o key price size time key' b' events) (h : b.WellFormed)
    (ho : b.card slot = some o) (hlevel : o.level = some key) (hprice : o.price ≠ price) :
    b.Tells b' events := by
  obtain ⟨hkey, -⟩ := h.level_of_card ho hlevel
  obtain ⟨htidy, hleft⟩ := h.levelsWithout_spec ho hlevel
  have hroom := hrepriced.levels_room.size_eq
  have hmade := htidy.size_insert { price, side := o.side }
  rw [hrepriced.events_eq]
  constructor
  · intro s p
    rw [hrepriced.levelKey?_eq, List.filter_append]
    -- The two places differ, so what is told of one is not told of the other.
    by_cases hnew : s = o.side ∧ p = price
    · obtain ⟨rfl, rfl⟩ := hnew
      cases b.levelKey? o.side p <;> by_cases hlast : b.slotsAt o.side o.price = [slot] <;>
        simp [hlast, concerns, passage, hprice.symm]
    · rw [if_neg hnew]
      by_cases hold : s = o.side ∧ p = o.price
      · obtain ⟨rfl, rfl⟩ := hold
        cases b.levelKey? o.side price <;> by_cases hlast : b.slotsAt o.side o.price = [slot] <;>
          simp [hlast, hkey, concerns, passage, hprice]
      · have hkept : ¬ (s = o.side ∧ p = o.price ∧ b.slotsAt s p = [slot]) :=
          fun hall => hold ⟨hall.1, hall.2.1⟩
        rw [if_neg hkept, passage_self]
        cases b.levelKey? o.side price <;> by_cases hlast : b.slotsAt o.side o.price = [slot] <;>
          simp [hlast, concerns, hnew, hold]
  · rw [List.countP_append, List.countP_append]
    split at hroom <;> split at hleft <;> simp_all [isCreated, isReleased]

theorem Alters.tells {f : Order → Order} {slots : List Slot}
    (halters : b.Alters slot f side price slots b') : b.Tells b' [] :=
  Tells.of_same halters.levelKey?_eq halters.levels_room.size_eq (by simp)

theorem Modified.tells {result : Except BookError ModifyOutcome}
    (hmodified : b.Modified id price size side time result b' events) (h : b.WellFormed) :
    b.Tells b' events := by
  cases hmodified with
  | added hnew hadded => exact (hadded.tells h).cons_quiet rfl
  | rejected => exact Tells.refl b (by simp [isQuiet, isCreated, isReleased])
  | repriced hid ho hlevel hside hprice hrepriced => exact hrepriced.tells h ho hlevel hprice
  | requeued _ _ _ _ _ halters => exact halters.tells
  | resized _ _ _ _ _ halters => exact halters.tells

theorem WellFormed.add_tells (h : b.WellFormed) :
    Yields room (b.add id price size side time) fun step => b.Tells step.state step.events := by
  cases hnew : b.contains id with
  | true =>
    rw [add_of_contains hnew]
    exact Yields.ok (.refl b (by simp))
  | false =>
    refine (h.add hnew).mono ?_
    rintro step ⟨-, -, hadded⟩
    exact hadded.tells h

theorem WellFormed.remove_tells (h : b.WellFormed) :
    Yields b.HasRoom (b.remove id)
      fun step => b.Tells step.state step.events := by
  cases hid : b.index[id]? with
  | none =>
    rw [remove_of_none hid]
    exact Yields.ok (.refl b (by simp))
  | some slot =>
    obtain ⟨o, ho, -⟩ := h.index_iff.mp hid
    obtain ⟨key, hlevel⟩ := h.settled ho
    refine (h.remove hid ho hlevel).mono ?_
    rintro step ⟨-, -, hremoved⟩
    exact hremoved.tells h ho hlevel

theorem WellFormed.modify_tells (h : b.WellFormed) :
    Yields b.HasRoom (b.modify id price size side time)
      fun step => b.Tells step.state step.events := by
  refine h.modify.mono ?_
  rintro step ⟨-, hmodified⟩
  exact hmodified.tells h

/-! ## Trades -/

/-- A trade makes no levels. -/
theorem Matches.levelKey?_of_none {report report' : TradeReport}
    (hmatches : Matches side price b report b' report' more) {s : Side} {p : Int32}
    (hnone : b.levelKey? s p = none) : b'.levelKey? s p = none := by
  induction hmatches with
  | spent => exact hnone
  | exhausted => exact hnone
  | part _ _ _ _ halters => exact (halters.levelKey?_eq s p).trans hnone
  | whole _ _ _ _ _ hremoved _ _ ih =>
    apply ih
    rw [hremoved.levelKey?_eq, hnone]
    split <;> rfl

/-- The level a trade goes along may go with its last order, which is told at that very order. -/
theorem Matches.tells {report report' : TradeReport}
    (hmatches : Matches side price b report b' report' more) (h : b.WellFormed) :
    b.Tells b' more := by
  induction hmatches with
  | spent => exact Tells.refl _ (by simp)
  | exhausted => exact Tells.refl _ (by simp)
  | part _ _ _ _ halters => exact halters.tells
  | whole _ ho hlevel _ _ hremoved hb₁ hrest ih =>
    refine (hremoved.tells h ho hlevel).trans (ih hb₁) ?_
    intro s p
    rw [hremoved.levelKey?_eq]
    split
    · rename_i hgone
      have hnone := (hremoved.levelKey?_eq s p).trans (if_pos hgone)
      right
      rw [hrest.levelKey?_of_none hnone]
    · left
      rfl

theorem Traded.tells {report : TradeReport}
    (htraded : b.Traded id price size side report b' events) (h : b.WellFormed) :
    b.Tells b' events := by
  cases htraded with
  | missed => exact Tells.refl b (by simp [isQuiet, isCreated, isReleased])
  | met _ hmatches => exact hmatches.tells h

theorem WellFormed.trade_tells (h : b.WellFormed) :
    Yields b.HasRoom (b.trade id price size side)
      fun r => b.Tells r.2.1 r.2.2 := by
  refine (h.trade id price size side).mono ?_
  rintro r ⟨-, htraded⟩
  exact htraded.tells h

/-! ## What is told of a level -/

theorem WellFormed.isSome_level? (h : b.WellFormed) (side : Side) (price : Int32) :
    (b.level? side price).isSome = (b.levelKey? side price).isSome := by
  obtain ⟨members, hstands⟩ := h.stands
  cases hkey : b.levelKey? side price with
  | none =>
    rw [level?, hkey]
    rfl
  | some key =>
    obtain ⟨l, -, -, hlevel⟩ := hstands.level?_of_key hkey
    rw [hlevel]
    rfl

theorem level?_of_idsAt (hids : b.idsAt side price ≠ []) : (b.level? side price).isSome := by
  cases hlevel : b.level? side price with
  | none =>
    rw [idsAt, hlevel] at hids
    exact absurd rfl hids
  | some level => rfl

theorem WellFormed.level?_of_idsAt_nil (h : b.WellFormed) (hids : b.idsAt side price = []) :
    b.level? side price = none := by
  have hslots : b.slotsAt side price = [] := by
    rw [slotsAt]
    rw [idsAt] at hids
    split
    · rename_i level hlevel
      rw [hlevel] at hids
      rw [List.map_eq_nil_iff.mp hids]
      rfl
    · rfl
  rw [level?, h.levelKey?_eq_none_iff.mpr hslots]
  rfl

/-- A level that has lost its last order is told to be given up. -/
theorem Tells.of_emptied (htells : b.Tells b' events) (h : b.WellFormed) (h' : b'.WellFormed)
    (hids : b.idsAt side price ≠ []) (hids' : b'.idsAt side price = []) :
    b'.level? side price = none ∧ .levelReleased price side ∈ events := by
  have hnone := h'.level?_of_idsAt_nil hids'
  have hbefore : (b.levelKey? side price).isSome = true := by
    rw [← h.isSome_level?]
    exact level?_of_idsAt hids
  have hafter : (b'.levelKey? side price).isSome = false := by
    rw [← h'.isSome_level?, hnone]
    rfl
  have hfilter := htells.filter_eq side price
  rw [hbefore, hafter] at hfilter
  have hmem : .levelReleased price side ∈ events.filter (concerns side price) := by
    rw [hfilter]
    exact List.mem_singleton_self _
  exact ⟨hnone, List.mem_of_mem_filter hmem⟩

/-- A move to another price, told by the levels that are there before and after. -/
theorem Repriced.events_of_level? {key' : LevelKey}
    (hrepriced : b.Repriced slot o key price size time key' b' events)
    (h : b.WellFormed) (h' : b'.WellFormed) (ho : b.card slot = some o)
    (hlevel : o.level = some key) (hprice : o.price ≠ price) : events =
      (if (b'.level? o.side o.price).isSome then [] else [.levelReleased o.price o.side]) ++
        if (b.level? o.side price).isSome then [] else [.levelCreated price o.side] := by
  obtain ⟨hkey, -⟩ := h.level_of_card ho hlevel
  have hother : ¬ (o.side = o.side ∧ o.price = price) := fun heq => hprice heq.2
  rw [h.isSome_level?, h'.isSome_level?, hrepriced.levelKey?_eq, if_neg hother,
    hrepriced.events_eq]
  by_cases hlast : b.slotsAt o.side o.price = [slot]
  · simp [hlast]
  · simp [hlast, hkey]

theorem Modified.events_of_requeued
    (hmodified : b.Modified id price size side time (.ok .requeued) b' events) : events = [] := by
  cases hmodified with
  | requeued => rfl

theorem Modified.events_of_repriced
    (hmodified : b.Modified id price size side time (.ok .repriced) b' events)
    (h : b.WellFormed) (h' : b'.WellFormed) :
    ∃ o, b.get? id = some o ∧ o.price ≠ price ∧ events =
      (if (b'.level? o.side o.price).isSome then [] else [.levelReleased o.price o.side]) ++
        if (b.level? o.side price).isSome then [] else [.levelCreated price o.side] := by
  cases hmodified with
  | repriced hid ho hlevel hside hprice hrepriced =>
    have hevents := hrepriced.events_of_level? h h' ho hlevel hprice
    obtain ⟨p, hp, rfl⟩ := Queues.get?_of_card ho
    refine ⟨p, ?_, hprice, hevents⟩
    rw [get?, hid, Option.bind_some, hp]

end Book

end PriceTime
