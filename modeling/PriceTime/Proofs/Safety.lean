import PriceTime.Proofs.Run

/-!
# Nothing a session does can fail

In the book a run reaches every number that stands for an order or a level is in use, every walk
along a queue comes to an end, and every call has an answer: no fault is ever reported.

* `Book.Safe`: the numbers a book holds, and the walks it makes.
* `Book.tradeAlong_turns`: a trade looks at no order twice, and any number of turns that is large
enough gives the same answer.
* `Session.run_safe`: after any run the book is safe and every call has an answer.
-/

namespace PriceTime

namespace Book

variable {b : Book} {members : LevelKey → List Slot} {key : LevelKey} {slot : Slot} {side : Side}
  {price : Int32} {o : Order} {l : Level} {report : TradeReport} {events : List Event}

/-- A slot holds an order. -/
def SlotUsed (b : Book) (slot : Slot) : Prop := ∃ o, b.queues.orders.get? slot = some o

/-- A key names a level. -/
def KeyUsed (b : Book) (key : LevelKey) : Prop := ∃ l, b.queues.levels.get? key = some l

/-- Everything a book refers to is there, and every walk along a queue ends. -/
structure Safe (b : Book) : Prop where
  /-- The index refers to orders. -/
  index : ∀ {id : UInt64} {slot : Slot}, b.index[id]? = some slot → b.SlotUsed slot
  /-- The price indexes, the ladders and their best entries refer to levels. -/
  prices : ∀ {side : Side} {price : Int32} {key : LevelKey},
    (b.half side).index[price]? = some key → b.KeyUsed key
  ladder : ∀ {side}, ∀ entry ∈ (b.half side).ladder.toList, b.KeyUsed entry.2
  best : ∀ {side}, ∀ entry ∈ (b.half side).ladder.best?, b.KeyUsed entry.2
  /-- An order refers to a level and to orders. -/
  order : ∀ {slot o}, b.queues.orders.get? slot = some o →
    (∃ key, o.level = some key ∧ b.KeyUsed key) ∧
    (∀ s ∈ o.prev, b.SlotUsed s) ∧ ∀ s ∈ o.next, b.SlotUsed s
  /-- The ends of a level are orders. -/
  ends : ∀ {key l}, b.queues.levels.get? key = some l →
    (∃ s, l.head = some s ∧ b.SlotUsed s) ∧ ∃ s, l.tail = some s ∧ b.SlotUsed s
  /-- A walk along a level sees each order once and then no further link. -/
  walk : ∀ {key l}, b.queues.levels.get? key = some l → ((b.ordersOf l).map Prod.fst).Nodup ∧
    (∀ steps, (b.ordersOf l).length ≤ steps →
      Level.walk b.queues.orders steps l.head = b.ordersOf l) ∧
    ∀ entry ∈ (b.ordersOf l).getLast?, entry.2.next = none
  /-- A trade along a level takes some of its orders, one after the other, and needs one turn more
  than that. -/
  trade : ∀ {key l}, b.queues.levels.get? key = some l → ∀ report events,
    ∃ taken report' b' events', taken ≤ (b.ordersOf l).length ∧
      (∀ turns, taken < turns →
        tradeAlong l.side key turns l.head report b events = .ok (report', b', events')) ∧
      b'.slotsAt l.side l.price = ((b.ordersOf l).map Prod.fst).drop taken ∧
      report'.filled = report.filled + UInt32.ofNat taken

/-- A trade along a queue takes some orders from its front, and needs one turn more than that. -/
theorem tradeAlong_turns {slots : List Slot} (h : b.WellFormed)
    (hroom : b.HasRoom) (hslots : b.slotsAt side price = slots)
    (hkey : slots ≠ [] → b.levelKey? side price = some key) (report : TradeReport)
    (events : List Event) :
    ∃ taken report' b' events', taken ≤ slots.length ∧
      (∀ turns, taken < turns →
        tradeAlong side key turns slots.head? report b events = .ok (report', b', events')) ∧
      b'.slotsAt side price = slots.drop taken ∧
      report'.filled = report.filled + UInt32.ofNat taken := by
  -- The induction is on the queue: a turn that takes its head leaves a well-formed book whose queue
  -- is the rest, so the room is still there.
  induction slots generalizing b report events with
  | nil =>
    refine ⟨0, report, b, events, Nat.le_refl 0, ?_, hslots, (UInt32.add_zero _).symm⟩
    intro turns hturns
    obtain ⟨turns, rfl⟩ : ∃ n, turns = n + 1 := ⟨turns - 1, by omega⟩
    rfl
  | cons slot rest ih =>
    have hkey := hkey (List.cons_ne_nil _ _)
    obtain ⟨o, ho, rfl, rfl, hlevel, hturn⟩ := h.tradeAlong_cons hslots hkey
    rw [List.head?_cons]
    by_cases hspent : report.unmatched = 0
    · refine ⟨0, report, b, events, Nat.zero_le _, ?_, hslots, (UInt32.add_zero _).symm⟩
      intro turns hturns
      obtain ⟨turns, rfl⟩ : ∃ n, turns = n + 1 := ⟨turns - 1, by omega⟩
      rw [hturn, if_pos hspent]
    by_cases hlarger : report.unmatched < o.size
    · obtain ⟨b', hpart, hb', halters⟩ := (tradePart_spec h ho hlevel hlarger).exists_ok hroom
      refine ⟨0, { report with
        traded := report.traded + report.unmatched
        unmatched := 0
        reduced := report.reduced + 1 }, b', events, Nat.zero_le _, ?_, ?_, (UInt32.add_zero _).symm⟩
      · intro turns hturns
        obtain ⟨turns, rfl⟩ : ∃ n, turns = n + 1 := ⟨turns - 1, by omega⟩
        rw [hturn, if_neg hspent, if_pos hlarger, hpart]
        rfl
      · rw [halters.slotsAt_eq, if_pos ⟨rfl, rfl⟩]
        exact hslots
    · have hle : o.size ≤ report.unmatched := UInt32.not_lt.mp hlarger
      obtain ⟨⟨size, b₁, released⟩, hwhole, hwsize, hb₁, hremoved⟩ :=
        (tradeWhole_spec h ho hlevel hle).exists_ok hroom
      dsimp only at hwsize hb₁ hremoved
      obtain ⟨hslots₁, hkey₁⟩ := hremoved.of_oldest hslots hkey
      obtain ⟨taken, report', b', events', htaken, hturns, hslots', hfilled⟩ :=
        ih hb₁ (hremoved.hasRoom h hb₁ ho hroom) hslots₁ hkey₁ { report with
          traded := report.traded + size
          unmatched := report.unmatched - size
          filled := report.filled + 1 } (events ++ released)
      refine ⟨taken + 1, report', b', events', Nat.succ_le_succ htaken, ?_, hslots', ?_⟩
      · intro turns hlt
        obtain ⟨turns, rfl⟩ : ∃ n, turns = n + 1 := ⟨turns - 1, by omega⟩
        rw [hturn, if_neg hspent, if_neg hlarger, hwhole, ok_bind]
        exact hturns turns (by omega)
      · rw [hfilled, Nat.add_comm, UInt32.ofNat_add, ← UInt32.add_assoc]
        rfl

/-- An order of a chain has neighbours that are orders, unless it stands at an end. -/
theorem Stands.linked (h : b.Stands members) (hl : b.queues.levels.get? key = some l)
    (hslot : slot ∈ members key) (ho : b.queues.orders.get? slot = some o) :
    (∀ s ∈ o.prev, b.SlotUsed s) ∧ ∀ s ∈ o.next, b.SlotUsed s := by
  have hchain := (h.places.represents hl).chain
  obtain ⟨older, newer, heq⟩ := List.append_of_mem hslot
  have hused : ∀ s ∈ members key, b.SlotUsed s := fun s hs => h.places.exists_order hs
  obtain ⟨p, hp, hprev, hnext⟩ := Pool.links_eq_some.mp (heq ▸ hchain : Chain _ _ _ _).links_middle
  rw [ho] at hp
  cases hp
  rw [hprev, hnext, Option.or_none, Option.or_none, heq] at *
  refine ⟨fun s hs => hused s ?_, fun s hs => hused s ?_⟩
  · exact List.mem_append_left _ (List.mem_of_getLast? hs)
  · exact List.mem_append_right _ (List.mem_cons_of_mem _ (List.mem_of_head? hs))

/-- A well-formed book with fewer than `2 ^ 32` orders is safe. -/
theorem WellFormed.safe (h : b.WellFormed) (hroom : b.queues.orders.size < 2 ^ 32) : b.Safe := by
  obtain ⟨members, hstands⟩ := h.stands
  have hc := h.consistent hroom
  have hladder : ∀ {side}, ∀ entry ∈ (b.half side).ladder.toList, b.KeyUsed entry.2 := by
    rintro side ⟨price, key⟩ hentry
    obtain ⟨l, hl, -⟩ := hc.laddered.mp hentry
    exact ⟨l, hl⟩
  refine ⟨?_, ?_, hladder, ?_, ?_, ?_, ?_, ?_⟩
  · intro id slot hid
    obtain ⟨o, ho, -⟩ := hc.indexed hid
    exact ⟨o, ho⟩
  · intro side price key hkey
    obtain ⟨l, hl, -⟩ := hc.priced.mp hkey
    exact ⟨l, hl⟩
  · intro side entry hentry
    rw [hc.best_eq] at hentry
    exact hladder entry (List.mem_of_head? hentry)
  · intro slot o ho
    obtain ⟨key, hlevel⟩ := h.settled (Queues.card_eq ho)
    obtain ⟨hslot, ⟨l, hl, -⟩, -⟩ := hstands.places.exists_level_order (Queues.card_eq ho) hlevel
    exact ⟨⟨key, hlevel, l, hl⟩, hstands.linked hl hslot ho⟩
  · intro key l hl
    have hrep := hstands.places.represents hl
    have hne : members key ≠ [] := by
      rw [← hstands.slotsAt_of_key (hstands.exists_key hl)]
      exact h.nonempty (hstands.exists_key hl)
    refine ⟨⟨_, hrep.head_eq.trans (List.head?_eq_some_head hne), ?_⟩,
      ⟨_, hrep.tail_eq.trans (List.getLast?_eq_some_getLast hne), ?_⟩⟩
    · exact hstands.places.exists_order (List.head_mem hne)
    · exact hstands.places.exists_order (List.getLast_mem hne)
  · intro key l hl
    have hfst : (b.ordersOf l).map Prod.fst = members key := hstands.places.map_fst_ordersOf hl
    refine ⟨?_, fun steps hsteps => (hc.walks hl steps hsteps).1, (hc.ends hl).2⟩
    rw [hfst]
    exact hstands.places.nodup key
  · intro key l hl report events
    have hkey := hstands.exists_key hl
    have hslots := hstands.slotsAt_of_key hkey
    have hfst : (b.ordersOf l).map Prod.fst = members key := hstands.places.map_fst_ordersOf hl
    have hlength : (b.ordersOf l).length = (members key).length := by
      rw [← hfst, List.length_map]
    rw [hfst, hlength, (hstands.places.represents hl).head_eq]
    exact tradeAlong_turns h (hstands.hasRoom hroom) hslots (fun _ => hkey) report events

end Book

namespace Session

/-- After every run from a fresh session, with fewer than `2 ^ 32` orders, the book is safe and no
call whatever ends in a fault. -/
theorem run_safe (config : BookConfig) (calls : List Call) {s : Session}
    {log : List (Answer × List Event)} (hrun : (ofConfig config).run calls = .ok (s, log))
    (hroom : s.book.index.size < 2 ^ 32) :
    s.book.Safe ∧ ∀ call, ∃ answer s' events, s.call call = .ok (answer, s', events) := by
  have hs := (run_wellFormed (s := ofConfig config) Book.WellFormed.empty calls).sound _ hrun
  refine ⟨hs.safe (hs.size_index ▸ hroom), ?_⟩
  intro call
  obtain ⟨⟨answer, s', events⟩, hcall⟩ := (call_follows hs call).answers (hs.hasRoom hroom)
  exact ⟨answer, s', events, hcall⟩

/-- Two orders at one level, the first one without size, and an order at another level of each side.
A trade that would take the two has an answer, as every call has. -/
theorem run_safe_empty_order :
    ∃ s log, (ofConfig {}).run [.add 1 7 0 .ask 0, .add 2 7 3 .ask 0, .add 3 8 4 .ask 0,
        .add 4 6 2 .bid 0] = .ok (s, log) ∧ s.book.Safe ∧ s.book.idsAt .ask 7 = [1, 2] ∧
      (∃ answer s' events, s.call (.trade 5 7 5 .bid) = .ok (answer, s', events)) ∧
      ∀ call, ∃ answer s' events, s.call call = .ok (answer, s', events) := by
  have hroom := roomy_of_length_lt {} [.add 1 7 0 .ask 0, .add 2 7 3 .ask 0, .add 3 8 4 .ask 0,
    .add 4 6 2 .bid 0] (by decide)
  obtain ⟨s, log, hrun⟩ := exists_run hroom
  obtain ⟨hsafe, hcalls⟩ := run_safe _ _ hrun (hroom.last hrun)
  have hqueue : s.book.idsAt .ask 7 = [1, 2] := by
    cases hrun
    decide +kernel
  exact ⟨s, log, hrun, hsafe, hqueue, hcalls _, hcalls⟩

end Session

end PriceTime
