import PriceTime.Proofs.Book.Resemblance
import PriceTime.Proofs.Locality
import PriceTime.Proofs.Refinement
import PriceTime.Proofs.Surroundings

/-!
# Messages that commute

Two messages that touch no level in common, and are not about the same order, may change places:
each has the same result as before, up to the slot it names, and in the end the books look alike and
the tapes are the same. The books themselves differ: slots and level keys are given out in the order
of arrival.

* `PlainBook.process_comm`: two messages on a plain book.
* `Session.run_swap`: two messages after any run.
-/

namespace PriceTime

/-! ## Plain books -/

namespace PlainBook

variable {b : PlainBook} {m m' : Message} {id : UInt64} {place : Side × Int32}

/-- Every order waits where its place says, and has a place. -/
def Placed (b : PlainBook) : Prop :=
  ∀ id side price, b.place id = some (side, price) ↔ ∃ entry ∈ b.queue side price, entry.id = id

theorem Placed.place_of_trade (h : b.Placed) (htrade : m.action = .trade) (hid : id ∈ b.named m) :
    b.place id = some (m.side.opposite, m.price) := by
  unfold named at hid
  rw [htrade] at hid
  obtain ⟨entry, hentry, heq⟩ := List.mem_map.mp hid
  exact (h id m.side.opposite m.price).mpr ⟨entry, hentry, heq⟩

theorem eq_of_mem_named (htrade : m.action ≠ .trade) (hid : id ∈ b.named m) : id = m.id := by
  unfold named at hid
  cases haction : m.action with
  | trade => exact absurd haction htrade
  | add | cancel | modify =>
    rw [haction] at hid
    exact List.mem_singleton.mp hid

/-- A message touches every level where an order rests that it may change. -/
theorem Placed.mem_touched (h : b.Placed) (hid : id ∈ b.named m) (hplace : b.place id = some place) :
    place ∈ m.touched (b.place m.id) := by
  by_cases htrade : m.action = .trade
  · have hthere := h.place_of_trade htrade hid
    rw [hplace] at hthere
    cases hthere
    unfold Message.touched
    rw [htrade]
    exact List.mem_singleton_self _
  · obtain rfl := eq_of_mem_named htrade hid
    unfold Message.touched
    rw [hplace]
    cases haction : m.action with
    | trade => exact absurd haction htrade
    | add | modify => exact List.mem_cons_of_mem _ (List.mem_singleton_self place)
    | cancel => exact List.mem_singleton_self place

/-- Messages that touch no level in common, and are not about the same id, change different orders.
-/
theorem Placed.named_disjoint (h : b.Placed)
    (hlevels : (m.touched (b.place m.id)).Disjoint (m'.touched (b.place m'.id)))
    (hids : m.action ≠ .trade → m'.action ≠ .trade → m.id ≠ m'.id) :
    (b.named m).Disjoint (b.named m') := by
  intro id hid hid'
  cases hplace : b.place id with
  | some place => exact hlevels (h.mem_touched hid hplace) (h.mem_touched hid' hplace)
  | none =>
    -- A trade only changes orders that have a place.
    have htrade : m.action ≠ .trade := fun htrade => by
      rw [h.place_of_trade htrade hid] at hplace
      cases hplace
    have htrade' : m'.action ≠ .trade := fun htrade' => by
      rw [h.place_of_trade htrade' hid'] at hplace
      cases hplace
    have heq := eq_of_mem_named htrade hid
    have heq' := eq_of_mem_named htrade' hid'
    exact hids htrade htrade' (heq.symm.trans heq')

/-- Messages with nothing in common have the same results in either order, and lead to the same
book. -/
theorem process_comm (h : b.Placed)
    (hlevels : (m.touched (b.place m.id)).Disjoint (m'.touched (b.place m'.id)))
    (hids : m.action ≠ .trade → m'.action ≠ .trade → m.id ≠ m'.id) :
    ((b.process m).2.process m').1 = (b.process m').1 ∧
      ((b.process m').2.process m).1 = (b.process m).1 ∧
      ((b.process m).2.process m').2 = ((b.process m').2.process m).2 := by
  have hm := b.process_local m
  have hm' := b.process_local m'
  have hnamed := h.named_disjoint hlevels hids
  exact ⟨hm.answer_after hm' hlevels hnamed, hm'.answer_after hm hlevels.symm hnamed.symm,
    hm.comm hm' hlevels hnamed⟩

end PlainBook

/-! ## Sessions -/

/-- The levels a message touches in a book. -/
def Book.touched (b : Book) (m : Message) : List (Side × Int32) :=
  m.touched ((b.get? m.id).map fun order => (order.side, order.price))

namespace Session

variable {s : Session} {m m' : Message}

/-- One message after another. -/
def processBoth (s : Session) (m m' : Message) :
    Except Fault (Step Session Applied × Step Session Applied) := do
  let first ← s.process m
  let second ← first.state.process m'
  return (first, second)

/-- Two messages in both orders: each has the same result, up to the slot it names, and in the end
the books look alike and the tapes are the same. -/
structure Swapped (r r' : Step Session Applied × Step Session Applied) : Prop where
  first : r'.2.result.map Applied.withoutSlot = r.1.result.map Applied.withoutSlot
  second : r'.1.result.map Applied.withoutSlot = r.2.result.map Applied.withoutSlot
  plain : r'.2.state.book.plain = r.2.state.book.plain
  book : r.2.state.book.Resembles r'.2.state.book
  tape : r'.2.state.tape = r.2.state.tape
  messages : r'.2.state.messages = r.2.state.messages

/-- A message is counted, and entered on the tape. -/
theorem process_around (s : Session) (m : Message) :
    Yields False (s.process m) fun step =>
      step.state.tape = s.tape.after m ∧ step.state.messages = s.messages + 1 :=
  process_keeps (fun s' => s'.tape = s.tape.after m ∧ s'.messages = s.messages + 1) m
    fun _ => ⟨rfl, rfl⟩

/-- One message after another does what it does on the plain book. -/
theorem processBoth_spec (h : s.book.AtRest) (m m' : Message) :
    Yields (s.book.index.size + 1 < 2 ^ 32) (s.processBoth m m') fun r =>
      r.2.state.book.AtRest ∧
      s.book.plain.process m = (r.1.result.map Applied.withoutSlot, r.1.state.book.plain) ∧
      r.1.state.book.plain.process m' =
        (r.2.result.map Applied.withoutSlot, r.2.state.book.plain) ∧
      r.2.state.tape = (s.tape.after m).after m' ∧ r.2.state.messages = s.messages + 2 := by
  unfold processBoth
  have hroom : s.book.index.size + 1 < 2 ^ 32 → s.book.HasRoom := fun hsize =>
    h.hasRoom (Nat.lt_of_succ_lt hsize)
  refine ((process_refines h m).self.of_room hroom).bind ?_
  rintro first ⟨⟨hfirst, hplain⟩, heq⟩
  obtain ⟨htape, hmessages⟩ := (process_around s m).sound first heq
  have hsize := ((process_follows h.toWellFormed m).sound first heq).size_le
  have hroom' : s.book.index.size + 1 < 2 ^ 32 → first.state.book.HasRoom := fun hsize' =>
    hfirst.hasRoom (hsize.trans_lt hsize')
  refine ((process_refines hfirst m').self.of_room hroom').bind ?_
  rintro second ⟨⟨hsecond, hplain'⟩, heq'⟩
  obtain ⟨htape', hmessages'⟩ := (process_around first.state m').sound second heq'
  refine Yields.ok ⟨hsecond, hplain, hplain', ?_, ?_⟩
  · rw [htape', htape]
  · rw [hmessages', hmessages, UInt64.add_assoc]
    rfl

/-- Messages with nothing in common come to the same in either order. -/
theorem processBoth_swapped (h : s.book.AtRest)
    (hlevels : (s.book.touched m).Disjoint (s.book.touched m'))
    (hids : m.action ≠ .trade → m'.action ≠ .trade → m.id ≠ m'.id)
    {r r' : Step Session Applied × Step Session Applied} (hr : s.processBoth m m' = .ok r)
    (hr' : s.processBoth m' m = .ok r') : Swapped r r' := by
  obtain ⟨hrest, hfirst, hsecond, htape, hmessages⟩ := (processBoth_spec h m m').sound r hr
  obtain ⟨hrest', hfirst', hsecond', htape', hmessages'⟩ := (processBoth_spec h m' m).sound r' hr'
  obtain ⟨hanswer, hanswer', hbook⟩ :=
    PlainBook.process_comm (b := s.book.plain) h.toWellFormed.place_plain_iff hlevels hids
  -- Each order goes through its own plain books; what is known of them is put in step by step.
  rw [hfirst, hfirst'] at hanswer hanswer' hbook
  dsimp only at hanswer hanswer' hbook
  rw [hsecond] at hanswer hbook
  rw [hsecond'] at hanswer' hbook
  refine ⟨hanswer', hanswer.symm, hbook.symm, hrest.resembles hrest' hbook.symm, ?_, ?_⟩
  · rw [htape', htape, Tape.after_comm]
  · rw [hmessages', hmessages]

/-- After any run, two messages that touch no level in common and, unless one of them is a trade,
have different ids come to the same in either order. With room for one more order both orders have
an answer. -/
theorem run_swap {config : BookConfig} {calls : List Call} {log : List (Answer × List Event)}
    (hrun : (ofConfig config).run calls = .ok (s, log))
    (hlevels : (s.book.touched m).Disjoint (s.book.touched m'))
    (hids : m.action ≠ .trade → m'.action ≠ .trade → m.id ≠ m'.id) :
    (s.book.index.size + 1 < 2 ^ 32 →
      ∃ r r', s.processBoth m m' = .ok r ∧ s.processBoth m' m = .ok r') ∧
    ∀ r r', s.processBoth m m' = .ok r → s.processBoth m' m = .ok r' → Swapped r r' := by
  have hrest : s.book.AtRest :=
    ((run_plain (s := ofConfig config) Book.AtRest.empty calls).sound _ hrun).1
  refine ⟨?_, fun r r' hr hr' => processBoth_swapped hrest hlevels hids hr hr'⟩
  intro hroom
  obtain ⟨r, hr⟩ := (processBoth_spec hrest m m').answers hroom
  obtain ⟨r', hr'⟩ := (processBoth_spec hrest m' m).answers hroom
  exact ⟨r, r', hr, hr'⟩

/-- A trade takes the only bid, and an ask comes in. If the trade is first, the ask gets the slot
that the bid has left. -/
theorem run_swap_freed_slot :
    ∃ s log r r', (ofConfig {}).run [.add 1 100 5 .bid 0, .add 2 101 7 .ask 1] = .ok (s, log) ∧
      s.processBoth ⟨.trade, 9, 100, 5, .ask, 2⟩ ⟨.add, 3, 102, 4, .ask, 3⟩ = .ok r ∧
      s.processBoth ⟨.add, 3, 102, 4, .ask, 3⟩ ⟨.trade, 9, 100, 5, .ask, 2⟩ = .ok r' ∧
      r.2.result = .ok (.added 0) ∧ r'.1.result = .ok (.added 2) ∧ Swapped r r' := by
  obtain ⟨⟨s, log⟩, hrun, -⟩ := (run_wellFormed (s := ofConfig {}) Book.WellFormed.empty
    [.add 1 100 5 .bid 0, .add 2 101 7 .ask 1]).exists_ok (roomy_of_length_lt _ _ (by decide))
  have hbook : ((ofConfig {}).run [.add 1 100 5 .bid 0, .add 2 101 7 .ask 1]).map (fun r =>
      (r.1.book.index.size, r.1.book.touched ⟨.trade, 9, 100, 5, .ask, 2⟩,
        r.1.book.touched ⟨.add, 3, 102, 4, .ask, 3⟩)) =
      .ok (2, [(.bid, 100)], [(.ask, 102)]) := by decide +kernel
  have hslots : ((ofConfig {}).run [.add 1 100 5 .bid 0, .add 2 101 7 .ask 1] >>= fun r =>
      r.1.processBoth ⟨.trade, 9, 100, 5, .ask, 2⟩ ⟨.add, 3, 102, 4, .ask, 3⟩ >>= fun r₁ =>
      r.1.processBoth ⟨.add, 3, 102, 4, .ask, 3⟩ ⟨.trade, 9, 100, 5, .ask, 2⟩ >>= fun r₂ =>
        .ok (r₁.2.result, r₂.1.result)) = .ok (.ok (.added 0), .ok (.added 2)) := by decide +kernel
  rw [hrun] at hbook hslots
  obtain ⟨hsize, htouched⟩ := Prod.mk.inj (Except.ok.inj hbook)
  obtain ⟨htrade, hadd⟩ := Prod.mk.inj htouched
  have hlevels : (s.book.touched ⟨.trade, 9, 100, 5, .ask, 2⟩).Disjoint
      (s.book.touched ⟨.add, 3, 102, 4, .ask, 3⟩) := by
    rw [htrade, hadd]
    simp
  obtain ⟨hanswers, hswapped⟩ := run_swap hrun hlevels fun htrade => absurd rfl htrade
  have hroom : s.book.index.size + 1 < 2 ^ 32 := by
    dsimp only at hsize
    omega
  obtain ⟨r, r', hr, hr'⟩ := hanswers hroom
  rw [ok_bind, hr, ok_bind, hr', ok_bind] at hslots
  obtain ⟨hslot, hslot'⟩ := Prod.mk.inj (Except.ok.inj hslots)
  exact ⟨s, log, r, r', hrun, hr, hr', hslot, hslot', hswapped r r' hr hr'⟩

end Session

end PriceTime
