import PriceTime.Proofs.Book.Solid
import PriceTime.Proofs.Float
import PriceTime.Proofs.Operation
import PriceTime.Proofs.Refinement

/-!
# Eager cleanup

An order that has no size left leaves the book in the very turn that takes the rest of it, and its
level leaves with the last order. So as long as every order comes in with a size and is changed to
one, nothing without a size ever rests, whatever trades come.

* `Book.Performs.solid`: what an operation preserves.
* `Book.Traded.slotsAt_eq_nil`: a trade that is left with something has used up all orders.
* `Session.run_clean`: what a whole run leaves.
-/

namespace PriceTime

/-- Whether the order an operation brings in or changes has a size afterwards. -/
def Operation.Sized : Operation → Prop
  | .add _ _ size _ _ | .modify _ _ size _ _ => 1 ≤ size
  | .cancel _ | .trade .. => True

instance (op : Operation) : Decidable op.Sized :=
  match op with
  | .add _ _ size _ _ | .modify _ _ size _ _ => inferInstanceAs (Decidable (1 ≤ size))
  | .cancel _ | .trade .. => inferInstanceAs (Decidable True)

namespace Book

variable {b b' : Book} {key : LevelKey} {slot : Slot} {id : UInt64} {side : Side} {price : Int32}
  {size : UInt32} {o : Order} {l : Level} {events : List Event} {report report' : TradeReport}
  {op : Operation} {result : Except BookError Applied}

/-- What an operation preserves, given that the size it brings is one. -/
theorem Performs.solid (hperforms : b.Performs op result b') (hb : b.WellFormed) (h : b.Solid)
    (hsized : op.Sized) : b'.Solid := by
  have hpos : ∀ {size : UInt32}, 1 ≤ size → 0 < size := by
    intro size hsize
    rw [UInt32.le_iff_toNat_le] at hsize
    exact UInt32.lt_iff_toNat_lt.mpr hsize
  cases hperforms with
  | added _ hadded => exact h.of_revised hadded.card_eq (hpos hsized)
  | duplicate => exact h
  | cancelled _ _ hremoved => exact h.of_removed hremoved
  | unknown => exact h
  | modified hmodified => exact h.of_modified hmodified (hpos hsized)
  | traded htraded => exact h.of_traded hb htraded

/-! ## What a trade leaves -/

theorem Matches.slotsAt_eq_nil (hmatches : Matches side price b report b' report' events)
    (hopen : report'.unmatched ≠ 0) : b'.slotsAt side price = [] := by
  induction hmatches with
  | spent hspent => exact absurd hspent hopen
  | exhausted hslots => exact hslots
  | part => exact absurd rfl hopen
  | whole _ _ _ _ _ _ _ _ ih => exact ih hopen

/-- A trade that is left with something has used up all orders at its price. -/
theorem Traded.slotsAt_eq_nil (htraded : b.Traded id price size side report b' events)
    (hopen : report.unmatched ≠ 0) : b'.slotsAt side.opposite price = [] := by
  cases htraded with
  | missed hslots => exact hslots
  | met _ hmatches => exact hmatches.slotsAt_eq_nil hopen

namespace WellFormed

variable (h : b.WellFormed)

include h

/-- Where no order waits there is no level, neither by price nor in the arena. -/
theorem no_level (hslots : b.slotsAt side price = []) :
    b.level? side price = none ∧ ∀ key, ¬ b.HasLevel key side price := by
  have hkey := h.levelKey?_eq_none_iff.mpr hslots
  obtain ⟨members, hstands⟩ := h.stands
  refine ⟨?_, ?_⟩
  · rw [level?, hkey]
    rfl
  · intro key hlevel
    rw [hstands.levelKey?_iff_hasLevel.mpr hlevel] at hkey
    cases hkey

/-! ## Volumes -/

/-- The sizes at a level add up to something, and its volume is this sum as long as it fits. -/
theorem volume_pos (hsolid : b.Solid) (hl : b.queues.levels.get? key = some l) :
    0 < ((b.ordersOf l).map fun entry => entry.2.size.toNat).sum ∧
      (b.index.size < 2 ^ 32 → 0 < l.volume) := by
  obtain ⟨members, hstands⟩ := h.stands
  have hsum : ((b.ordersOf l).map fun entry => entry.2.size.toNat).sum =
      b.queues.orders.sizeSum (members key) :=
    (hstands.places.represents hl).sum_orders hstands.places.orders_tidy
  have hpos : 0 < b.queues.orders.sizeSum (members key) := by
    have hne := h.nonempty (hstands.exists_key hl)
    rw [hstands.slotsAt_of_key (hstands.exists_key hl)] at hne
    obtain ⟨slot, rest, hslots⟩ := List.exists_cons_of_ne_nil hne
    obtain ⟨o, ho, -⟩ := hstands.places.mem_iff.mp (hslots ▸ List.mem_cons_self ..)
    obtain ⟨p, hp, rfl⟩ := Queues.get?_of_card ho
    have hsize := UInt32.lt_iff_toNat_lt.mp (hsolid slot p.bare ho)
    rw [hslots, Pool.sizeSum_cons _ _ _ hp]
    exact Nat.add_pos_left hsize _
  refine ⟨hsum ▸ hpos, ?_⟩
  intro hroom
  rw [UInt64.lt_iff_toNat_lt, (h.consistent (h.size_index ▸ hroom)).volume_eq hl, hsum]
  exact hpos

theorem exists_bestVolume? (hside : b.levels side ≠ []) :
    ∃ key l, b.queues.levels.get? key = some l ∧ b.bestVolume? side = some l.volume := by
  have hquote := (not_congr h.bestQuote?_eq_none_iff).mpr hside
  unfold bestQuote? at hquote
  unfold bestVolume? best?
  cases hbest : (b.half side).ladder.best? with
  | none =>
    rw [hbest] at hquote
    exact absurd rfl hquote
  | some entry =>
    rw [hbest] at hquote
    obtain ⟨quote, hquote⟩ := Option.ne_none_iff_exists'.mp hquote
    obtain ⟨l, hl, -⟩ := Option.map_eq_some_iff.mp hquote
    exact ⟨entry.2, l, hl, congrArg (Option.map Level.volume) hl⟩

end WellFormed

end Book

/-! ## Runs -/

namespace Session

variable {s s' : Session} {call : Call} {answer : Answer} {events : List Event}

/-- What one call preserves. -/
theorem call_solid (hb : s.book.WellFormed) (h : s.book.Solid)
    (hsized : ∀ op ∈ call.operation?, op.Sized) (hcall : s.call call = .ok (answer, s', events)) :
    s'.book.Solid := by
  cases hop : call.operation? with
  | none =>
    rw [(call_idles hb hop hcall).2]
    split
    · exact Book.Solid.empty
    · exact h
  | some op =>
    obtain ⟨-, result, -, hperforms⟩ := call_performs hb hop hcall
    exact hperforms.solid hb h (hsized op hop)

theorem run_solid {calls : List Call} {log : List (Answer × List Event)} (hb : s.book.WellFormed)
    (h : s.book.Solid) (hsized : ∀ call ∈ calls, ∀ op ∈ call.operation?, op.Sized)
    (hrun : s.run calls = .ok (s', log)) : s'.book.Solid := by
  induction calls generalizing s log with
  | nil =>
    cases hrun
    exact h
  | cons call calls ih =>
    obtain ⟨answer, s₁, events, rest, hcall, hrest, rfl⟩ := exists_of_run_cons hrun
    have hs₁ := (call_follows hb call).sound _ hcall
    refine ih hs₁.wellFormed ?_ (fun c hc => hsized c (List.mem_cons_of_mem _ hc)) hrest
    exact call_solid hb h (hsized call (List.mem_cons_self ..)) hcall

/-- A session in which nothing is left behind. The words of the volumes may be too small for
`2 ^ 32` orders or more. -/
structure Clean (s : Session) : Prop where
  /-- Every order has a size and waits to be filled. -/
  orders : ∀ {slot o}, s.book.queues.orders.get? slot = some o → 1 ≤ o.size ∧ o.filled = false
  /-- Every level has a volume. -/
  volume : ∀ {key l}, s.book.queues.levels.get? key = some l →
    0 < ((s.book.ordersOf l).map fun entry => entry.2.size.toNat).sum ∧
      (s.book.index.size < 2 ^ 32 → 0 < l.volume)
  /-- A trade that is left with something leaves no level at its price on the other side. -/
  swept : ∀ {call id price size side answer s' events report},
    call.operation? = some (.trade id price size side) →
    s.call call = .ok (answer, s', events) →
    answer.applied? = some (.ok (.traded report)) → 0 < report.unmatched →
    s'.book.level? side.opposite price = none ∧
      ∀ key, ¬ s'.book.HasLevel key side.opposite price
  /-- With orders on both sides there is a skew, which takes the logarithms of positive numbers. -/
  skew : s.book.levels .bid ≠ [] → s.book.levels .ask ≠ [] → s.book.index.size < 2 ^ 32 →
    ∃ bid ask, s.book.bestVolume? .bid = some bid ∧ s.book.bestVolume? .ask = some ask ∧
      s.drawSkew.1 = some (bid.toFloat.log10 - ask.toFloat.log10) ∧
      0 < bid.toFloat ∧ 0 < ask.toFloat

theorem clean_of_solid (h : s.book.AtRest) (hsolid : s.book.Solid) : s.Clean where
  orders := by
    intro slot o ho
    have hcard : s.book.card slot = some o.bare := Queues.card_eq ho
    have hsize := UInt32.lt_iff_toNat_lt.mp (hsolid slot o.bare hcard)
    exact ⟨UInt32.le_iff_toNat_le.mpr hsize, h.unfilled (o := o.bare) hcard⟩
  volume := h.volume_pos hsolid
  swept := by
    intro call id price size side answer s' events report hop hcall hanswer hopen
    obtain ⟨hb', result, hresult, hperforms⟩ := call_performs h.toWellFormed hop hcall
    obtain rfl := Option.some.inj (hresult.symm.trans hanswer)
    cases hperforms with
    | traded htraded =>
      exact hb'.no_level (htraded.slotsAt_eq_nil (UInt32.pos_iff_ne_zero.mp hopen))
  skew := by
    intro hbids hasks hroom
    obtain ⟨_, bid, hbid, hbestBid⟩ := h.exists_bestVolume? hbids
    obtain ⟨_, ask, hask, hbestAsk⟩ := h.exists_bestVolume? hasks
    refine ⟨bid.volume, ask.volume, hbestBid, hbestAsk, ?_, ?_, ?_⟩
    · unfold drawSkew Indicators.drawSkew
      rw [hbestBid, hbestAsk]
    · exact toFloat_pos ((h.volume_pos hsolid hbid).2 hroom)
    · exact toFloat_pos ((h.volume_pos hsolid hask).2 hroom)

/-- After every run from a fresh session in which all adds and modifies carry a size, whatever
trades there are, nothing is left behind. With fewer than `2 ^ 32` orders at any time there is an
answer to the run. -/
theorem run_clean (config : BookConfig) (calls : List Call)
    (hsized : ∀ call ∈ calls, ∀ op ∈ call.operation?, op.Sized) :
    ((ofConfig config).Roomy calls → ∃ r, (ofConfig config).run calls = .ok r) ∧
      ∀ s log, (ofConfig config).run calls = .ok (s, log) → s.Clean := by
  have hfresh : (ofConfig config).book.WellFormed := Book.WellFormed.empty
  refine ⟨(run_wellFormed hfresh calls).answers, ?_⟩
  intro s log hrun
  exact clean_of_solid (atRest_of_run hrun) (run_solid hfresh Book.Solid.empty hsized hrun)

/-- A partial fill, a change in place and a move of the order partly filled, a trade without size,
and then a trade that takes the order and is left with something. -/
theorem run_clean_partly_filled :
    ∃ s log, (ofConfig {}).run [.add 1 100 5 .bid 0, .add 2 100 4 .bid 1, .trade 9 100 2 .ask,
        .modify 1 100 2 .bid 2, .process ⟨.modify, 1, 99, 6, .bid, 3⟩, .add 3 101 7 .ask 4,
        .process ⟨.trade, 9, 101, 0, .bid, 5⟩] = .ok (s, log) ∧ s.Clean ∧
      (∃ skew, s.drawSkew.1 = some skew) ∧
      ∃ report s' events, s.call (.trade 9 99 8 .ask) = .ok (.traded report, s', events) ∧
        report.unmatched = 2 ∧ s'.book.level? .bid 99 = none := by
  obtain ⟨hanswers, hall⟩ := run_clean {} [.add 1 100 5 .bid 0, .add 2 100 4 .bid 1,
    .trade 9 100 2 .ask, .modify 1 100 2 .bid 2, .process ⟨.modify, 1, 99, 6, .bid, 3⟩,
    .add 3 101 7 .ask 4, .process ⟨.trade, 9, 101, 0, .bid, 5⟩] (by decide)
  obtain ⟨⟨s, log⟩, hrun⟩ := hanswers (roomy_of_length_lt _ _ (by decide))
  have hclean := hall s log hrun
  have hsides : s.book.levels .bid ≠ [] ∧ s.book.levels .ask ≠ [] ∧ s.book.index.size < 2 ^ 32 := by
    cases hrun
    decide +kernel
  have htrade : (s.trade 9 99 8 .ask).map (fun r => r.1.unmatched) = .ok 2 := by
    cases hrun
    decide +kernel
  obtain ⟨_, _, -, -, hskew, -⟩ := hclean.skew hsides.1 hsides.2.1 hsides.2.2
  cases hcall : s.trade 9 99 8 .ask with
  | error fault =>
    rw [hcall] at htrade
    cases htrade
  | ok r =>
    rw [hcall] at htrade
    have hunmatched : r.1.unmatched = 2 := Except.ok.inj htrade
    have hanswer : s.call (.trade 9 99 8 .ask) = .ok (.traded r.1, r.2.1, r.2.2) := by
      show s.trade 9 99 8 .ask >>= _ = _
      rw [hcall]
      rfl
    refine ⟨s, log, hrun, hclean, ⟨_, hskew⟩, r.1, r.2.1, r.2.2, hanswer, hunmatched, ?_⟩
    exact (hclean.swept rfl hanswer rfl (hunmatched ▸ by decide)).1

end Session

end PriceTime
