import Mathlib.Algebra.Order.Ring.Int
import PriceTime.Proofs.Book.Holdings
import PriceTime.Proofs.History
import PriceTime.Proofs.Operation

/-!
# Exact figures

Figures are computed in machine words, and some of them from words that were kept since long ago.
None of them is off: while at most `2 ^ 30` orders rest at a time, a volume stays below `2 ^ 62`, so
that volumes add up within a double word and differ within a signed one; and fewer than `2 ^ 63`
operations cannot fill the sums of the tape. The means and differences of two prices fit anyway.

* `Indicators.gain`: what a side contributes to the change of volume, in whole numbers.
* `Book.Tallies`: the words of a book are the numbers they stand for.
* `Tape.Sums`: the tape after some trades.
* `Session.run_exact`: the figures after a run.
-/

namespace PriceTime

/-! ## Words as numbers -/

theorem toInt_toInt64 {w : UInt64} (h : w.toNat < 2 ^ 63) : w.toInt64.toInt = w.toNat := by
  rw [Int64.toInt, UInt64.toBitVec_toInt64, BitVec.toInt_eq_toNat_of_lt]
  · rfl
  · rw [UInt64.toNat_toBitVec]
    omega

theorem toInt_sub_of_le_of_lt {x y : Int64} (hle : -2 ^ 63 ≤ x.toInt - y.toInt)
    (hlt : x.toInt - y.toInt < 2 ^ 63) : (x - y).toInt = x.toInt - y.toInt := by
  rw [Int64.toInt_sub, Int.bmod_eq_of_le (by omega) (by omega)]

theorem toInt_mean (p q : Int32) :
    ((p.toInt64 + q.toInt64) / 2).toInt32.toInt = (p.toInt + q.toInt).tdiv 2 ∧
      min p.toInt q.toInt ≤ (p.toInt + q.toInt).tdiv 2 ∧
      (p.toInt + q.toInt).tdiv 2 ≤ max p.toInt q.toInt := by
  have hp := Int32.le_toInt p
  have hp' := Int32.toInt_lt p
  have hq := Int32.le_toInt q
  have hq' := Int32.toInt_lt q
  have hsum : (p.toInt64 + q.toInt64).toInt = p.toInt + q.toInt := by
    rw [Int64.toInt_add, Int32.toInt_toInt64, Int32.toInt_toInt64,
      Int.bmod_eq_of_le (by omega) (by omega)]
  have hbetween : min p.toInt q.toInt ≤ (p.toInt + q.toInt).tdiv 2 ∧
      (p.toInt + q.toInt).tdiv 2 ≤ max p.toInt q.toInt := by
    -- The division rounds toward zero, that is down or up with the sign of the sum.
    rcases Int.le_total 0 (p.toInt + q.toInt) with hsign | hsign
    · rw [Int.tdiv_eq_ediv_of_nonneg hsign]
      omega
    · have hneg : (p.toInt + q.toInt).tdiv 2 = -((-(p.toInt + q.toInt)) / 2) := by
        rw [← Int.tdiv_eq_ediv_of_nonneg (by omega), Int.neg_tdiv, Int.neg_neg]
      rw [hneg]
      omega
  refine ⟨?_, hbetween⟩
  rw [Int64.toInt_toInt32, Int64.toInt_div_of_ne_right _ _ (by decide), hsum,
    show (2 : Int64).toInt = 2 from rfl, Int.bmod_eq_of_le (by omega) (by omega)]

theorem toInt_difference (p q : Int32) : (q.toInt64 - p.toInt64).toInt = q.toInt - p.toInt := by
  have hp := Int32.le_toInt p
  have hp' := Int32.toInt_lt p
  have hq := Int32.le_toInt q
  have hq' := Int32.toInt_lt q
  have hwide : ∀ r : Int32, r.toInt64.toInt = r.toInt := Int32.toInt_toInt64
  rw [toInt_sub_of_le_of_lt, hwide, hwide]
  · rw [hwide, hwide]
    omega
  · rw [hwide, hwide]
    omega

/-! ## The change of volume -/

/-- A price and the sum of the sizes there, as a number. -/
def quoted (quote : Int32 × UInt64) : Int32 × Nat :=
  (quote.1, quote.2.toNat)

namespace Indicators

/-- What one side contributes to the change of volume, in whole numbers: all its volume if its best
price got better, the difference if the price held, nothing if it got worse. -/
def gain (side : Side) (last : Option (Int32 × Nat)) (now : Int32 × Nat) : Int :=
  match last with
  | none => now.2
  | some (price, volume) =>
    if side.rank now.1 < side.rank price then now.2
    else if now.1 = price then now.2 - volume
    else 0

/-- With volumes below `2 ^ 62` a side contributes the exact number, which is as small. -/
theorem toInt_contribution (side : Side) {last : Option (Int32 × UInt64)} {now : Int32 × UInt64}
    (hnow : now.2.toNat < 2 ^ 62) (hlast : ∀ quote ∈ last, quote.2.toNat < 2 ^ 62) :
    (contribution side last now).toInt = gain side (last.map quoted) (quoted now) ∧
      -2 ^ 62 < gain side (last.map quoted) (quoted now) ∧
      gain side (last.map quoted) (quoted now) < 2 ^ 62 := by
  have hnow' : now.2.toInt64.toInt = now.2.toNat := toInt_toInt64 (by omega)
  cases last with
  | none =>
    refine ⟨hnow', ?_⟩
    show -2 ^ 62 < (now.2.toNat : Int) ∧ (now.2.toNat : Int) < 2 ^ 62
    omega
  | some quote =>
    obtain ⟨price, volume⟩ := quote
    have hvolume : volume.toNat < 2 ^ 62 := hlast _ rfl
    have hvolume' : volume.toInt64.toInt = volume.toNat := toInt_toInt64 (by omega)
    unfold contribution gain quoted
    dsimp only [Option.map_some]
    split_ifs
    · rw [hnow']
      omega
    · rw [toInt_sub_of_le_of_lt, hnow', hvolume']
      · omega
      · rw [hnow', hvolume']
        omega
      · rw [hnow', hvolume']
        omega
    · exact ⟨rfl, by decide, by decide⟩

end Indicators

/-! ## Volumes -/

namespace Book

variable {b : Book} {side : Side} {price : Int32}

/-- The best price of a side and the sum of the sizes there. -/
def standing? (b : Book) (side : Side) : Option (Int32 × Nat) :=
  (b.bestPrice? side).map fun price => (price, b.plain.volume side price)

/-- The words of a book with at most `2 ^ 30` orders are the numbers they stand for. -/
structure Tallies (b : Book) : Prop where
  count : ∀ {key l}, b.queues.levels.get? key = some l →
    l.count.toNat = (b.ordersOf l).length ∧ (b.ordersOf l).length ≤ 2 ^ 30
  volume : ∀ {key l}, b.queues.levels.get? key = some l →
    l.volume.toNat = ((b.ordersOf l).map fun entry => entry.2.size.toNat).sum ∧
      l.volume.toNat < 2 ^ 62
  /-- The volumes add up level by level. -/
  nearTop : ∀ depth side, (Indicators.volumeNearTop depth b side).toNat =
      (((b.levels side).take depth).map fun level => level.volume.toNat).sum ∧
    (Indicators.volumeNearTop depth b side).toNat < 2 ^ 62
  quote : ∀ side, (b.bestQuote? side).map quoted = b.standing? side
  quote_lt : ∀ side, ∀ quote ∈ b.bestQuote? side, quote.2.toNat < 2 ^ 62

namespace WellFormed

variable (h : b.WellFormed)

include h

theorem sizeOn_le (side : Side) : b.sizeOn side ≤ b.queues.orders.size * (2 ^ 32 - 1) := by
  rw [← h.sizeSum_lineUp]
  refine (Pool.sizeSum_le _ _).trans (Nat.mul_le_mul_right _ ?_)
  rw [h.length_lineUp]
  exact h.ordersOn_le_size side

theorem plain_volume_le (side : Side) (price : Int32) :
    b.plain.volume side price ≤ b.queues.orders.size * (2 ^ 32 - 1) := by
  rw [h.volume_plain]
  exact (Pool.sizeSum_le _ _).trans (Nat.mul_le_mul_right _ (h.length_slotsAt_le side price))

theorem toNat_volumeNearTop (hroom : b.queues.orders.size ≤ 2 ^ 30) (depth : Nat) (side : Side) :
    (Indicators.volumeNearTop depth b side).toNat =
        (((b.levels side).take depth).map fun level => level.volume.toNat).sum ∧
      (Indicators.volumeNearTop depth b side).toNat < 2 ^ 62 := by
  have hword : Indicators.volumeNearTop depth b side =
      UInt64.ofNat (((b.levels side).take depth).map fun level => level.volume.toNat).sum := by
    have hsum :=
      foldl_ofNat (fun level : Level => level.volume.toNat) ((b.levels side).take depth) 0
    simp only [UInt64.ofNat_toNat] at hsum
    rw [UInt64.zero_add] at hsum
    rw [Indicators.volumeNearTop, ← hsum, List.foldl_map]
  have hle : (((b.levels side).take depth).map fun level => level.volume.toNat).sum ≤
      b.sizeOn side := by
    rw [← h.sum_volumes (by omega) side]
    exact ((List.take_sublist depth _).map _).sum_le_sum fun _ _ => Nat.zero_le _
  have hsize := h.sizeOn_le side
  rw [hword, UInt64.toNat_ofNat_of_lt' (show _ < 2 ^ 64 by omega)]
  omega

theorem bestQuote?_standing (hroom : b.queues.orders.size ≤ 2 ^ 30) (side : Side) :
    (b.bestQuote? side).map quoted = b.standing? side ∧
      ∀ quote ∈ b.bestQuote? side, quote.2.toNat < 2 ^ 62 := by
  have hvolume : ∀ price, (UInt64.ofNat (b.plain.volume side price)).toNat =
      b.plain.volume side price ∧ b.plain.volume side price < 2 ^ 62 := by
    intro price
    have hle := h.plain_volume_le side price
    rw [UInt64.toNat_ofNat_of_lt' (show _ < 2 ^ 64 by omega)]
    omega
  rw [standing?, h.bestQuote?_view, (h.showsSide side).bestPrice?]
  cases hprices : (b.half side).ladder.toList.map Prod.fst with
  | nil => exact ⟨rfl, nofun⟩
  | cons price prices =>
    have hne := ((h.ladder_plain side).mem_iff price).mp (hprices ▸ List.mem_cons_self ..)
    have hview : b.plain.view? side price = some {
        price
        volume := UInt64.ofNat (b.plain.volume side price)
        count := UInt32.ofNat (b.plain.queue side price).length } := if_neg hne
    rw [List.head?_cons, Option.bind_some, hview]
    refine ⟨?_, ?_⟩
    · show some (price, (UInt64.ofNat (b.plain.volume side price)).toNat) = _
      rw [(hvolume price).1]
      rfl
    · rintro _ ⟨⟩
      rw [(hvolume price).1]
      exact (hvolume price).2

theorem tallies (hroom : b.index.size ≤ 2 ^ 30) : b.Tallies := by
  rw [h.size_index] at hroom
  have hconsistent := h.consistent (lt_of_le_of_lt hroom (by decide))
  have hlength : ∀ {key l}, b.queues.levels.get? key = some l → (b.ordersOf l).length ≤ 2 ^ 30 := by
    intro key l hl
    obtain ⟨members, hstands⟩ := h.stands
    have hfst : (b.ordersOf l).map Prod.fst = members key := hstands.places.map_fst_ordersOf hl
    rw [← List.length_map Prod.fst, hfst]
    exact (hstands.places.length_le_size key).trans hroom
  refine ⟨?_, ?_, h.toNat_volumeNearTop hroom, fun side => (h.bestQuote?_standing hroom side).1,
    fun side => (h.bestQuote?_standing hroom side).2⟩
  · intro key l hl
    exact ⟨hconsistent.count_eq hl, hlength hl⟩
  · intro key l hl
    obtain ⟨members, hstands⟩ := h.stands
    have hsum : ((b.ordersOf l).map fun entry => entry.2.size.toNat).sum =
        b.queues.orders.sizeSum (members key) :=
      (hstands.places.represents hl).sum_orders hstands.places.orders_tidy
    have hle := Pool.sizeSum_le b.queues.orders (members key)
    have hmembers := (hstands.places.length_le_size key).trans hroom
    refine ⟨hconsistent.volume_eq hl, ?_⟩
    rw [hconsistent.volume_eq hl, hsum]
    omega

end WellFormed

end Book

/-! ## The tape -/

/-- The price and the size of a trade. -/
def Operation.print? : Operation → Option (Int32 × UInt32)
  | .trade _ price size _ => some (price, size)
  | _ => none

/-- The price of a trade times its size. -/
def turnover (print : Int32 × UInt32) : Int :=
  print.1.toInt * print.2.toNat

/-- The trades since the last new start, once a call is made. -/
def Call.printed (past : List (Int32 × UInt32)) (call : Call) : List (Int32 × UInt32) :=
  if call.isReset then [] else past ++ (call.operation?.bind Operation.print?).toList

/-- The exact sums of a tape. -/
structure Tape.Sums (t : Tape) (prints : List (Int32 × UInt32)) : Prop where
  priceVolume : t.priceVolume = (prints.map turnover).sum
  volume : t.volume = (prints.map fun print => print.2.toNat).sum

namespace Tape.Sums

variable {t : Tape} {prints : List (Int32 × UInt32)}

theorem empty : ({} : Tape).Sums [] := ⟨rfl, rfl⟩

theorem record (h : t.Sums prints) (price : Int32) (size : UInt32) :
    (t.record price size).Sums (prints ++ [(price, size)]) := by
  obtain ⟨hpriceVolume, hvolume⟩ := t.sums_record price size
  constructor
  · rw [hpriceVolume, h.priceVolume, List.map_append, List.sum_append, List.map_singleton,
      List.sum_singleton]
    rfl
  · rw [hvolume, h.volume]
    simp

theorem afterCall (h : t.Sums prints) (call : Call) :
    (t.afterCall call).Sums (call.printed prints) := by
  have hsame : t.Sums (prints ++ []) := by rwa [List.append_nil]
  cases call with
  | process m =>
    obtain ⟨action, id, price, size, side, time⟩ := m
    cases action with
    | trade => exact h.record price size
    | add | cancel | modify => exact hsame
  | trade id price size side => exact h.record price size
  | reset => exact .empty
  | _ => exact hsame

/-- A trade adds less than `2 ^ 63` to the one sum, and less than `2 ^ 32` to the other. -/
theorem bounded (h : t.Sums prints) :
    t.priceVolume.natAbs ≤ prints.length * 2 ^ 63 ∧ t.volume ≤ prints.length * 2 ^ 32 := by
  rw [h.priceVolume, h.volume]
  clear h
  induction prints with
  | nil => exact ⟨Nat.le_refl 0, Nat.le_refl 0⟩
  | cons print prints ih =>
    have hprice : print.1.toInt.natAbs ≤ 2 ^ 31 := by
      have := Int32.le_toInt print.1
      have := Int32.toInt_lt print.1
      omega
    have hsize := print.2.toNat_lt
    have hproduct : (turnover print).natAbs ≤ 2 ^ 31 * 2 ^ 32 := by
      rw [turnover, Int.natAbs_mul, Int.natAbs_natCast]
      exact Nat.mul_le_mul hprice (by omega)
    have hsum := Int.natAbs_add_le (turnover print) (prints.map turnover).sum
    simp only [List.map_cons, List.sum_cons, List.length_cons]
    omega

end Tape.Sums

theorem length_printed_le (past : List (Int32 × UInt32)) (calls : List Call) :
    (calls.foldl Call.printed past).length ≤
      past.length + (calls.filterMap Call.operation?).length := by
  induction calls generalizing past with
  | nil => exact Nat.le_refl _
  | cons call calls ih =>
    have hone : (call.printed past).length ≤ past.length + call.operation?.toList.length := by
      unfold Call.printed
      split
      · exact Nat.zero_le _
      · cases call.operation? with
        | none => exact Nat.le_of_eq (congrArg List.length (List.append_nil past))
        | some op => cases op <;> simp [Operation.print?]
    have hall : ((call :: calls).filterMap Call.operation?).length =
        call.operation?.toList.length + (calls.filterMap Call.operation?).length := by
      cases hop : call.operation? <;> simp [hop, Nat.add_comm]
    have hrest := ih (call.printed past)
    rw [List.foldl_cons, hall]
    omega

/-! ## One call -/

namespace Session

variable {s s' : Session} {prints : List (Int32 × UInt32)} {seen : Sightings} {call : Call}
  {answer : Answer} {events : List Event} {log : List (Answer × List Event)}

/-- What a session has kept so far: volumes that were drawn once, the book a change of volume was
drawn from last, and the sums of the tape. -/
structure Accurate (s : Session) (prints : List (Int32 × UInt32)) (seen : Sightings) : Prop where
  wellFormed : s.book.WellFormed
  size_le : s.book.index.size ≤ 2 ^ 30
  bidVolume_lt : s.indicators.bidVolume.toNat < 2 ^ 62
  askVolume_lt : s.indicators.askVolume.toNat < 2 ^ 62
  recalls : s.indicators.Recalls seen
  drawn : ∀ b ∈ seen.drawn, b.Tallies
  tape : s.tape.Sums prints

namespace Accurate

theorem tallies (h : s.Accurate prints seen) : s.book.Tallies :=
  h.wellFormed.tallies h.size_le

theorem volumes_after (h : s.Accurate prints seen) (call : Call) :
    (s.indicators.after s.book call).bidVolume.toNat < 2 ^ 62 ∧
      (s.indicators.after s.book call).askVolume.toNat < 2 ^ 62 := by
  cases call with
  | drawVolumes => exact ⟨(h.tallies.nearTop _ .bid).2, (h.tallies.nearTop _ .ask).2⟩
  | drawSkew =>
    unfold Indicators.after Indicators.drawSkew
    dsimp only
    split <;> exact ⟨h.bidVolume_lt, h.askVolume_lt⟩
  | drawChange =>
    unfold Indicators.after Indicators.drawChange
    dsimp only
    split <;> exact ⟨h.bidVolume_lt, h.askVolume_lt⟩
  | drawMid =>
    unfold Indicators.after Indicators.drawMid
    dsimp only
    split <;> exact ⟨h.bidVolume_lt, h.askVolume_lt⟩
  | reset =>
    have hzero : (0 : UInt64).toNat < 2 ^ 62 := by decide
    exact ⟨hzero, hzero⟩
  | _ => exact ⟨h.bidVolume_lt, h.askVolume_lt⟩

theorem drawn_note (h : s.Accurate prints seen) (call : Call) (answer : Answer) :
    ∀ b ∈ (seen.note s.book call answer).drawn, b.Tallies := by
  unfold Sightings.note
  split
  · exact nofun
  · dsimp only
    split
    · rintro _ ⟨⟩
      exact h.tallies
    · exact h.drawn

theorem step (h : s.Accurate prints seen) (hcall : s.call call = .ok (answer, s', events))
    (hsize : s'.book.index.size ≤ 2 ^ 30) :
    s'.Accurate (call.printed prints) (seen.note s.book call answer) := by
  have hdraws : s.Draws call answer s' := (call_draws s call).sound _ hcall
  obtain ⟨hbid, hask⟩ := h.volumes_after call
  exact {
    wellFormed := ((call_follows h.wellFormed call).sound _ hcall).wellFormed
    size_le := hsize
    bidVolume_lt := hdraws.indicators ▸ hbid
    askVolume_lt := hdraws.indicators ▸ hask
    recalls := call_recalls h.recalls hcall
    drawn := h.drawn_note call answer
    tape := hdraws.tape ▸ h.tape.afterCall call }

theorem run (h : s.Accurate prints seen) {calls : List Call} (hmost : s.AtMost (2 ^ 30) calls)
    (hrun : s.run calls = .ok (s', log)) :
    s'.Accurate (calls.foldl Call.printed prints) (s.sightings seen calls) := by
  induction calls generalizing s prints seen log with
  | nil =>
    cases hrun
    exact h
  | cons call calls ih =>
    obtain ⟨answer, s₁, events, rest, hcall, hrest, rfl⟩ := exists_of_run_cons hrun
    have hmost₁ := hmost.2 answer s₁ events hcall
    rw [sightings, hcall]
    exact ih (h.step hcall hmost₁.first) hmost₁ hrest

theorem fresh (config : BookConfig) : (ofConfig config).Accurate [] {} where
  wellFormed := Book.WellFormed.empty
  size_le := Nat.zero_le _
  bidVolume_lt := (by decide : (0 : UInt64).toNat < 2 ^ 62)
  askVolume_lt := (by decide : (0 : UInt64).toNat < 2 ^ 62)
  recalls := recalls_ofConfig config
  drawn := nofun
  tape := .empty

end Accurate

/-! ## What the figures show -/

/-- The figures of a session are exact, given the trades and the book from which a change of volume
was drawn last, both since the last new start. -/
structure Exact (s : Session) (prints : List (Int32 × UInt32)) (drawn : Option Book) : Prop where
  book : s.book.Tallies
  /-- The volumes drawn last add up within a word. -/
  total : (s.indicators.bidVolume + s.indicators.askVolume).toNat =
      s.indicators.bidVolume.toNat + s.indicators.askVolume.toNat ∧
    s.indicators.bidVolume.toNat + s.indicators.askVolume.toNat < 2 ^ 63
  /-- The change of volume, and what each side contributes to it against the quotes of the last
  time. -/
  change : ∀ bid ask, s.book.bestQuote? .bid = some bid → s.book.bestQuote? .ask = some ask →
    (Indicators.contribution .bid s.indicators.lastBid bid).toInt =
        Indicators.gain .bid (drawn.bind (·.standing? .bid)) (quoted bid) ∧
      (Indicators.contribution .ask s.indicators.lastAsk ask).toInt =
        Indicators.gain .ask (drawn.bind (·.standing? .ask)) (quoted ask) ∧
      ∃ change, s.drawChange.1 = some change ∧ change.toInt =
        Indicators.gain .bid (drawn.bind (·.standing? .bid)) (quoted bid) -
          Indicators.gain .ask (drawn.bind (·.standing? .ask)) (quoted ask)
  /-- The sums of the tape would fit words of 128 bits, the first of them a signed one. -/
  priceVolume : s.tape.priceVolume = (prints.map turnover).sum ∧
    -2 ^ 127 < s.tape.priceVolume ∧ s.tape.priceVolume < 2 ^ 127
  volume : s.tape.volume = (prints.map fun print => print.2.toNat).sum ∧ s.tape.volume < 2 ^ 128
  spread : ∀ bid ask, s.book.bestPrice? .bid = some bid → s.book.bestPrice? .ask = some ask →
    ∃ spread, s.book.spread? = some spread ∧ spread.toInt = ask.toInt - bid.toInt
  /-- The mid price is rounded toward zero and lies between the best prices, whichever is higher. -/
  mid : ∀ bid ask, s.book.bestPrice? .bid = some bid → s.book.bestPrice? .ask = some ask →
    ∃ mid, s.book.midPrice? = some mid ∧ mid.toInt = (bid.toInt + ask.toInt).tdiv 2 ∧
      min bid.toInt ask.toInt ≤ mid.toInt ∧ mid.toInt ≤ max bid.toInt ask.toInt

namespace Accurate

variable (h : s.Accurate prints seen)

include h

theorem toInt_contribution {side : Side} {last : Option (Int32 × UInt64)} {now : Int32 × UInt64}
    (hlast : last = seen.drawn.bind (·.bestQuote? side))
    (hnow : s.book.bestQuote? side = some now) :
    (Indicators.contribution side last now).toInt =
        Indicators.gain side (seen.drawn.bind (·.standing? side)) (quoted now) ∧
      -2 ^ 62 < Indicators.gain side (seen.drawn.bind (·.standing? side)) (quoted now) ∧
      Indicators.gain side (seen.drawn.bind (·.standing? side)) (quoted now) < 2 ^ 62 := by
  -- However long ago the quotes were drawn, the words of the book they come from were exact then.
  have hquoted : last.map quoted = seen.drawn.bind (·.standing? side) := by
    rw [hlast]
    cases hdrawn : seen.drawn with
    | none => rfl
    | some b => exact (h.drawn b hdrawn).quote side
  rw [← hquoted]
  refine Indicators.toInt_contribution side (h.tallies.quote_lt side now hnow) ?_
  intro quote hquote
  rw [hlast] at hquote
  obtain ⟨b, hb, hquote⟩ := Option.bind_eq_some_iff.mp hquote
  exact (h.drawn b hb).quote_lt side quote hquote

theorem exact (hprints : prints.length < 2 ^ 63) : s.Exact prints seen.drawn := by
  have hbidVolume := h.bidVolume_lt
  have haskVolume := h.askVolume_lt
  have htape := h.tape.bounded
  refine {
    book := h.tallies
    total := ?_
    change := ?_
    priceVolume := ⟨h.tape.priceVolume, by omega⟩
    volume := ⟨h.tape.volume, by omega⟩
    spread := ?_
    mid := ?_ }
  · rw [UInt64.toNat_add, Nat.mod_eq_of_lt (by omega)]
    omega
  · intro bid ask hbid hask
    obtain ⟨hbidGain, hbidLow, hbidHigh⟩ := h.toInt_contribution h.recalls.lastBid hbid
    obtain ⟨haskGain, haskLow, haskHigh⟩ := h.toInt_contribution h.recalls.lastAsk hask
    refine ⟨hbidGain, haskGain, Indicators.contribution .bid s.indicators.lastBid bid -
      Indicators.contribution .ask s.indicators.lastAsk ask, ?_, ?_⟩
    · unfold drawChange Indicators.drawChange
      rw [hbid, hask]
    · rw [toInt_sub_of_le_of_lt, hbidGain, haskGain]
      · omega
      · omega
  · intro bid ask hbid hask
    refine ⟨ask.toInt64 - bid.toInt64, ?_, toInt_difference bid ask⟩
    unfold Book.spread?
    rw [hbid, hask]
    rfl
  · intro bid ask hbid hask
    obtain ⟨hmid, hmin, hmax⟩ := toInt_mean bid ask
    refine ⟨((bid.toInt64 + ask.toInt64) / 2).toInt32, ?_, hmid, ?_, ?_⟩
    · unfold Book.midPrice?
      rw [hbid, hask]
      rfl
    · rwa [hmid]
    · rwa [hmid]

end Accurate

/-- A run with at most `2 ^ 30` orders at any time and fewer than `2 ^ 63` operations comes to its
end, and all its figures are exact. -/
theorem run_exact (config : BookConfig) (calls : List Call)
    (hmost : (ofConfig config).AtMost (2 ^ 30) calls)
    (hoperations : (calls.filterMap Call.operation?).length < 2 ^ 63) :
    ∃ s log, (ofConfig config).run calls = .ok (s, log) ∧
      s.Exact (calls.foldl Call.printed []) ((ofConfig config).sightings {} calls).drawn := by
  obtain ⟨s, log, hrun⟩ := exists_run (hmost.roomy (by decide))
  refine ⟨s, log, hrun, ((Accurate.fresh config).run hmost hrun).exact ?_⟩
  have hlength := length_printed_le [] calls
  rw [List.length_nil] at hlength
  omega

/-- Prices at both ends of their range, crossed; a change of volume, a new start with the same
orders the other way round, and two trades at a negative price. -/
theorem run_exact_crossed :
    ∃ s log, (ofConfig {}).run [.add 1 2147483647 5 .bid 0, .add 2 (-2147483648) 3 .ask 1,
        .trade 9 7 4 .bid, .drawChange, .reset, .add 1 (-2147483648) 5 .bid 2,
        .add 2 2147483647 3 .ask 3, .drawVolumes, .drawChange, .process ⟨.trade, 9, -7, 4, .bid, 4⟩,
        .add 3 (-2147483648) 2 .bid 5, .trade 9 (-7) 2 .ask] = .ok (s, log) ∧
      s.Exact [(-7, 4), (-7, 2)] ((ofConfig {}).sightings {} [.add 1 2147483647 5 .bid 0,
        .add 2 (-2147483648) 3 .ask 1, .trade 9 7 4 .bid, .drawChange, .reset,
        .add 1 (-2147483648) 5 .bid 2, .add 2 2147483647 3 .ask 3, .drawVolumes, .drawChange,
        .process ⟨.trade, 9, -7, 4, .bid, 4⟩, .add 3 (-2147483648) 2 .bid 5,
        .trade 9 (-7) 2 .ask]).drawn ∧
      s.tape.priceVolume = -42 ∧ s.drawChange.1.map Int64.toInt = some 2 ∧
      s.book.spread?.map Int64.toInt = some 4294967295 ∧ s.book.midPrice? = some 0 := by
  obtain ⟨s, log, hrun, hexact⟩ := run_exact {} [.add 1 2147483647 5 .bid 0,
    .add 2 (-2147483648) 3 .ask 1, .trade 9 7 4 .bid, .drawChange, .reset,
    .add 1 (-2147483648) 5 .bid 2, .add 2 2147483647 3 .ask 3, .drawVolumes, .drawChange,
    .process ⟨.trade, 9, -7, 4, .bid, 4⟩, .add 3 (-2147483648) 2 .bid 5, .trade 9 (-7) 2 .ask]
    (atMost_of_length_le _ _ (by decide)) (by decide)
  refine ⟨s, log, hrun, hexact, hexact.priceVolume.1, ?_⟩
  cases hrun
  decide +kernel

end Session

end PriceTime
