import PriceTime.Proofs.Run

/-!
# What surrounds the book

An operation on the book changes nothing else in a session, and a trade enters itself on the tape
whatever it is matched against. So what a message does to all but the book can be told without
looking into the book, and without knowing whether there is room.

* `Tape.after`: the tape after a message.
* `Tape.record_comm`, `Tape.record_add`: the order of trades, and trades in parts.
* `Session.process_keeps`: what holds of a session after a message, whatever became of its book.
-/

namespace PriceTime

namespace Tape

/-- The tape after a message. -/
def after (t : Tape) (m : Message) : Tape :=
  if m.action = .trade then t.record m.price m.size else t

/-- The order of two trades does not matter, not even to the average price. -/
theorem record_comm (t : Tape) (price price' : Int32) (size size' : UInt32) :
    (t.record price size).record price' size' = (t.record price' size').record price size := by
  by_cases hsize : size = 0
  · rw [hsize, record_zero, record_zero]
  · by_cases hsize' : size' = 0
    · rw [hsize', record_zero, record_zero]
    · -- Either way the sums are the same, and the average price is made of them.
      have hpriceVolume : t.priceVolume + price.toInt * size.toNat + price'.toInt * size'.toNat =
          t.priceVolume + price'.toInt * size'.toNat + price.toInt * size.toNat :=
        Int.add_right_comm ..
      have hvolume : t.volume + size.toNat + size'.toNat = t.volume + size'.toNat + size.toNat :=
        Nat.add_right_comm ..
      simp only [record, if_neg hsize, if_neg hsize', hpriceVolume, hvolume]

/-- Two parts of a trade leave the tape that the trade leaves. -/
theorem record_add (t : Tape) (price : Int32) {part rest size : UInt32}
    (hsize : part.toNat + rest.toNat = size.toNat) :
    (t.record price part).record price rest = t.record price size := by
  by_cases hpart : part = 0
  · have hrest : rest = size := UInt32.toNat_inj.mp (by simpa [hpart] using hsize)
    rw [hpart, record_zero, hrest]
  · by_cases hzero : rest = 0
    · have hwhole : part = size := UInt32.toNat_inj.mp (by simpa [hzero] using hsize)
      rw [hzero, record_zero, hwhole]
    · have hopen : size ≠ 0 := by
        rintro rfl
        refine hpart (UInt32.toNat_inj.mp ?_)
        rw [UInt32.toNat_zero] at hsize ⊢
        omega
      have hpriceVolume : t.priceVolume + price.toInt * part.toNat + price.toInt * rest.toNat =
          t.priceVolume + price.toInt * size.toNat := by
        rw [← hsize, Int.natCast_add, Int.mul_add, Int.add_assoc]
      have hvolume : t.volume + part.toNat + rest.toNat = t.volume + size.toNat := by omega
      simp only [record, if_neg hpart, if_neg hzero, if_neg hopen, hpriceVolume, hvolume]

theorem after_comm (t : Tape) (m m' : Message) : (t.after m).after m' = (t.after m').after m := by
  unfold after
  split_ifs
  · exact t.record_comm ..
  · rfl
  · rfl
  · rfl

end Tape

namespace Session

variable {s : Session} (post : Session → Prop)

theorem onBook_keeps {α : Type} (h : ∀ book, post { s with book })
    (f : Book → Except Fault (Step Book α)) :
    Yields False (s.onBook f) fun step => post step.state := by
  rw [onBook_eq]
  cases f s.book with
  | error fault => exact Yields.error fault not_false
  | ok step => exact Yields.ok (h step.state)

theorem trade_keeps (id : UInt64) (price : Int32) (size : UInt32) (side : Side)
    (h : ∀ book, post { s with book, tape := s.tape.record price size }) :
    Yields False (s.trade id price size side) fun r => post r.2.1 := by
  rw [trade_eq]
  cases s.book.trade id price size side with
  | error fault => exact Yields.error fault not_false
  | ok r => exact Yields.ok (h r.2.1)

theorem cancel_keeps (h : ∀ book, post { s with book }) (id : UInt64) (side : Side) :
    Yields False (s.cancel id side) fun step => post step.state := by
  unfold cancel
  refine (onBook_keeps post h _).bind ?_
  rintro ⟨result, state, events⟩ hstate
  cases result with
  | ok order => exact Yields.ok hstate
  | error error => exact Yields.ok hstate

/-- What holds of a session that has counted a message and entered it on the tape, whatever its
book, holds after the message. -/
theorem process_keeps (m : Message)
    (h : ∀ book, post { s.tick m.time with book, tape := s.tape.after m }) :
    Yields False (s.process m) fun step => post step.state := by
  unfold Tape.after at h
  unfold process
  cases haction : m.action with
  | add =>
    rw [if_neg (by rw [haction]; nofun)] at h
    exact (onBook_keeps post h _).bind fun step hstep => Yields.ok hstep
  | cancel =>
    rw [if_neg (by rw [haction]; nofun)] at h
    exact (cancel_keeps post h _ _).bind fun step hstep => Yields.ok hstep
  | modify =>
    rw [if_neg (by rw [haction]; nofun)] at h
    exact (onBook_keeps post h _).bind fun step hstep => Yields.ok hstep
  | trade =>
    rw [if_pos haction] at h
    exact (trade_keeps post _ _ _ _ h).bind fun r hr => Yields.ok hr

end Session

end PriceTime
