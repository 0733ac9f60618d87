import Mathlib.Algebra.BigOperators.Ring.Finset
import PriceTime.Proofs.Replay.Trades
import PriceTime.Proofs.Surroundings

/-!
# How a replay grows, and how its clock runs

Of ten messages six bring an order, and the four others take no more from the book than an order
that is cancelled, a part of one that is modified, or the size of a trade. If no more than 16 counts
of the size of an order, more is brought than is taken, by 104 with every seventy messages. So a book
holds `2 ^ 48` orders before the clock, which moves by at most 2200 with a message, comes to the end
of its word.

* `Book.Performs.stock_le`: what an operation takes from a book.
* `Replay.Tracks.stock_le`: what a message brings, by its number.
* `Replay.Clocked.feedOne`: how a message moves the clock.
* `Replay.le_size_of_run`: how many orders rest after a long replay.
-/

namespace PriceTime

/-! ## What counts of a book -/

/-- How much of what counts an operation can take. -/
def Operation.cost : Operation → Nat
  | add .. => 0
  | trade _ _ size _ => size.toNat
  | cancel _ | modify .. => 16

namespace Book

variable {b b' : Book} {slot : Slot} {side : Side} {price : Int32} {o o' : Order}
  {report report' : TradeReport} {events : List Event} {op : Operation}
  {result : Except BookError Applied}

/-- What counts of an order: its size, up to 16. -/
def lot (o : Order) : Nat := min o.size.toNat 16

/-- What counts of all orders. -/
def stock (b : Book) : Nat :=
  b.queues.orders.total lot

theorem lot_le (o : Order) : lot o ≤ 16 := Nat.min_le_right ..

theorem lot_le_size (o : Order) : lot o ≤ o.size.toNat := Nat.min_le_left ..

theorem WellFormed.stock_le (h : b.WellFormed) : b.stock ≤ 16 * b.index.size := by
  rw [h.size_index, h.tidy.size_eq_total]
  unfold stock Arena.total
  rw [Finset.mul_sum]
  refine Finset.sum_le_sum fun k _ => ?_
  cases b.queues.orders.get? k with
  | none => exact Nat.zero_le _
  | some o => exact lot_le o

theorem stock_of_arrival (hfresh : b.card slot = none)
    (hcard : ∀ s, b'.card s = if s = slot then some o else b.card s) :
    b'.stock = b.stock + lot o :=
  total_of_arrival lot (fun _ => rfl) hfresh hcard

theorem stock_of_removal (ho : b.card slot = some o)
    (hcard : ∀ s, b'.card s = if s = slot then none else b.card s) :
    b'.stock + lot o = b.stock :=
  total_of_removal lot (fun _ => rfl) ho hcard

theorem stock_of_revision (ho : b.card slot = some o)
    (hcard : ∀ s, b'.card s = if s = slot then some o' else b.card s) :
    b'.stock + lot o = b.stock + lot o' :=
  total_of_revision lot (fun _ => rfl) ho hcard

/-- A trade takes no more from the stock than it matches. -/
theorem Matches.stock_le (hmatches : Matches side price b report b' report' events) :
    b.stock + report'.unmatched.toNat ≤ b'.stock + report.unmatched.toNat := by
  induction hmatches with
  | spent => exact Nat.le_refl _
  | exhausted => exact Nat.le_refl _
  | @part b b' report slot o _ ho _ hsize halters =>
    have hstock := stock_of_revision ho (halters.card_of ho)
    have hless := UInt32.toNat_sub_of_le _ _ (UInt32.le_of_lt hsize)
    unfold lot at hstock
    dsimp only at hstock ⊢
    rw [hless] at hstock
    rw [UInt32.toNat_zero]
    omega
  | @whole b b₁ b' report report' slot o key events more _ ho _ _ hsize hremoved _ _ ih =>
    have hstock := stock_of_removal ho hremoved.card_eq
    have hlot := lot_le_size o
    have hless := UInt32.toNat_sub_of_le _ _ hsize
    have hle := UInt32.le_iff_toNat_le.mp hsize
    dsimp only at ih
    omega

/-- An operation takes no more from the stock than it costs. -/
theorem Performs.stock_le (hperforms : b.Performs op result b') (h : b.WellFormed) :
    b.stock ≤ b'.stock + op.cost := by
  -- Whatever becomes of one order, no more than 16 of it counted.
  have hrevised : ∀ {slot : Slot} {o o' : Order}, b.card slot = some o →
      (∀ s, b'.card s = if s = slot then some o' else b.card s) → b.stock ≤ b'.stock + 16 := by
    intro slot o o' ho hcard
    have hstock := stock_of_revision ho hcard
    have hlot := lot_le o
    omega
  cases hperforms with
  | added _ hadded => exact (stock_of_arrival (card_nextKey h) hadded.card_eq) ▸ Nat.le_add_right ..
  | duplicate => exact Nat.le_refl _
  | @cancelled _ _ o _ _ _ _ ho hremoved =>
    have hstock := stock_of_removal ho hremoved.card_eq
    have hlot := lot_le o
    show _ ≤ _ + 16
    omega
  | unknown => exact Nat.le_add_right ..
  | modified hmodified =>
    show _ ≤ _ + 16
    cases hmodified with
    | added _ hadded =>
      have hstock := stock_of_arrival (card_nextKey h) hadded.card_eq
      omega
    | rejected => exact Nat.le_add_right ..
    | repriced _ ho _ _ _ hrepriced => exact hrevised ho hrepriced.card_eq
    | requeued _ ho _ _ _ halters => exact hrevised ho (halters.card_of ho)
    | resized _ ho _ _ _ halters => exact hrevised ho (halters.card_of ho)
  | traded htraded =>
    cases htraded with
    | missed => exact Nat.le_add_right ..
    | met _ hmatches =>
      have hstock := hmatches.stock_le
      dsimp only at hstock
      show _ ≤ _ + UInt32.toNat _
      omega

end Book

namespace Feed

variable {f f' : Feed} {b : Book} {m : Message} {n : Nat}

/-! ## What a message brings -/

/-- How much the message with a number adds to the stock, or how much it takes at most. -/
def gain (seq : Nat) : Int :=
  if 5 ≤ seq % 10 ∧ seq % 10 ≤ 8 then -16 else (min (1 + seq % 7 * 10) 16 : Nat)

/-- How much `n` messages add to the stock at least. -/
def growth : Nat → Int
  | 0 => 0
  | n + 1 => growth n + gain (n + 1)

theorem gain_add_period (seq : Nat) : gain (seq + 70) = gain seq := by
  have hten : (seq + 70) % 10 = seq % 10 := by omega
  have hseven : (seq + 70) % 7 = seq % 7 := by omega
  unfold gain
  rw [hten, hseven]

theorem growth_add_period (n : Nat) : growth (n + 70) = growth n + 104 := by
  induction n with
  | zero => rfl
  | succ n ih =>
    show growth (n + 70) + gain (n + 1 + 70) = growth n + gain (n + 1) + 104
    rw [ih, gain_add_period, Int.add_right_comm]

/-- Seventy messages after the other, the stock grows. -/
theorem le_growth (n : Nat) : 104 * (n / 70 : Nat) ≤ growth n + 16 := by
  have hfirst : ∀ k < 70, 0 ≤ growth k + 16 := by decide
  obtain hlt | hge := Nat.lt_or_ge n 70
  · rw [Nat.div_eq_of_lt hlt]
    exact hfirst n hlt
  · obtain ⟨k, rfl⟩ := Nat.exists_eq_add_of_le' hge
    have ih := le_growth k
    rw [growth_add_period]
    omega

theorem add_size (f : Feed) : f.add.1.size.toNat = 1 + f.seq.toNat % 7 * 10 := by
  have hturn : (f.seq % 7).toUInt32.toNat = f.seq.toNat % 7 := by
    simp only [UInt64.toNat_toUInt32, UInt64.toNat_mod, UInt64.reduceToNat]
    omega
  obtain ⟨seq, id, time, live⟩ := f
  show (1 + (seq % 7).toUInt32 * 10).toNat = _
  rw [UInt32.toNat_add, UInt32.toNat_mul, hturn]
  simp only [UInt32.reduceToNat]
  omega

theorem add_action (f : Feed) : f.add.1.action = .add := rfl

/-- Six of ten messages bring an order. -/
theorem next_eq_add (hturn : ¬ (5 ≤ (f.advance b).seq.toNat % 10 ∧
    (f.advance b).seq.toNat % 10 ≤ 8)) : f.next b = (f.advance b).add := by
  unfold next
  generalize f.advance b = f at hturn
  have hmod {k : UInt64} (h : f.seq % 10 = k) : f.seq.toNat % 10 = k.toNat := by
    rw [← h, UInt64.toNat_mod]
    rfl
  dsimp only
  split
  · rename_i heq
    exact absurd (hmod heq) (by simp only [UInt64.reduceToNat]; omega)
  · rename_i heq
    exact absurd (hmod heq) (by simp only [UInt64.reduceToNat]; omega)
  · rename_i heq
    exact absurd (hmod heq) (by simp only [UInt64.reduceToNat]; omega)
  · rename_i heq
    exact absurd (hmod heq) (by simp only [UInt64.reduceToNat]; omega)
  · rfl

theorem Sends.cost_le (hsends : f.Sends b m f') : m.operation.cost ≤ 16 := by
  cases hsends with
  | added => exact Nat.zero_le _
  | cancelled | modified => exact Nat.le_refl _
  | traded => exact show 15 ≤ 16 by decide

theorem Sends.time_eq (hsends : f.Sends b m f') : m.time = f.time ∧ f'.time = f.time := by
  cases hsends <;> exact ⟨rfl, rfl⟩

end Feed

namespace Replay

variable {r r' : Replay} {n k idle every : Nat}

/-! ## The stock after some messages -/

/-- What the next message brings, by its number. -/
theorem Tracks.stock_le (h : r.Tracks n idle) (hcount : n + 1 < 2 ^ 64)
    (hroom : n + 2 < 2 ^ 64 + idle) (hone : r.feedOne n = .ok r') :
    (r.session.book.stock : Int) + Feed.gain (n + 1) ≤ r'.session.book.stock := by
  obtain ⟨step, hstep, hsession, -⟩ := exists_of_feedOne hone
  have hready := h.ready hcount
  have hperforms := ((Session.process_performs h.wellFormed r.message).sound _ hstep).2
  have hsuits := (h.process hcount hroom hstep).1
  have hcost : r.message.operation.cost ≤ 16 :=
    (Feed.next_sends r.feed r.session.book).cost_le
  have hseq := hready.seq_eq
  rw [hsession]
  unfold Feed.gain
  split
  · have hstock := hperforms.stock_le h.wellFormed
    omega
  · rename_i hturn
    have hnext := Feed.next_eq_add (f := r.feed) (b := r.session.book) (by rwa [hseq])
    have hmessage : r.message = (r.feed.advance r.session.book).add.1 := congrArg Prod.fst hnext
    have haction : r.message.action = .add := hmessage ▸ Feed.add_action _
    have hsize : r.message.size.toNat = 1 + (n + 1) % 7 * 10 := by
      rw [hmessage, Feed.add_size, hseq]
    have hop : r.message.operation = .add r.message.id r.message.price r.message.size
        r.message.side r.message.time := by
      rw [Message.operation, haction]
    rw [hop] at hperforms
    generalize step.result = result at hperforms hsuits
    generalize step.state.book = book at hperforms
    cases hperforms with
    | duplicate => cases hsuits
    | added _ hadded =>
      have hstock := Book.stock_of_arrival (Book.card_nextKey h.wellFormed) hadded.card_eq
      rw [Book.lot, hsize] at hstock
      omega

theorem book_ite (c : Prop) [Decidable c] (r : Replay) :
    (if c then r.observe else r).session.book = r.session.book :=
  congrArg (fun course => course.1.book) (course_ite c r)

/-- What some messages bring, by their numbers. -/
theorem Tracks.stock_run (h : r.Tracks n idle) (hcount : n + k < 2 ^ 64)
    (hroom : n + k + 1 < 2 ^ 64 + idle) (hrun : Replay.run every k n r = .ok r') :
    (r.session.book.stock : Int) + Feed.growth (n + k) ≤ r'.session.book.stock + Feed.growth n := by
  induction k generalizing n r with
  | zero =>
    cases hrun
    exact Int.le_refl _
  | succ k ih =>
    obtain ⟨r₁, hone, hrun⟩ := exists_of_run_succ hrun
    have hstock := h.stock_le (by omega) (by omega) hone
    have hgrowth : Feed.growth (n + 1) = Feed.growth n + Feed.gain (n + 1) := rfl
    rcases h.feedOne (by omega) (by omega) n with ⟨r₂, hone', h₁⟩ | ⟨⟨fault, hfault⟩, -⟩
    · obtain rfl : r₂ = r₁ := Except.ok.inj (hone'.symm.trans hone)
      have hrest := ih (h₁.ite_observe _) (by omega) (by omega) hrun
      rw [book_ite, Nat.add_right_comm] at hrest
      rw [← Nat.add_assoc]
      omega
    · rw [hone] at hfault
      cases hfault

/-- A replay of `2 ^ 52` messages or more holds `2 ^ 48` orders or more. -/
theorem le_size_of_run {config : Config} {logFile : File} (hlong : 2 ^ 52 ≤ n)
    (hcount : n + 1 < 2 ^ 64) (hrun : run every n 0 (start config logFile) = .ok r) :
    2 ^ 48 ≤ r.session.book.index.size := by
  have hstart := tracks_start config logFile none
  have hgrowth := Feed.le_growth n
  have hstock := hstart.stock_run (by omega) (by omega) hrun
  have hzero : Feed.growth 0 = 0 := rfl
  rw [Nat.zero_add, hzero] at hstock
  rcases hstart.run every (k := n) (by omega) (by omega) with ⟨r₁, hrun', h⟩ | ⟨fault, hfault, -⟩
  · obtain rfl : r₁ = r := Except.ok.inj (hrun'.symm.trans hrun)
    have hle := h.wellFormed.stock_le
    omega
  · rw [hrun] at hfault
    cases hfault

/-! ## The clock -/

/-- How far the clock moves with `n` messages. -/
def elapsed : Nat → Nat
  | 0 => 0
  | n + 1 => elapsed n + 1000 + (n + 1) % 13 * 100

theorem elapsed_le (n : Nat) : elapsed n ≤ 2200 * n := by
  induction n with
  | zero => exact Nat.le_refl _
  | succ n ih =>
    unfold elapsed
    omega

theorem elapsed_mono (h : n ≤ k) : elapsed n ≤ elapsed k := by
  induction h with
  | refl => exact Nat.le_refl _
  | @step k _ ih =>
    show elapsed n ≤ elapsed k + 1000 + (k + 1) % 13 * 100
    omega

/-- What the clocks show after `n` messages. -/
structure Clocked (r : Replay) (n : Nat) : Prop where
  seq_eq : r.feed.seq.toNat = n
  time_eq : r.feed.time = startTime + UInt64.ofNat (elapsed n)
  /-- The clock of the book is that of the feed. -/
  clock_eq : 0 < n → r.session.clock = r.feed.time

theorem clocked_start (config : Config) (logFile : File) : (start config logFile).Clocked 0 where
  seq_eq := rfl
  time_eq := rfl
  clock_eq := nofun

theorem Clocked.ite_observe (h : r.Clocked n) (c : Prop) [Decidable c] :
    (if c then r.observe else r).Clocked n := by
  have hcourse := course_ite c r
  have hfeed : (if c then r.observe else r).feed = r.feed := congrArg Prod.snd hcourse
  have hclock : (if c then r.observe else r).session.clock = r.session.clock :=
    congrArg (fun course => course.1.clock) hcourse
  constructor
  · rw [hfeed]
    exact h.seq_eq
  · rw [hfeed]
    exact h.time_eq
  · rw [hfeed, hclock]
    exact h.clock_eq

/-- How a message moves the clocks. -/
theorem Clocked.feedOne (h : r.Clocked n) (hcount : n + 1 < 2 ^ 64)
    (hone : r.feedOne n = .ok r') : r'.Clocked (n + 1) := by
  obtain ⟨step, hstep, hsession, hfeed, -⟩ := exists_of_feedOne hone
  have hsends := Feed.next_sends r.feed r.session.book
  obtain ⟨hmessage, htime⟩ := hsends.time_eq
  have hseq : (r.feed.seq + 1).toNat = n + 1 := by
    rw [UInt64.toNat_add, h.seq_eq, UInt64.toNat_one, Nat.mod_eq_of_lt hcount]
  have hclock : step.state.clock = r.message.time :=
    (Session.process_keeps (fun s => s.clock = r.message.time) r.message fun _ => rfl).sound _ hstep
  have hmoved : (r.feed.advance r.session.book).time =
      r.feed.time + 1000 + (r.feed.seq + 1) % 13 * 100 := rfl
  have hturn : (r.feed.seq + 1) % 13 * 100 = UInt64.ofNat ((n + 1) % 13 * 100) := by
    rw [← UInt64.toNat_inj, UInt64.toNat_mul, UInt64.toNat_mod, hseq, UInt64.toNat_ofNat']
    rfl
  refine ⟨?_, ?_, ?_⟩
  · rw [hfeed, hsends.seq_eq]
    exact hseq
  · rw [hfeed, htime, hmoved, h.time_eq, hturn, elapsed, UInt64.ofNat_add, UInt64.ofNat_add,
      UInt64.add_assoc, UInt64.add_assoc, UInt64.add_assoc]
    rfl
  · intro _
    rw [hsession, hclock, hfeed, htime]
    exact hmessage

theorem Clocked.run (h : r.Clocked n) (hcount : n + k < 2 ^ 64)
    (hrun : Replay.run every k n r = .ok r') : r'.Clocked (n + k) := by
  induction k generalizing n r with
  | zero =>
    cases hrun
    exact h
  | succ k ih =>
    obtain ⟨r₁, hone, hrun⟩ := exists_of_run_succ hrun
    rw [Nat.add_comm k, ← Nat.add_assoc]
    exact ih ((h.feedOne (by omega) hone).ite_observe _) (by omega) hrun

/-- Before `2 ^ 52` messages, the clock does not come to the end of its word. -/
theorem Clocked.toNat_clock (h : r.Clocked n) (hpos : 0 < n) (hfew : n < 2 ^ 52) :
    r.session.clock.toNat = startTime.toNat + elapsed n := by
  have hle := elapsed_le n
  have hstart : startTime.toNat = 1700000000000000000 := rfl
  have hofNat : (UInt64.ofNat (elapsed n)).toNat = elapsed n :=
    UInt64.toNat_ofNat_of_lt' (by
      show elapsed n < 2 ^ 64
      omega)
  rw [h.clock_eq hpos, h.time_eq, UInt64.toNat_add, hofNat, hstart, Nat.mod_eq_of_lt (by omega)]

end Replay

end PriceTime
