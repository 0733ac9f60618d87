import PriceTime.Proofs.Replay
import PriceTime.Proofs.Replay.Spread

/-!
# The feed and the book in a closed loop

In a replay the feed reads the book, and the book gets what the feed sends. From a fresh book on no
message is ever rejected. A replay could only stop because the book ran out of room, with `2 ^ 32`
orders or more in one of its queues, and it takes more than `2 ^ 38` messages until then.

* `Replay.Tracks.feedOne`: what one message preserves.
* `Replay.Tracks.run`: what a whole replay preserves.
* `Replay.run_sound`: along every replay all messages suit the book.
-/

namespace PriceTime

/-- So many orders wait at some price of a side that the word of the level does not count them. -/
def Book.Overfull (b : Book) : Prop :=
  ∃ side price, 2 ^ 32 ≤ (b.idsAt side price).length

theorem Book.length_idsAt (b : Book) (side : Side) (price : Int32) :
    (b.idsAt side price).length = (b.slotsAt side price).length := by
  unfold idsAt slotsAt
  cases b.level? side price with
  | none => rfl
  | some level => rw [List.length_map, List.length_map]

namespace Replay

variable {r r' : Replay} {n seq idle every : Nat} {step : Step Session Applied}
  {error : ReplayError}

/-- What holds of a replay after `n` messages, of which at least `idle` brought no new id. -/
structure Tracks (r : Replay) (n idle : Nat) : Prop where
  wellFormed : r.session.book.WellFormed
  remembers : r.feed.Remembers r.session.book n
  seq_eq : r.feed.seq.toNat = n
  nextId_le : r.feed.nextId.toNat + idle ≤ n + 1
  size_le : r.session.book.index.size ≤ n
  length_le : ∀ side price, (r.session.book.slotsAt side price).length ≤ Feed.quota n side price
  rejected_eq : r.rejected = 0

theorem tracks_start (config : Config) (logFile : File) (sink : Option LineSink) :
    (start config logFile sink).Tracks 0 0 where
  wellFormed := Book.WellFormed.empty
  remembers := Feed.remembers_empty startTime
  seq_eq := rfl
  nextId_le := Nat.le_refl 1
  size_le := Nat.le_of_eq Std.ExtTreeMap.size_empty
  length_le side price := by
    cases side <;> exact Nat.zero_le _
  rejected_eq := rfl

theorem Tracks.of_course (h : r.Tracks n idle) (hcourse : r'.course = r.course)
    (hrejected : r'.rejected = r.rejected) : r'.Tracks n idle := by
  have hbook : r'.session.book = r.session.book := congrArg (fun c => c.1.book) hcourse
  have hfeed : r'.feed = r.feed := congrArg Prod.snd hcourse
  constructor
  · exact hbook ▸ h.wellFormed
  · exact hbook ▸ hfeed ▸ h.remembers
  · exact hfeed ▸ h.seq_eq
  · exact hfeed ▸ h.nextId_le
  · exact hbook ▸ h.size_le
  · exact hbook ▸ h.length_le
  · exact hrejected.trans h.rejected_eq

theorem Tracks.observe (h : r.Tracks n idle) : r.observe.Tracks n idle :=
  h.of_course (observe_course r) rfl

/-! ## One message -/

/-- The message that is sent next, whatever it does: its size, and how it suits the book. -/
structure SendsWell (r : Replay) : Prop where
  size_pos : 0 < r.message.size
  size_le : r.message.size ≤ 66
  suits : ∀ {step}, r.session.process r.message = .ok step →
    r.message.Suits r.session.book step.result

theorem Tracks.ready (h : r.Tracks n idle) (hcount : n + 1 < 2 ^ 64) :
    (r.feed.advance r.session.book).Ready r.session.book n :=
  h.remembers.ready h.wellFormed h.seq_eq hcount

/-- What becomes of the feed and the book with the next message. -/
theorem Tracks.process (h : r.Tracks n idle) (hcount : n + 1 < 2 ^ 64)
    (hroom : n + 2 < 2 ^ 64 + idle) (hstep : r.session.process r.message = .ok step) :
    r.message.Suits r.session.book step.result ∧
      ∀ strategy logger, (Replay.mk step.state (r.feed.next r.session.book).2 strategy logger
        r.rejected).Tracks (n + 1) idle := by
  have hready := h.ready hcount
  have hsends := Feed.next_sends r.feed r.session.book
  have hnext : (r.feed.advance r.session.book).nextId.toNat + 1 < 2 ^ 64 := by
    have := h.nextId_le
    show r.feed.nextId.toNat + 1 < 2 ^ 64
    omega
  obtain ⟨hbook, hperforms⟩ := (Session.process_performs h.wellFormed r.message).sound _ hstep
  obtain ⟨hsuits, hremembers⟩ := hready.step h.wellFormed hnext hsends hperforms
  refine ⟨hsuits, fun strategy logger => ⟨hbook, hremembers, ?_, ?_, ?_, ?_, h.rejected_eq⟩⟩
  · exact hsends.seq_eq ▸ hready.seq_eq
  · have := h.nextId_le
    have hsame : (r.feed.advance r.session.book).nextId = r.feed.nextId := rfl
    dsimp only
    rcases hsends.nextId_eq with heq | heq
    · rw [heq, hsame]
      omega
    · rw [heq, UInt64.toNat_add, UInt64.toNat_one, Nat.mod_eq_of_lt hnext, hsame]
      omega
  · have hfollows := (Session.process_follows h.wellFormed r.message).sound _ hstep
    exact hfollows.size_le.trans (Nat.succ_le_succ h.size_le)
  · intro side price
    exact hready.length_slotsAt_le h.wellFormed hsends hsuits hperforms (h.length_le side price)

theorem Tracks.sendsWell (h : r.Tracks n idle) (hcount : n + 1 < 2 ^ 64)
    (hroom : n + 2 < 2 ^ 64 + idle) : r.SendsWell := by
  obtain ⟨hpos, hle⟩ := (h.ready hcount).size_sent (Feed.next_sends r.feed r.session.book)
  exact ⟨hpos, hle, fun hstep => (h.process hcount hroom hstep).1⟩

theorem feedOne_of_error {fault : Fault} (hprocess : r.session.process r.message = .error fault)
    (seq : Nat) : r.feedOne seq = .error (.fault fault) := by
  obtain ⟨session, feed, strategy, logger, rejected⟩ := r
  unfold message at hprocess
  dsimp only at hprocess
  simp only [feedOne, hprocess]

theorem feedOne_of_ok {applied : Applied} (hprocess : r.session.process r.message = .ok step)
    (hresult : step.result = .ok applied) (seq : Nat) :
    ∃ strategy, r.feedOne seq =
      .ok ⟨step.state, (r.feed.next r.session.book).2, strategy, r.logger, r.rejected⟩ := by
  obtain ⟨session, feed, strategy, logger, rejected⟩ := r
  unfold message at hprocess
  dsimp only at hprocess
  simp only [feedOne, hprocess, hresult]
  cases applied <;> exact ⟨_, rfl⟩

/-- Unless a queue is overfull, the book has room. -/
theorem Tracks.hasRoom (h : r.Tracks n idle) (hcount : n < 2 ^ 64)
    (hfits : ¬ r.session.book.Overfull) : r.session.book.HasRoom where
  size_lt := by
    rw [← h.wellFormed.size_index]
    exact h.size_le.trans_lt hcount
  length_lt side price := by
    rw [← Book.length_idsAt]
    exact Nat.lt_of_not_le fun hfull => hfits ⟨side, price, hfull⟩

/-- It takes more than `2 ^ 38` messages until a queue is overfull. -/
theorem Tracks.not_overfull (h : r.Tracks n idle) (hfew : n ≤ 2 ^ 38) :
    ¬ r.session.book.Overfull := by
  rintro ⟨side, price, hfull⟩
  rw [Book.length_idsAt] at hfull
  have := h.length_le side price
  have := Feed.quota_le n side price
  omega

/-- One message is accepted, unless the book is out of room. -/
theorem Tracks.feedOne (h : r.Tracks n idle) (hcount : n + 1 < 2 ^ 64)
    (hroom : n + 2 < 2 ^ 64 + idle) (seq : Nat) :
    (∃ r', r.feedOne seq = .ok r' ∧ r'.Tracks (n + 1) idle) ∨
      (∃ fault, r.feedOne seq = .error (.fault fault)) ∧ r.session.book.Overfull := by
  cases hprocess : r.session.process r.message with
  | error fault =>
    refine .inr ⟨⟨fault, feedOne_of_error hprocess seq⟩, ?_⟩
    by_contra hfits
    obtain ⟨step, hstep⟩ := (Session.process_performs h.wellFormed r.message).answers
      (h.hasRoom (by omega) hfits)
    rw [hprocess] at hstep
    cases hstep
  | ok step =>
    obtain ⟨hsuits, htracks⟩ := h.process hcount hroom hprocess
    obtain ⟨applied, hresult⟩ : ∃ applied, step.result = .ok applied := by
      generalize step.result = result at hsuits
      cases hsuits <;> exact ⟨_, rfl⟩
    obtain ⟨strategy, hone⟩ := feedOne_of_ok hprocess hresult seq
    exact .inl ⟨_, hone, htracks strategy r.logger⟩

/-! ## A whole replay -/

theorem Tracks.ite_observe (h : r.Tracks n idle) (c : Prop) [Decidable c] :
    (if c then r.observe else r).Tracks n idle := by
  split
  · exact h.observe
  · exact h

/-- All messages are accepted, until the book may be out of room. -/
theorem Tracks.run {k : Nat} (h : r.Tracks n idle) (every : Nat) (hcount : n + k < 2 ^ 64)
    (hroom : n + k + 1 < 2 ^ 64 + idle) :
    (∃ r', run every k n r = .ok r' ∧ r'.Tracks (n + k) idle) ∨
      ∃ fault, run every k n r = .error (.fault fault) ∧
        ∃ j r', j < k ∧ run every j n r = .ok r' ∧ r'.session.book.Overfull := by
  induction k generalizing n r with
  | zero => exact .inl ⟨r, rfl, h⟩
  | succ k ih =>
    rcases h.feedOne (by omega) (by omega) n with ⟨r₁, hone, h₁⟩ | ⟨⟨fault, hone⟩, hfull⟩
    · have hrun (k : Nat) : Replay.run every (k + 1) n r =
          Replay.run every k (n + 1) (if (n + 1) % every = 0 then r₁.observe else r₁) := by
        rw [Replay.run, hone]
      rcases ih (h₁.ite_observe ((n + 1) % every = 0)) (by omega) (by omega) with
        ⟨r', hr', h'⟩ | ⟨fault, hfault, j, r', hj, hr', hfull⟩
      · exact .inl ⟨r', (hrun k).trans hr', Nat.add_right_comm n 1 k ▸ h'⟩
      · exact .inr ⟨fault, (hrun k).trans hfault, j + 1, r', Nat.succ_lt_succ hj,
          (hrun j).trans hr', hfull⟩
    · refine .inr ⟨fault, ?_, 0, r, Nat.succ_pos k, rfl, hfull⟩
      rw [Replay.run, hone]

theorem run_add (h : run every n seq r = .ok r') (k : Nat) :
    run every (n + k) seq r = run every k (seq + n) r' := by
  induction n generalizing seq r with
  | zero =>
    cases h
    rw [Nat.zero_add, Nat.add_zero]
  | succ n ih =>
    rw [Nat.add_right_comm, run]
    rw [run] at h
    split at h
    · cases h
    · rw [ih h, Nat.add_assoc, Nat.add_comm 1 n]

theorem run_add_error (h : run every n seq r = .error error) (k : Nat) :
    run every (n + k) seq r = .error error := by
  induction n generalizing seq r with
  | zero => cases h
  | succ n ih =>
    rw [Nat.add_right_comm, run]
    rw [run] at h
    split at h
    · exact h
    · exact ih h

theorem run_succ (h : r.feedOne seq = .ok r') (n : Nat) :
    run every (n + 1) seq r =
      run every n (seq + 1) (if (seq + 1) % every = 0 then r'.observe else r') := by
  rw [run, h]

theorem exists_of_run_succ (h : run every (n + 1) seq r = .ok r') :
    ∃ r₁, r.feedOne seq = .ok r₁ ∧
      run every n (seq + 1) (if (seq + 1) % every = 0 then r₁.observe else r₁) = .ok r' := by
  cases hone : r.feedOne seq with
  | error error =>
    rw [run, hone] at h
    cases h
  | ok r₁ => exact ⟨r₁, rfl, (run_succ hone n).symm.trans h⟩

/-- A replay that goes through has gone through its first part. -/
theorem exists_of_run_add {k : Nat} (h : run every (n + k) seq r = .ok r') :
    ∃ r₁, run every n seq r = .ok r₁ ∧ run every k (seq + n) r₁ = .ok r' := by
  cases hfirst : run every n seq r with
  | error error =>
    rw [run_add_error hfirst] at h
    cases h
  | ok r₁ => exact ⟨r₁, rfl, (run_add hfirst k).symm.trans h⟩

/-- The seventh message modifies an order, so it brings no new id. -/
theorem nextId_of_seven {config : Config} {logFile : File} {sink : Option LineSink}
    (h : run every 7 0 (start config logFile sink) = .ok r) : r.feed.nextId = 7 := by
  have hplain : (run 0 7 0 (start {} {})).map (fun r => r.feed.nextId) = .ok 7 := by
    decide +kernel
  obtain ⟨plain, hrun, hcourse⟩ :=
    exists_run_of_course (start_course config {} logFile {} sink none) h 0
  rw [hrun] at hplain
  have hfeed : plain.feed = r.feed := congrArg Prod.snd hcourse
  rw [← hfeed]
  exact Except.ok.inj hplain

/-- A replay of `n` messages accepts them all, until the book may be out of room. -/
theorem run_tracks (config : Config) (logFile : File) (sink : Option LineSink) (every : Nat)
    (hn : n < 2 ^ 64) :
    (∃ r idle, run every n 0 (start config logFile sink) = .ok r ∧ r.Tracks n idle ∧
      (n ≤ 7 ∨ idle = 1)) ∨
    ∃ fault, run every n 0 (start config logFile sink) = .error (.fault fault) ∧
      ∃ j r, j < n ∧ run every j 0 (start config logFile sink) = .ok r ∧
        r.session.book.Overfull := by
  have hstart := tracks_start config logFile sink
  by_cases hfew : n ≤ 7
  · have hrun := hstart.run every (k := n) (by omega) (by omega)
    rw [Nat.zero_add] at hrun
    rcases hrun with ⟨r, hr, h⟩ | hfault
    · exact .inl ⟨r, 0, hr, h, .inl hfew⟩
    · exact .inr hfault
  obtain ⟨k, rfl⟩ := Nat.exists_eq_add_of_le (Nat.le_of_not_le hfew)
  rcases hstart.run every (k := 7) (by omega) (by omega) with ⟨r₇, hr₇, h₇⟩ |
    ⟨fault, hfault, j, r, hj, hr, hfull⟩
  · have hslack : r₇.Tracks 7 1 :=
      { h₇ with nextId_le := by rw [nextId_of_seven hr₇]; decide }
    have hadd (k : Nat) := run_add hr₇ k
    rcases hslack.run every (k := k) (by omega) (by omega) with ⟨r, hr, h⟩ |
      ⟨fault, hfault, j, r, hj, hr, hfull⟩
    · exact .inl ⟨r, 1, (hadd k).trans hr, h, .inr rfl⟩
    · exact .inr ⟨fault, (hadd k).trans hfault, 7 + j, r, by omega, (hadd j).trans hr, hfull⟩
  · exact .inr ⟨fault, run_add_error hfault k, j, r, by omega, hr, hfull⟩

/-- The first `2 ^ 38` messages go through. -/
theorem exists_run (config : Config) (logFile : File) (sink : Option LineSink) (every : Nat)
    (hfew : n ≤ 2 ^ 38) :
    ∃ r, run every n 0 (start config logFile sink) = .ok r := by
  rcases run_tracks config logFile sink every (n := n) (by omega) with
    ⟨r, idle, hr, -⟩ | ⟨fault, -, j, r, hj, hr, hfull⟩
  · exact ⟨r, hr⟩
  · rcases run_tracks config logFile sink every (n := j) (by omega) with
      ⟨r', idle, hr', h, -⟩ | ⟨fault', hfault', -⟩
    · obtain rfl : r' = r := Except.ok.inj (hr'.symm.trans hr)
      exact absurd hfull (h.not_overfull (by omega))
    · rw [hr] at hfault'
      cases hfault'

/-- A replay whose feed knows what rests: no message was rejected so far, and every order that rests
has a size and an id that was given out, and is remembered with its side and its price. -/
structure Sound (r : Replay) : Prop where
  rejected_eq : r.rejected = 0
  remembered : ∀ {id o}, r.session.book.get? id = some o → id < r.feed.nextId ∧ 0 < o.size ∧
    ∃ l ∈ r.feed.live.toList, l.id = id ∧ l.side = o.side ∧ l.price = o.price

theorem Tracks.sound (h : r.Tracks n idle) : r.Sound := by
  refine ⟨h.rejected_eq, ?_⟩
  intro id o hget
  obtain ⟨slot, hslot, ho⟩ := Option.bind_eq_some_iff.mp hget
  have hcard : r.session.book.card slot = some o.bare := congrArg (Option.map Order.bare) ho
  have hid : o.id = id := h.wellFormed.id_eq (o := o.bare) hslot hcard
  obtain ⟨l, hl, hlid, hplace⟩ := h.remembers.recalled hcard
  have hlid : l.id = id := hlid.trans hid
  exact ⟨hlid ▸ h.remembers.id_lt l hl, h.remembers.size_pos (o := o.bare) hcard, l, hl, hlid, hplace⟩

/-- For every number of messages, all settings and any sink, a replay goes through sound states only,
and what it sends suits the book: no message is rejected, cancels and modifies name orders that rest,
modifies keep the side and the price, trades take something, and no size is zero or exceeds 66. It
stops only if the book breaks its promises, after it held `2 ^ 32` orders in one queue; so the first
`2 ^ 38` messages go through, and no message ever shows that the book is corrupted. -/
theorem run_sound (config : Config) (logFile : File) (sink : Option LineSink) (messages : UInt64) :
    (∀ every n, n ≤ messages.toNat →
      (∀ r, run every n 0 (start config logFile sink) = .ok r →
        r.Sound ∧ (n < messages.toNat → r.SendsWell)) ∧
      (∀ error, run every n 0 (start config logFile sink) = .error error →
        (∃ fault, error = .fault fault) ∧
          ∃ j r, j < n ∧ run every j 0 (start config logFile sink) = .ok r ∧
            r.session.book.Overfull) ∧
      (n ≤ 2 ^ 38 → ∃ r, run every n 0 (start config logFile sink) = .ok r)) ∧
    ∀ every seq error,
      finish config logFile messages every sink ≠ .error (.corrupted seq error) := by
  have hmessages := messages.toNat_lt
  refine ⟨?_, ?_⟩
  · intro every n hn
    refine ⟨?_, ?_, ?_⟩
    · intro r hr
      rcases run_tracks config logFile sink every (n := n) (by omega) with
        ⟨r', idle, hr', h, hidle⟩ | ⟨fault, hfault, -⟩
      · obtain rfl : r' = r := Except.ok.inj (hr'.symm.trans hr)
        exact ⟨h.sound, fun hnext => h.sendsWell (by omega) (by omega)⟩
      · rw [hr] at hfault
        cases hfault
    · intro error herror
      rcases run_tracks config logFile sink every (n := n) (by omega) with
        ⟨r', idle, hr', -⟩ | ⟨fault, hfault, hfull⟩
      · rw [herror] at hr'
        cases hr'
      · exact ⟨⟨fault, Except.error.inj (herror.symm.trans hfault)⟩, hfull⟩
    · exact exists_run config logFile sink every
  · intro every seq error hfinish
    unfold finish at hfinish
    rcases run_tracks config logFile sink (max every.toNat 1) hmessages with
      ⟨r, idle, hr, -⟩ | ⟨fault, hfault, -⟩
    · obtain ⟨session, feed, strategy, logger, rejected⟩ := r
      simp only [hr, bind, Except.bind] at hfinish
      split at hfinish <;> cases hfinish
    · rw [hfault] at hfinish
      cases hfinish

/-- The first trade, which is the eighth message; and what a million messages lead to. -/
theorem run_sound_first_trade :
    ∃ r step late, run 3 7 0 (start {} {}) = .ok r ∧ r.Sound ∧ r.message.action = .trade ∧
      r.session.process r.message = .ok step ∧ r.message.Suits r.session.book step.result ∧
      run 3 1000000 0 (start {} {}) = .ok late ∧ late.Sound := by
  obtain ⟨hall, -⟩ := run_sound {} {} none 1000000
  obtain ⟨hsound, -, hgoes⟩ := hall 3 7 (by decide)
  obtain ⟨hlate, -, hgoesLate⟩ := hall 3 1000000 (by decide)
  obtain ⟨r, hr⟩ := hgoes (by decide)
  obtain ⟨late, hrLate⟩ := hgoesLate (by decide)
  obtain ⟨hr', hwell⟩ := hsound r hr
  have heval : (run 3 7 0 (start {} {})).map (fun r =>
      (r.message.action, (r.session.process r.message).isOk)) = .ok (.trade, true) := by
    decide +kernel
  rw [hr] at heval
  obtain ⟨haction, hok⟩ := Prod.mk.inj (Except.ok.inj heval)
  cases hstep : r.session.process r.message with
  | error fault =>
    rw [hstep] at hok
    cases hok
  | ok step =>
    exact ⟨r, step, late, hr, hr', haction, hstep, (hwell (by decide)).suits hstep, hrLate,
      (hlate late hrLate).1⟩

end Replay

end PriceTime
