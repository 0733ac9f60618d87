import PriceTime.Proofs.ClosedLoop
import PriceTime.Proofs.Ledger
import PriceTime.Proofs.Surroundings

/-!
# The trades of a replay

A replay counts the resting orders that its trades fill. Every order that is filled was in the book
before, and a message brings at most one order. So the count never exceeds the number of messages,
and it is the sum of what the trades report, in whole numbers as well as in words.

The messages that a replay sends can be given to its session without the replay: they lead to the
same market, and the same trades are reported.

* `Replay.exists_of_feedOne`: what a message does to a replay, if it goes through.
* `Replay.Counts.feedOne`: what one message does to the count.
* `Replay.Counts.run`: the count after any messages.
* `Replay.exists_run_sent`: the session on its own, with the messages that are sent.
-/

namespace PriceTime

/-- The report of a trade, if a message is answered with one. -/
def Answer.report? : Answer → Option TradeReport
  | .processed (.ok (.traded report)) => some report
  | _ => none

/-- The reports of the trades in a log. -/
def reportsIn (log : List (Answer × List Event)) : List TradeReport :=
  log.filterMap fun reply => reply.1.report?

/-- What a trade leaves: the orders it reports to have filled are gone. -/
theorem Session.size_of_trade {s : Session} {m : Message} {step : Step Session Applied}
    {report : TradeReport} (h : s.book.WellFormed) (hstep : s.process m = .ok step)
    (hreport : step.result = .ok (.traded report)) :
    step.state.book.index.size + report.filled.toNat ≤ s.book.index.size := by
  have h' := ((process_follows h m).sound _ hstep).wellFormed
  have hposts := (process_posts h m).sound _ hstep
  rw [hreport] at hposts
  obtain ⟨orders, hfilled, hheld⟩ := hposts
  have hle : report.filled.toNat ≤ orders := by
    rw [hfilled, UInt32.toNat_ofNat']
    exact Nat.mod_le _ _
  have hbids := (hheld .bid).1
  have hasks := (hheld .ask).1
  rw [h.size_index, h'.size_index, h.size_orders, h'.size_orders]
  cases hside : m.side.opposite
  · rw [hside, if_pos rfl] at hbids
    rw [hside, if_neg nofun] at hasks
    omega
  · rw [hside, if_neg nofun] at hbids
    rw [hside, if_pos rfl] at hasks
    omega

namespace Replay

variable {r r' : Replay} {n k seq every : Nat}

/-- The report of the next message, if it trades. -/
def report? (r : Replay) : Option TradeReport :=
  match r.session.process r.message with
  | .ok { result := .ok (.traded report), .. } => some report
  | _ => none

/-- The reports of the trades in a replay of `n` messages. -/
def trades (every : Nat) : (n seq : Nat) → Replay → List TradeReport
  | 0, _, _ => []
  | n + 1, seq, r =>
    r.report?.toList ++
      match r.feedOne seq with
      | .error _ => []
      | .ok r => trades every n (seq + 1) (if (seq + 1) % every = 0 then r.observe else r)

/-- How many orders were filled, as some reports of trades say. -/
def filledIn (reports : List TradeReport) : Nat :=
  (reports.map fun report => report.filled.toNat).sum

/-! ## One message -/

/-- What a message does to a replay, if it goes through. -/
theorem exists_of_feedOne (h : r.feedOne seq = .ok r') :
    ∃ step, r.session.process r.message = .ok step ∧ r'.session = step.state ∧
      r'.feed = (r.feed.next r.session.book).2 ∧ r'.logger = r.logger ∧
      r'.strategy = r.report?.elim r.strategy fun report => r.strategy.noteFilled report.filled := by
  obtain ⟨session, feed, strategy, logger, rejected⟩ := r
  unfold report? message
  unfold feedOne at h
  dsimp only at h ⊢
  cases hprocess : session.process (feed.next session.book).1 with
  | error fault =>
    rw [hprocess] at h
    cases h
  | ok step =>
    obtain ⟨result, state, events⟩ := step
    rw [hprocess] at h
    dsimp only at h ⊢
    cases result with
    | error error =>
      dsimp only at h
      split at h
      · cases h
      · cases h
        exact ⟨_, rfl, rfl, rfl, rfl, rfl⟩
    | ok applied =>
      cases applied <;> cases h <;> exact ⟨_, rfl, rfl, rfl, rfl, rfl⟩

theorem exists_of_report? {report : TradeReport} (h : r.report? = some report) :
    ∃ step, r.session.process r.message = .ok step ∧ step.result = .ok (.traded report) := by
  unfold report? at h
  split at h
  · rename_i heq
    cases h
    exact ⟨_, heq, rfl⟩
  · cases h

theorem report?_eq {step : Step Session Applied} (h : r.session.process r.message = .ok step) :
    r.report? = (Answer.processed step.result).report? := by
  obtain ⟨result, state, events⟩ := step
  unfold report?
  rw [h]
  rcases result with error | applied
  · rfl
  · cases applied <;> rfl

/-- What holds of the count after `n` messages, when `filled` orders were filled. -/
structure Counts (r : Replay) (n filled : Nat) : Prop where
  wellFormed : r.session.book.WellFormed
  trades_eq : r.strategy.trades.toNat = filled
  /-- The orders that were filled and those that rest came with different messages. -/
  filled_le : filled + r.session.book.index.size ≤ n

theorem counts_start (config : Config) (logFile : File) : (start config logFile).Counts 0 0 where
  wellFormed := Book.WellFormed.empty
  trades_eq := rfl
  filled_le := (Nat.le_of_eq (Nat.zero_add _)).trans (tracks_start config logFile none).size_le

theorem observe_trades (r : Replay) : r.observe.strategy.trades = r.strategy.trades := rfl

theorem Counts.observe {filled : Nat} (h : r.Counts n filled) : r.observe.Counts n filled := by
  have hbook : r.observe.session.book = r.session.book :=
    congrArg (fun c => c.1.book) (observe_course r)
  refine ⟨?_, ?_, ?_⟩
  · rw [hbook]
    exact h.wellFormed
  · rw [observe_trades]
    exact h.trades_eq
  · rw [hbook]
    exact h.filled_le

theorem Counts.ite_observe {filled : Nat} (h : r.Counts n filled) (c : Prop) [Decidable c] :
    (if c then r.observe else r).Counts n filled := by
  split
  · exact h.observe
  · exact h

theorem Counts.feedOne {filled : Nat} (h : r.Counts n filled) (hcount : n + 1 < 2 ^ 64)
    (hone : r.feedOne seq = .ok r') :
    r'.Counts (n + 1) (filled + filledIn r.report?.toList) := by
  obtain ⟨step, hstep, hsession, -, -, hstrategy⟩ := exists_of_feedOne hone
  have hfollows := (Session.process_follows h.wellFormed r.message).sound _ hstep
  have hle := h.filled_le
  cases hreport : r.report? with
  | none =>
    rw [hreport] at hstrategy
    refine ⟨hsession ▸ hfollows.wellFormed, hstrategy ▸ h.trades_eq, ?_⟩
    rw [hsession]
    show filled + 0 + _ ≤ _
    have := hfollows.size_le
    omega
  | some report =>
    obtain ⟨step', hstep', htraded⟩ := exists_of_report? hreport
    obtain rfl : step' = step := Except.ok.inj (hstep'.symm.trans hstep)
    have hsize := Session.size_of_trade h.wellFormed hstep htraded
    have hfilled : filledIn (some report).toList = report.filled.toNat := rfl
    rw [hreport] at hstrategy
    refine ⟨hsession ▸ hfollows.wellFormed, ?_, ?_⟩
    · have htrades := h.trades_eq
      rw [hstrategy, hfilled]
      show (r.strategy.trades + report.filled.toUInt64).toNat = _
      rw [UInt64.toNat_add, UInt32.toNat_toUInt64, htrades, Nat.mod_eq_of_lt (by omega)]
    · rw [hsession, hfilled]
      omega

/-! ## Any messages -/

theorem filledIn_append (reports more : List TradeReport) :
    filledIn (reports ++ more) = filledIn reports + filledIn more := by
  unfold filledIn
  rw [List.map_append, List.sum_append]

theorem trades_succ (h : r.feedOne seq = .ok r') (n : Nat) :
    trades every (n + 1) seq r = r.report?.toList ++
      trades every n (seq + 1) (if (seq + 1) % every = 0 then r'.observe else r') := by
  rw [trades, h]

/-- After any messages, the count is the sum of what the trades have reported. -/
theorem Counts.run {filled : Nat} (h : r.Counts n filled) (hcount : n + k < 2 ^ 64)
    (hrun : run every k n r = .ok r') :
    r'.Counts (n + k) (filled + filledIn (trades every k n r)) := by
  induction k generalizing n r filled with
  | zero =>
    cases hrun
    exact h
  | succ k ih =>
    obtain ⟨r₁, hone, hrun⟩ := exists_of_run_succ hrun
    have hrest := ih ((h.feedOne (by omega) hone).ite_observe _) (by omega) hrun
    rw [Nat.add_right_comm, Nat.add_assoc filled] at hrest
    rw [trades_succ hone, filledIn_append]
    exact hrest

/-! ## The session on its own -/

theorem market_ite (c : Prop) [Decidable c] (r : Replay) :
    (if c then r.observe else r).session.market = r.session.market :=
  congrArg Prod.fst (course_ite c r)

/-- A session with the market of a replay answers the next message with the same report, and goes on
to the same market. -/
theorem exists_process_sent {s : Session} (h : s.market = r.session.market)
    (hone : r.feedOne seq = .ok r') :
    ∃ step, s.process r.message = .ok step ∧
      r.report? = (Answer.processed step.result).report? ∧
      step.state.market = r'.session.market := by
  obtain ⟨step, hstep, hsession, -⟩ := exists_of_feedOne hone
  have hboth := Session.lockstep_market.process h r.message
  rw [hstep] at hboth
  obtain ⟨step', hstep', halike⟩ := hboth.exists_ok
  refine ⟨step', hstep', ?_, ?_⟩
  · rw [halike.result, report?_eq hstep]
  · rw [halike.state, hsession]

/-- The messages that a replay sends are as many as it was to send, and a session that is given them
without the replay goes on to the same market, with the same reports. -/
theorem exists_run_sent {s : Session} (h : s.market = r.session.market)
    (hrun : run every n seq r = .ok r') :
    (sent every n seq r).length = n ∧
      ∃ s' log, s.run ((sent every n seq r).map .process) = .ok (s', log) ∧
        s'.market = r'.session.market ∧ reportsIn log = trades every n seq r := by
  induction n generalizing s seq r with
  | zero =>
    cases hrun
    exact ⟨rfl, s, [], rfl, h, rfl⟩
  | succ n ih =>
    obtain ⟨r₁, hone, hrun⟩ := exists_of_run_succ hrun
    obtain ⟨step, hstep, hreport, hmarket⟩ := exists_process_sent h hone
    obtain ⟨hlength, s', log, hrest, hmarket', htrades⟩ :=
      ih (hmarket.trans (market_ite _ r₁).symm) hrun
    have hsent : sent every (n + 1) seq r = r.message ::
        sent every n (seq + 1) (if (seq + 1) % every = 0 then r₁.observe else r₁) := by
      rw [sent, hone]
    refine ⟨?_, s', (.processed step.result, step.events) :: log, ?_, hmarket', ?_⟩
    · rw [hsent, List.length_cons, hlength]
    · rw [hsent]
      exact Session.run_process_of_step hstep hrest
    · rw [trades_succ hone, ← htrades, hreport]
      unfold reportsIn
      rw [List.filterMap_cons]
      cases (Answer.processed step.result).report? <;> rfl

theorem messages_of_feedOne (hone : r.feedOne seq = .ok r') :
    r'.session.messages = r.session.messages + 1 := by
  obtain ⟨step, hstep, hsession, -⟩ := exists_of_feedOne hone
  rw [hsession]
  exact (Session.process_keeps (fun s => s.messages = r.session.messages + 1) r.message
    fun _ => rfl).sound _ hstep

/-- Every message is counted. -/
theorem messages_of_run (hrun : run every n seq r = .ok r') :
    r'.session.messages = r.session.messages + UInt64.ofNat n := by
  induction n generalizing seq r with
  | zero =>
    cases hrun
    exact (UInt64.add_zero _).symm
  | succ n ih =>
    obtain ⟨r₁, hone, hrun⟩ := exists_of_run_succ hrun
    have hsame : (if (seq + 1) % every = 0 then r₁.observe else r₁).session.messages =
        r₁.session.messages := congrArg Market.messages (market_ite _ r₁)
    rw [ih hrun, hsame, messages_of_feedOne hone, UInt64.ofNat_add, UInt64.add_assoc,
      UInt64.add_comm 1]
    rfl

end Replay

end PriceTime
