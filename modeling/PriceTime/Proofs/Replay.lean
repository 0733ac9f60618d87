import PriceTime.Proofs.Market
import PriceTime.Replay.Command

/-!
# What the market of a replay depends on

In a replay the feed reads the book it feeds, so whatever an observation did to the book would come
back with the next message. It does nothing to it: a replay sends the messages, and goes through the
markets, of the plain replay that is never observed and has no settings. All that the summary says of
the market follows from the number of messages.

* `Replay.feedOne_course`: what one message does.
* `Replay.run_course`, `Replay.sent_eq`: what a whole replay does and sends.
* `Market.summary`: the summary, with the lines of the market apart from the others.
* `market_noninterference`: figures and settings leave no trace in the market.
-/

namespace PriceTime

namespace Replay

/-! ## One message -/

/-- The market of a replay, and the feed that reads it. -/
def course (r : Replay) : Market × Feed :=
  (r.session.market, r.feed)

/-- The next message of a replay. -/
def message (r : Replay) : Message :=
  (r.feed.next r.session.book).1

variable {r r' : Replay}

theorem next_eq (h : r'.course = r.course) :
    r'.feed.next r'.session.book = r.feed.next r.session.book := by
  have hbook : r'.session.book = r.session.book := congrArg (fun c => c.1.book) h
  have hfeed : r'.feed = r.feed := congrArg Prod.snd h
  rw [hbook, hfeed]

theorem observe_course (r : Replay) : r.observe.course = r.course := by
  obtain ⟨session, feed, strategy, logger, rejected⟩ := r
  have hvolumes : session.drawVolumes.market = session.market := rfl
  have himbalance (s : Session) : s.drawImbalance.2.market = s.market := rfl
  have hskew (s : Session) : s.drawSkew.2.market = s.market := rfl
  have hchange (s : Session) : s.drawChange.2.market = s.market := rfl
  have hmid (s : Session) : s.drawMid.2.market = s.market := rfl
  unfold observe course
  dsimp only
  rw [hmid, hchange, hskew, himbalance, hvolumes]

/-- One message leads to the same market and the same feed, or to the same error. -/
theorem feedOne_alike (h : r'.course = r.course) (seq : Nat) :
    (∃ error, r.feedOne seq = .error error ∧ r'.feedOne seq = .error error) ∨
      ∃ next next', r.feedOne seq = .ok next ∧ r'.feedOne seq = .ok next' ∧
        next'.course = next.course := by
  have hnext := next_eq h
  have hprocess := Session.lockstep_market.process (congrArg Prod.fst h) r.message
  obtain ⟨session, feed, strategy, logger, rejected⟩ := r
  obtain ⟨session', feed', strategy', logger', rejected'⟩ := r'
  unfold feedOne
  unfold message at hprocess
  dsimp only at hnext hprocess ⊢
  rw [hnext]
  generalize session.process _ = run at hprocess ⊢
  generalize session'.process _ = run' at hprocess ⊢
  cases hprocess with
  | error fault => exact .inl ⟨.fault fault, rfl, rfl⟩
  | ok hsteps =>
    rename_i step step'
    obtain ⟨hresult, hstate, -⟩ := hsteps
    dsimp only
    rw [hresult]
    cases step.result with
    | ok applied =>
      cases applied <;> exact .inr ⟨_, _, rfl, rfl, Prod.ext hstate rfl⟩
    | error error =>
      cases hfatal : error.isFatal with
      | true => exact .inl ⟨.corrupted seq error, if_pos hfatal, if_pos hfatal⟩
      | false =>
        refine .inr ⟨_, _, if_neg ?_, if_neg ?_, Prod.ext hstate rfl⟩
        · simp [hfatal]
        · simp [hfatal]

/-! ## A whole replay -/

/-- The messages that a replay of `n` messages sends. -/
def sent (every : Nat) : (n seq : Nat) → Replay → List Message
  | 0, _, _ => []
  | n + 1, seq, r =>
    r.message ::
      match r.feedOne seq with
      | .error _ => []
      | .ok r => sent every n (seq + 1) (if (seq + 1) % every = 0 then r.observe else r)

theorem course_ite (c : Prop) [Decidable c] (r : Replay) :
    (if c then r.observe else r).course = r.course := by
  split
  · exact observe_course r
  · rfl

/-- Two replays with the same market and feed go on to the same market and feed, or end in the same
error, whenever they are observed. -/
theorem run_course (h : r'.course = r.course) (every every' n seq : Nat) :
    (run every n seq r).map course = (run every' n seq r').map course := by
  induction n generalizing seq r r' with
  | zero => exact congrArg Except.ok h.symm
  | succ n ih =>
    unfold run
    rcases feedOne_alike h seq with ⟨error, hone, hone'⟩ | ⟨next, next', hone, hone', hnext⟩
    · rw [hone, hone']
    · rw [hone, hone']
      exact ih (by rw [course_ite, course_ite, hnext]) (seq + 1)

theorem exists_run_of_course {every n seq : Nat} (h : r'.course = r.course) {next : Replay}
    (hrun : run every n seq r = .ok next) (every' : Nat) :
    ∃ next', run every' n seq r' = .ok next' ∧ next'.course = next.course := by
  have hcourse := run_course h every every' n seq
  rw [hrun] at hcourse
  cases hrun' : run every' n seq r' with
  | error error =>
    rw [hrun'] at hcourse
    cases hcourse
  | ok next' =>
    rw [hrun'] at hcourse
    exact ⟨next', rfl, (Except.ok.inj hcourse).symm⟩

/-- They send the same messages, too. -/
theorem sent_eq (h : r'.course = r.course) (every every' n seq : Nat) :
    sent every n seq r = sent every' n seq r' := by
  induction n generalizing seq r r' with
  | zero => rfl
  | succ n ih =>
    unfold sent
    have hmessage : r'.message = r.message := congrArg Prod.fst (next_eq h)
    rw [hmessage]
    rcases feedOne_alike h seq with ⟨error, hone, hone'⟩ | ⟨next, next', hone, hone', hnext⟩
    · rw [hone, hone']
    · rw [hone, hone']
      exact congrArg _ (ih (by rw [course_ite, course_ite, hnext]) (seq + 1))

theorem start_course (config config' : Config) (logFile logFile' : File)
    (sink sink' : Option LineSink) :
    (start config' logFile' sink').course = (start config logFile sink).course := rfl

/-- The market after `n` messages, when nobody observes it and all settings are the default ones. -/
def marketAfter (n : Nat) : Except ReplayError Market :=
  (run 0 n 0 (start {} {})).map fun r => r.session.market

theorem run_market {every n : Nat} {config : Config} {logFile : File} {sink : Option LineSink}
    {r : Replay} (h : run every n 0 (start config logFile sink) = .ok r) :
    marketAfter n = .ok r.session.market := by
  obtain ⟨plain, hplain, hcourse⟩ :=
    exists_run_of_course (start_course config {} logFile {} sink none) h 0
  unfold marketAfter
  rw [hplain]
  exact congrArg (fun c : Market × Feed => Except.ok c.1) hcourse

end Replay

/-! ## The summary -/

namespace Market

open Replay (summaryLine)

/-- The title of a summary and the number of messages. -/
def opening (m : Market) : List String :=
  ["=== Replay Summary ===", summaryLine "Messages" (Decimal.ofNat m.messages.toNat)]

/-- What a summary says of the market after the lines about the time. -/
def lines (m : Market) : List String :=
  let sides (bids asks : Nat) := Decimal.ofNat bids ++ " bids, " ++ Decimal.ofNat asks ++ " asks"
  let best := match m.book.bestPrice? .bid, m.book.bestPrice? .ask with
    | some bid, some ask =>
      [summaryLine "Best bid/ask" (Decimal.ofInt bid.toInt ++ " / " ++ Decimal.ofInt ask.toInt)]
    | _, _ => []
  let vwap := match m.tape.vwap with
    | some vwap => [summaryLine "VWAP" (Decimal.fixed 4 vwap)]
    | none => []
  [summaryLine "Book time" (Calendar.format m.clock),
    summaryLine "Resting orders" (sides m.book.bids.count.toNat m.book.asks.count.toNat),
    summaryLine "Levels" (sides (m.book.levelCount .bid) (m.book.levelCount .ask))] ++ best ++ vwap

/-- The last line of a summary. -/
def rootLine (m : Market) : String :=
  summaryLine "State root" (Sha256.hex m.book.root)

/-- What a summary says of the figures drawn last and of the logger. -/
def figureLines (i : Indicators) (stats : LoggerStats) : List String :=
  [summaryLine "Imbalance" (Decimal.fixed 4 i.imbalance),
    summaryLine "Skew" (Decimal.fixed 4 i.skew),
    summaryLine "Log lines" (Decimal.ofNat stats.file.toNat ++ " (dropped " ++
      Decimal.ofNat stats.dropped.toNat ++ ")")]

/-- The lines of a summary: those about the market, between them those about the time, and before
the last one those about the figures and the logger. -/
def summary (m : Market) (timing : List String) (i : Indicators) (stats : LoggerStats) :
    List String :=
  m.opening ++ timing ++ m.lines ++ figureLines i stats ++ [m.rootLine]

end Market

theorem Replay.summary_eq (s : Session) (stats : LoggerStats) (timing : List String) :
    summary s stats timing = s.market.summary timing s.indicators stats := by
  unfold summary Market.summary Market.opening Market.lines Market.figureLines Market.rootLine
  simp only [List.append_assoc]
  rfl

namespace Command

variable {config : Config} {file : File} {messages every : UInt64} {sink : Option LineSink}
  {network : Network}

theorem exists_of_finish {finished : Replay.Finished}
    (h : Replay.finish config file messages every sink = .ok finished) :
    ∃ r, Replay.run (max every.toNat 1) messages.toNat 0 (.start config file sink) = .ok r ∧
      finished.session = r.session := by
  unfold Replay.finish at h
  cases hrun : Replay.run (max every.toNat 1) messages.toNat 0 (.start config file sink) with
  | error error =>
    rw [hrun] at h
    cases h
  | ok r =>
    obtain ⟨session, feed, strategy, logger, rejected⟩ := r
    simp only [hrun, bind, Except.bind] at h
    split at h
    · cases h
      exact ⟨_, rfl, rfl⟩
    · cases h

theorem exists_of_run {options : Options} {opened : Except Failure File} {outcome : Outcome}
    (h : run options config opened network = .ok outcome) :
    ∃ file sink finished,
      Replay.finish config file options.messages options.every sink = .ok finished ∧
      outcome.summary = Replay.summary finished.session finished.stats := by
  unfold run at h
  split at h
  · cases h
  · split at h
    · cases h
    · rename_i finished hfinish
      cases h
      exact ⟨_, _, finished, hfinish, rfl⟩

theorem exists_of_runOn {t : FileTree} {options : Options} {outcome : Outcome}
    (h : (runOn t options network).1 = .ok outcome) :
    ∃ config opened, run options config opened network = .ok outcome := by
  unfold runOn at h
  split at h
  · cases h
  · split at h
    · dsimp only at h
      exact ⟨_, _, h⟩
    · split at h
      · cases h
      · rename_i hrun
        cases h
        exact ⟨_, _, hrun⟩

/-- When the command succeeds, its summary tells of the market after as many messages as the options
say, whatever else they say. -/
theorem summary_of_runOn {t : FileTree} {options : Options} {outcome : Outcome}
    (h : (runOn t options network).1 = .ok outcome) :
    ∃ market indicators stats, Replay.marketAfter options.messages.toNat = .ok market ∧
      ∀ timing, outcome.summary timing = market.summary timing indicators stats := by
  obtain ⟨config, opened, hrun⟩ := exists_of_runOn h
  obtain ⟨file, sink, finished, hfinish, hsummary⟩ := exists_of_run hrun
  obtain ⟨r, hreplay, hsession⟩ := exists_of_finish hfinish
  have hmarket := Replay.run_market hreplay
  rw [← hsession] at hmarket
  refine ⟨_, finished.session.indicators, finished.stats, hmarket, ?_⟩
  intro timing
  rw [hsummary, Replay.summary_eq]

end Command

/-! ## Noninterference -/

/-- Figures, observations and settings leave no trace in the market. Runs with the same calls but for
their figures answer the same calls the same, from fresh sessions with any settings, and end in the
same market. Replays send the same messages and go through the same markets, whenever they are
observed, whatever the settings, and whatever becomes of the log and of the lines to a sink. So all
that the summary of the command says of the market is that of the plain replay of as many messages,
whatever else its options say and whatever the network does. -/
theorem market_noninterference :
    (∀ (config config' : BookConfig) (calls calls' : List Call),
      Call.withoutFigures calls = Call.withoutFigures calls' →
        (Session.ofConfig config).course calls = (Session.ofConfig config').course calls' ∧
        ((Session.ofConfig config).Roomy calls →
          ∃ r, (Session.ofConfig config).course calls = .ok r)) ∧
    (∀ (config config' : Config) (logFile logFile' : File) (sink sink' : Option LineSink)
        (every every' n : Nat),
      Replay.sent every n 0 (.start config logFile sink) =
          Replay.sent every' n 0 (.start config' logFile' sink') ∧
        (Replay.run every n 0 (.start config logFile sink)).map Replay.course =
          (Replay.run every' n 0 (.start config' logFile' sink')).map Replay.course) ∧
    ∀ (t : FileTree) (options : Options) (network : Network) (outcome : Command.Outcome),
      (Command.runOn t options network).1 = .ok outcome →
        ∃ market indicators stats, Replay.marketAfter options.messages.toNat = .ok market ∧
          ∀ timing, outcome.summary timing = market.summary timing indicators stats := by
  refine ⟨?_, ?_, ?_⟩
  · intro config config' calls calls' hcalls
    have hmarket : (Session.ofConfig config').market = (Session.ofConfig config).market := rfl
    have hrun := Session.run_wellFormed (s := .ofConfig config) Book.WellFormed.empty calls
    refine ⟨Session.course_eq_of_withoutFigures_eq hmarket hcalls, ?_⟩
    intro hroom
    obtain ⟨r, hrun, -⟩ := hrun.exists_ok hroom
    exact ⟨_, congrArg (Except.map _) hrun⟩
  · intro config config' logFile logFile' sink sink' every every' n
    have hstart := Replay.start_course config config' logFile logFile' sink sink'
    exact ⟨Replay.sent_eq hstart every every' n 0, Replay.run_course hstart every every' n 0⟩
  · intro t options network outcome h
    exact Command.summary_of_runOn h

/-- A run with figures in between and other settings; and a replay that is observed at the end, logged
to the console as well, and forwarded to an address where all lines get through. -/
theorem market_noninterference_observed :
    (Session.ofConfig {}).course [.drawMid, .add 1 100 5 .bid 0, .drawVolumes, .drawImbalance,
        .process ⟨.trade, 9, 100, 3, .ask, 1⟩, .drawChange] =
      (Session.ofConfig { volumeDepth := 1, historyCapacity := 2 }).course
        [.add 1 100 5 .bid 0, .drawSkew, .process ⟨.trade, 9, 100, 3, .ask, 1⟩] ∧
    ∃ outcome market indicators stats,
      (Command.runOn { directories := [[]], working := [] }
        { messages := 2, every := 2, console := true,
          forward := some (.v4 #v[127, 0, 0, 1] 9000) } fun _ => none).1 = .ok outcome ∧
      Replay.marketAfter 2 = .ok market ∧
      ∀ timing, outcome.summary timing = market.summary timing indicators stats := by
  obtain ⟨hcalls, -, hsummary⟩ := market_noninterference
  refine ⟨(hcalls _ _ _ _ rfl).1, ?_⟩
  have hends : (Command.runOn { directories := [[]], working := [] }
      { messages := 2, every := 2, console := true,
        forward := some (.v4 #v[127, 0, 0, 1] 9000) } fun _ => none).1.isOk = true := by
    decide +kernel
  cases houtcome : (Command.runOn { directories := [[]], working := [] }
      { messages := 2, every := 2, console := true,
        forward := some (.v4 #v[127, 0, 0, 1] 9000) } fun _ => none).1 with
  | error error =>
    rw [houtcome] at hends
    cases hends
  | ok outcome =>
    obtain ⟨market, indicators, stats, hmarket, htiming⟩ := hsummary _ _ _ outcome houtcome
    exact ⟨outcome, market, indicators, stats, rfl, hmarket, htiming⟩

end PriceTime
