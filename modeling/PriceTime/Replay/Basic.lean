import PriceTime.Book.Encoding
import PriceTime.Config
import PriceTime.Logger.Basic
import PriceTime.Replay.Feed
import PriceTime.Replay.Strategy
import PriceTime.Session

/-!
# Replays

A replay feeds a session from the synthetic feed, which reads the book it feeds. After every so many
messages it draws all figures, lets the strategy observe them, and logs a record. At the end it sums
up.
-/

namespace PriceTime

/-- A replay between two messages. -/
structure Replay where
  session : Session
  feed : Feed
  strategy : Strategy := {}
  logger : Logger
  /-- How many messages were rejected. -/
  rejected : UInt64 := 0

/-- Why a replay ends before its time. -/
inductive ReplayError where
  /-- A message showed that the book cannot be trusted any more. -/
  | corrupted (seq : Nat) (error : BookError)
  /-- The book broke its own promises. -/
  | fault (fault : Fault)
  /-- The logger failed. The log and the console are complete all the same, as far as they have not
  failed themselves. -/
  | logger (error : LoggerError) (log : File) (console : String)
deriving DecidableEq

namespace Replay

/-- The time before the first message. -/
def startTime : UInt64 := 1700000000000000000

/-- A replay before its first message, with a sink for its records if there is one. -/
def start (config : Config) (logFile : File) (sink : Option LineSink := none) : Replay where
  session := .ofConfig config.book
  feed := { time := startTime }
  logger := .start config.logger logFile sink

/-- Feed one message, the one with number `seq`. -/
def feedOne (r : Replay) (seq : Nat) : Except ReplayError Replay :=
  let ⟨session, feed, strategy, logger, rejected⟩ := r
  let (message, feed) := feed.next session.book
  match session.process message with
  | .error fault => .error (.fault fault)
  | .ok step =>
    match step.result with
    | .ok (.traded report) =>
      .ok ⟨step.state, feed, strategy.noteFilled report.filled, logger, rejected⟩
    | .ok _ => .ok ⟨step.state, feed, strategy, logger, rejected⟩
    | .error error =>
      if error.isFatal then .error (.corrupted seq error)
      else .ok ⟨step.state, feed, strategy, logger, rejected + 1⟩

/-- What the strategy notes. -/
def record (session : Session) (strategy : Strategy) : Record where
  time := session.clock
  bid := (session.book.bestPrice? .bid).getD 0
  ask := (session.book.bestPrice? .ask).getD 0
  position := strategy.position
  tradeCount := strategy.trades
  pnl := strategy.pnl

/-- Draw all figures, let the strategy observe them, and log a record. The workers of the logger
keep up: each of them takes a step. -/
def observe (r : Replay) : Replay :=
  let ⟨session, feed, strategy, logger, rejected⟩ := r
  let (imbalance, session) := session.drawVolumes.drawImbalance
  let (_, session) := session.drawSkew
  let (_, session) := session.drawChange
  let (mid, session) := session.drawMid
  let strategy := strategy.update imbalance mid
  let (_, logger) := logger.log (record session strategy)
  ⟨session, feed, strategy, logger.work, rejected⟩

/-- Feed `n` more messages after the first `seq` ones, and observe after every `every` of them. -/
def run (every : Nat) : (n seq : Nat) → Replay → Except ReplayError Replay
  | 0, _, r => .ok r
  | n + 1, seq, r =>
    match r.feedOne seq with
    | .error error => .error error
    | .ok r => run every n (seq + 1) (if (seq + 1) % every = 0 then r.observe else r)

/-- One line of the summary: a title, filled up to the width of the widest, and a text. -/
def summaryLine (title text : String) : String :=
  String.ofList ((title.toList ++ [':']).rightpad 19 ' ') ++ text

/-- The summary of a replay, with the lines in `timing` after the number of messages. -/
def summary (session : Session) (stats : LoggerStats) (timing : List String) : List String :=
  let book := session.book
  let sides (bids asks : Nat) := Decimal.ofNat bids ++ " bids, " ++ Decimal.ofNat asks ++ " asks"
  let best := match book.bestPrice? .bid, book.bestPrice? .ask with
    | some bid, some ask =>
      [summaryLine "Best bid/ask" (Decimal.ofInt bid.toInt ++ " / " ++ Decimal.ofInt ask.toInt)]
    | _, _ => []
  let vwap := match session.tape.vwap with
    | some vwap => [summaryLine "VWAP" (Decimal.fixed 4 vwap)]
    | none => []
  ["=== Replay Summary ===", summaryLine "Messages" (Decimal.ofNat session.messages.toNat)] ++
    timing ++
    [summaryLine "Book time" session.formattedTime,
      summaryLine "Resting orders" (sides book.bids.count.toNat book.asks.count.toNat),
      summaryLine "Levels" (sides (book.levelCount .bid) (book.levelCount .ask))] ++
    best ++ vwap ++
    [summaryLine "Imbalance" (Decimal.fixed 4 session.indicators.imbalance),
      summaryLine "Skew" (Decimal.fixed 4 session.indicators.skew),
      summaryLine "Log lines" (Decimal.ofNat stats.file.toNat ++ " (dropped " ++
        Decimal.ofNat stats.dropped.toNat ++ ")"),
      summaryLine "State root" (Sha256.hex book.root)]

/-- What a finished replay leaves: the session, what the logger counted, and the logger itself. -/
structure Finished where
  session : Session
  stats : LoggerStats
  logger : Logger

/-- Replay `messages` messages, and observe after every `every` of them, or after each if `every` is
zero. -/
def finish (config : Config) (logFile : File) (messages every : UInt64)
    (sink : Option LineSink := none) : Except ReplayError Finished := do
  let r ← run (max every.toNat 1) messages.toNat 0 (start config logFile sink)
  let ⟨session, _, _, logger, _⟩ := r
  match logger.stop with
  | (.ok stats, logger) => return { session, stats, logger }
  | (.error error, logger) =>
    throw (.logger error (logger.file?.getD {}) logger.consoleText)

end Replay

end PriceTime
