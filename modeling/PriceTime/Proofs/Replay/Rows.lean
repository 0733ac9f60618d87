import PriceTime.Proofs.Logger.Isolation
import PriceTime.Proofs.Replay.Growth

/-!
# The trading log of a replay

A replay logs a row after every so many messages, with what its book and its strategy show then.
What it logs does not depend on the logger, so a longer replay starts with the rows of a shorter one.
As long as the rows fit into a channel none is dropped, whatever the workers do in the meantime, and
whatever becomes of a sink.

* `Replay.rows`: the rows that some messages lead to.
* `Replay.exists_run_rows`: the replay with its logger is one schedule of the threads.
* `Replay.stop_of_run`: what stopping the logger leaves and reports.
* `Replay.Logged`: what the rows of a replay say.
* `Replay.finish_rows`: the trading log that a replay leaves.
-/

namespace PriceTime

namespace Replay

variable {r r' : Replay} {n k seq every : Nat} {config : Config} {logFile : File}

/-- The rows that a replay of `n` messages logs. -/
def rows (every : Nat) : (n seq : Nat) → Replay → List Record
  | 0, _, _ => []
  | n + 1, seq, r =>
    match r.feedOne seq with
    | .error _ => []
    | .ok r =>
      if (seq + 1) % every = 0 then
        record r.observe.session r.observe.strategy :: rows every n (seq + 1) r.observe
      else rows every n (seq + 1) r

/-! ## One row after the other -/

theorem rows_succ (h : r.feedOne seq = .ok r') (n : Nat) :
    rows every (n + 1) seq r =
      (if (seq + 1) % every = 0 then [record r'.observe.session r'.observe.strategy] else []) ++
        rows every n (seq + 1) (if (seq + 1) % every = 0 then r'.observe else r') := by
  rw [rows, h]
  dsimp only
  split <;> rfl

/-- The rows of some messages, and then those of some more. -/
theorem rows_add (h : run every n seq r = .ok r') (k : Nat) :
    rows every (n + k) seq r = rows every n seq r ++ rows every k (seq + n) r' := by
  induction n generalizing seq r with
  | zero =>
    cases h
    rw [Nat.zero_add]
    rfl
  | succ n ih =>
    obtain ⟨r₁, hone, h⟩ := exists_of_run_succ h
    rw [Nat.add_right_comm, rows_succ hone, rows_succ hone, ih h, List.append_assoc, Nat.add_assoc,
      Nat.add_comm 1 n]

/-- There is a row for each multiple of `every`. -/
theorem length_rows (h : run every n seq r = .ok r') :
    seq / every + (rows every n seq r).length = (seq + n) / every := by
  induction n generalizing seq r with
  | zero => rfl
  | succ n ih =>
    obtain ⟨r₁, hone, h⟩ := exists_of_run_succ h
    have hnext : seq + (n + 1) = seq + 1 + n := by omega
    rw [rows_succ hone, List.length_append, hnext, ← ih h, ← Nat.add_assoc]
    congr 1
    by_cases hturn : (seq + 1) % every = 0
    · rw [if_pos hturn, Nat.succ_div_of_dvd (Nat.dvd_of_mod_eq_zero hturn)]
      rfl
    · rw [if_neg hturn, Nat.succ_div_of_not_dvd fun hdvd => hturn (Nat.mod_eq_zero_of_dvd hdvd)]
      rfl

theorem length_rows_zero (h : run every n 0 r = .ok r') :
    (rows every n 0 r).length = n / every := by
  have hlength := length_rows h
  rwa [Nat.zero_div, Nat.zero_add, Nat.zero_add] at hlength

/-- The last row is what the replay shows then. -/
theorem rows_of_turn (h : run every (n + 1) seq r = .ok r') (hturn : (seq + n + 1) % every = 0) :
    rows every (n + 1) seq r = rows every n seq r ++ [record r'.session r'.strategy] := by
  obtain ⟨r₁, hfirst, hlast⟩ := exists_of_run_add h
  obtain ⟨r₂, hone, hlast⟩ := exists_of_run_succ hlast
  rw [if_pos hturn] at hlast
  cases hlast
  rw [rows_add hfirst, rows_succ hone, if_pos hturn]
  rfl

/-- The row with a number is what the replay shows after as many turns. -/
theorem getElem?_rows (h : run every n 0 r = .ok r') (hevery : 0 < every) (hk : k < n / every) :
    ∃ r₁, run every ((k + 1) * every) 0 r = .ok r₁ ∧
      (rows every n 0 r)[k]? = some (record r₁.session r₁.strategy) := by
  have hle : (k + 1) * every ≤ n := (Nat.le_div_iff_mul_le hevery).mp hk
  obtain ⟨m, rfl⟩ := Nat.exists_eq_add_of_le hle
  obtain ⟨r₁, hturn, hrest⟩ := exists_of_run_add h
  refine ⟨r₁, hturn, ?_⟩
  have hpos : 0 < (k + 1) * every := Nat.mul_pos (Nat.succ_pos k) hevery
  obtain ⟨before, hbefore⟩ := Nat.exists_eq_add_of_le' hpos
  have hdvd : (0 + before + 1) % every = 0 := by
    rw [Nat.zero_add, ← hbefore, Nat.mul_mod_left]
  have hrows := rows_add hturn m
  rw [hbefore] at hturn hrows ⊢
  have hlength : (rows every before 0 r).length = k := by
    obtain ⟨r₀, hfirst, -⟩ := exists_of_run_add hturn
    have hsucc : (k + 1) * every = k * every + every := Nat.succ_mul k every
    rw [length_rows_zero hfirst]
    exact Nat.div_eq_of_lt_le (by omega) (by omega)
  rw [hrows, rows_of_turn hturn hdvd, List.append_assoc, List.getElem?_append_right
    (Nat.le_of_eq hlength), hlength, Nat.sub_self]
  rfl

/-! ## The logger -/

/-- The replay with another logger. -/
def withLogger (r : Replay) (logger : Logger) : Replay :=
  { r with logger }

theorem observe_withLogger (r : Replay) (logger : Logger) :
    ∃ later, (r.withLogger logger).observe = r.observe.withLogger later :=
  ⟨_, rfl⟩

theorem feedOne_withLogger (r : Replay) (logger : Logger) (seq : Nat) :
    (r.withLogger logger).feedOne seq = (r.feedOne seq).map fun r => r.withLogger logger := by
  obtain ⟨session, feed, strategy, _, rejected⟩ := r
  unfold feedOne withLogger
  dsimp only
  cases session.process (feed.next session.book).1 with
  | error fault => rfl
  | ok step =>
    obtain ⟨result, state, events⟩ := step
    cases result with
    | error error =>
      dsimp only
      split <;> rfl
    | ok applied => cases applied <;> rfl

/-- The rows do not depend on the logger. -/
theorem rows_withLogger (every n seq : Nat) (r : Replay) (logger : Logger) :
    rows every n seq (r.withLogger logger) = rows every n seq r := by
  induction n generalizing seq r logger with
  | zero => rfl
  | succ n ih =>
    unfold rows
    rw [feedOne_withLogger]
    cases r.feedOne seq with
    | error error => rfl
    | ok r₁ =>
      obtain ⟨later, hobserve⟩ := observe_withLogger r₁ logger
      dsimp only [Except.map]
      rw [hobserve, ih, ih]
      rfl

theorem rows_start (config : Config) (logFile logFile' : File) (sink sink' : Option LineSink)
    (every n : Nat) :
    rows every n 0 (start config logFile' sink') = rows every n 0 (start config logFile sink) :=
  rows_withLogger every n 0 (start config logFile sink) (.start config.logger logFile' sink')

/-- An observation logs its row, and lets each worker take a step. -/
theorem observe_logger (r : Replay) : r.observe.logger =
    (r.logger.log (record r.observe.session r.observe.strategy)).2.work := rfl

theorem logger_of_feedOne (h : r.feedOne seq = .ok r') : r'.logger = r.logger := by
  obtain ⟨-, -, -, -, hlogger, -⟩ := exists_of_feedOne h
  exact hlogger

/-- The threads of the logger of a replay that goes on, once some rows were logged. -/
structure Threaded (r : Replay) (t : Threads) (logged : List Record) : Prop where
  logger_eq : t.logger = r.logger
  owner_eq : t.owner = .free
  running_eq : t.logger.running = true
  calls_eq : t.calls.map LogCall.record = logged

theorem Threaded.observe {t : Threads} {logged : List Record} (h : r.Threaded t logged) :
    ∃ moves t', t.run moves = some t' ∧
      r.observe.Threaded t' (logged ++ [record r.observe.session r.observe.strategy]) := by
  have hlog := Threads.run_log h.owner_eq h.running_eq
    (record r.observe.session r.observe.strategy)
  refine ⟨_, _, (Threads.run_append _ _ _).trans
    (Option.bind_eq_some_iff.mpr ⟨_, hlog, Threads.run_work _⟩), ?_, h.owner_eq, h.running_eq, ?_⟩
  · rw [observe_logger, ← h.logger_eq]
  · dsimp only
    rw [List.map_append, h.calls_eq]
    rfl

/-- A replay with its logger is one schedule of the threads of the logger. -/
theorem exists_run_rows {t : Threads} {logged : List Record} (h : r.Threaded t logged)
    (hrun : run every n seq r = .ok r') :
    ∃ moves t', t.run moves = some t' ∧ r'.Threaded t' (logged ++ rows every n seq r) := by
  induction n generalizing seq r t logged with
  | zero =>
    cases hrun
    exact ⟨[], t, rfl, (List.append_nil logged).symm ▸ h⟩
  | succ n ih =>
    obtain ⟨r₁, hone, hrun⟩ := exists_of_run_succ hrun
    have h₁ : r₁.Threaded t logged :=
      ⟨h.logger_eq.trans (logger_of_feedOne hone).symm, h.owner_eq, h.running_eq, h.calls_eq⟩
    rw [rows_succ hone]
    by_cases hturn : (seq + 1) % every = 0
    · rw [if_pos hturn] at hrun ⊢
      obtain ⟨now, t₁, hnow, h₂⟩ := h₁.observe
      obtain ⟨later, t', hlater, h'⟩ := ih h₂ hrun
      refine ⟨now ++ later, t', ?_, ?_⟩
      · exact (Threads.run_append _ _ _).trans (Option.bind_eq_some_iff.mpr ⟨_, hnow, hlater⟩)
      · rw [if_pos hturn, ← List.append_assoc]
        exact h'
    · rw [if_neg hturn] at hrun ⊢
      rw [if_neg hturn, List.nil_append]
      exact ih h₁ hrun

/-! ## The log in the end -/

/-- A replay that goes through stops its logger in the end. -/
theorem finish_of_stop {messages every : UInt64} {sink : Option LineSink} {stats : LoggerStats}
    (hrun : run (max every.toNat 1) messages.toNat 0 (start config logFile sink) = .ok r)
    (hstop : r.logger.stop.1 = .ok stats) :
    finish config logFile messages every sink = .ok ⟨r.session, stats, r.logger.stop.2⟩ := by
  have hstop : r.logger.stop = (.ok stats, r.logger.stop.2) := Prod.ext hstop rfl
  unfold finish
  simp only [hrun, bind, Except.bind]
  rw [hstop]
  rfl

theorem finish_of_stop_error {messages every : UInt64} {sink : Option LineSink}
    {error : LoggerError}
    (hrun : run (max every.toNat 1) messages.toNat 0 (start config logFile sink) = .ok r)
    (hstop : r.logger.stop.1 = .error error) :
    finish config logFile messages every sink = .error (.logger error
      (r.logger.stop.2.file?.getD {}) r.logger.stop.2.consoleText) := by
  have hstop : r.logger.stop = (.error error, r.logger.stop.2) := Prod.ext hstop rfl
  unfold finish
  simp only [hrun, bind, Except.bind]
  rw [hstop]
  rfl

/-- The logger of a replay that goes through has written all rows when it is stopped, whatever
becomes of the sink. -/
theorem stop_of_run {messages every : UInt64} {sink : Option LineSink}
    (hnew : ∀ outlet, sink = some outlet → outlet.received = #[])
    (hrun : run (max every.toNat 1) messages.toNat 0 (start config logFile sink) = .ok r)
    (hfew : messages.toNat / max every.toNat 1 ≤ 65535) :
    r.logger.stop.2.file?.map File.content = some (Record.header ++ Outlet.rows
        (rows (max every.toNat 1) messages.toNat 0 (start config logFile sink))).toUTF8 ∧
      match sink.bind fun outlet => outlet.error? (messages.toNat / max every.toNat 1) with
      | some error => r.logger.stop.1 = .error error
      | none => ∃ stats, r.logger.stop.1 = .ok stats ∧
        stats.file.toNat = messages.toNat / max every.toNat 1 ∧ stats.dropped = 0 := by
  have hbegin : (start config logFile sink).Threaded
      { logger := .start config.logger logFile sink } [] := ⟨rfl, rfl, rfl, rfl⟩
  obtain ⟨moves, t, hmoves, h⟩ := exists_run_rows hbegin hrun
  have hcount : t.calls.length = messages.toNat / max every.toNat 1 := by
    rw [← length_rows_zero hrun, ← List.length_map LogCall.record, h.calls_eq]
    rfl
  have hstop := Threads.stop_durable hnew hmoves h.owner_eq h.running_eq (hcount ▸ hfew)
  rwa [h.logger_eq, h.calls_eq, List.nil_append, hcount] at hstop

/-- A replay without a sink that goes through leaves a log with all rows. -/
theorem finish_of_run {messages every : UInt64}
    (hrun : run (max every.toNat 1) messages.toNat 0 (start config logFile) = .ok r)
    (hfew : messages.toNat / max every.toNat 1 ≤ 65535) :
    ∃ finished, finish config logFile messages every = .ok finished ∧
      finished.stats.file.toNat = messages.toNat / max every.toNat 1 ∧
      finished.stats.dropped = 0 ∧ finished.logger.file?.map File.content =
        some (Record.header ++ Outlet.rows
          (rows (max every.toNat 1) messages.toNat 0 (start config logFile))).toUTF8 := by
  have hnone : ∀ outlet, (none : Option LineSink) = some outlet → outlet.received = #[] := nofun
  obtain ⟨hcontent, stats, hreport, hfile, hdropped⟩ := stop_of_run hnone hrun hfew
  exact ⟨_, finish_of_stop hrun hreport, hfile, hdropped, hcontent⟩

/-- What a replay that goes through leaves with a new sink: a log with all rows, and the error of the
sink if there is one. -/
theorem finish_forwarded {messages every : UInt64} {sink : LineSink} (hnew : sink.received = #[])
    (hrun : run (max every.toNat 1) messages.toNat 0 (start config logFile) = .ok r)
    (hfew : messages.toNat / max every.toNat 1 ≤ 65535) :
    let content := (Record.header ++ Outlet.rows
      (rows (max every.toNat 1) messages.toNat 0 (start config logFile))).toUTF8
    match sink.error? (messages.toNat / max every.toNat 1) with
    | none => ∃ finished, finish config logFile messages every (some sink) = .ok finished ∧
      finished.logger.file?.map File.content = some content
    | some error => ∃ log console,
      finish config logFile messages every (some sink) = .error (.logger error log console) ∧
        log.content = content := by
  intro content
  have hsink : ∀ outlet, some sink = some outlet → outlet.received = #[] := by
    intro outlet houtlet
    cases houtlet
    exact hnew
  obtain ⟨r', hrun', -⟩ := exists_run_of_course
    (start_course config config logFile logFile none (some sink)) hrun (max every.toNat 1)
  obtain ⟨hcontent, hreport⟩ := stop_of_run hsink hrun' hfew
  rw [rows_start config logFile logFile none] at hcontent
  rw [Option.bind_some] at hreport
  cases herror : sink.error? (messages.toNat / max every.toNat 1) with
  | none =>
    rw [herror] at hreport
    obtain ⟨stats, hok, -⟩ := hreport
    exact ⟨_, finish_of_stop hrun' hok, hcontent⟩
  | some error =>
    rw [herror] at hreport
    obtain ⟨log, hlog, hwritten⟩ := Option.map_eq_some_iff.mp hcontent
    have hfailed := finish_of_stop_error hrun' hreport
    rw [hlog] at hfailed
    exact ⟨log, _, hfailed, hwritten⟩

/-- The log of a longer replay starts with the rows of a shorter one. -/
theorem content_of_longer {logFile' : File} {messages messages' every : UInt64}
    {finished : Finished}
    (hrun : run (max every.toNat 1) messages.toNat 0 (start config logFile) = .ok r)
    (hle : messages ≤ messages') (hfew : messages'.toNat / max every.toNat 1 ≤ 65535)
    (hfinish : finish config logFile' messages' every = .ok finished) :
    ∃ more, finished.logger.file?.map File.content = some ((Record.header ++ Outlet.rows
      (rows (max every.toNat 1) messages.toNat 0 (start config logFile))).toUTF8 ++
        (Outlet.rows more).toUTF8) := by
  obtain ⟨k, hk⟩ := Nat.exists_eq_add_of_le (UInt64.le_iff_toNat_le.mp hle)
  obtain ⟨r', hrun', -⟩ := Command.exists_of_finish hfinish
  obtain ⟨finished₁, hfinish₁, -, -, hcontent⟩ := finish_of_run hrun' hfew
  obtain rfl : finished₁ = finished := Except.ok.inj (hfinish₁.symm.trans hfinish)
  have hrows := rows_start config logFile logFile' none none (max every.toNat 1) messages'.toNat
  rw [hk, rows_add hrun] at hrows
  refine ⟨rows (max every.toNat 1) k (0 + messages.toNat) r, ?_⟩
  rw [hcontent, hk, hrows, Outlet.rows_append, ← String.append_assoc]
  exact congrArg some String.toByteArray_append

theorem run_of_finish_error {messages every : UInt64} {error : ReplayError}
    (h : finish config logFile messages every = .error error)
    (hfew : messages.toNat / max every.toNat 1 ≤ 65535) :
    run (max every.toNat 1) messages.toNat 0 (start config logFile) = .error error := by
  cases hrun : run (max every.toNat 1) messages.toNat 0 (start config logFile) with
  | error error' =>
    unfold finish at h
    rw [hrun] at h
    cases h
    rfl
  | ok r =>
    obtain ⟨finished, hfinish, -⟩ := finish_of_run hrun hfew
    rw [h] at hfinish
    cases hfinish

/-! ## What the rows say -/

/-- Some book on the way through `n` messages holds as many orders, or more. -/
def Crowded (orders : Nat) (config : Config) (logFile : File) (every n : Nat) : Prop :=
  ∃ j r, j ≤ n ∧ run every j 0 (start config logFile) = .ok r ∧
    orders ≤ r.session.book.index.size

/-- Some book on the way through `n` messages has a queue that is overfull. -/
def Overfilled (config : Config) (logFile : File) (every n : Nat) : Prop :=
  ∃ j r, j ≤ n ∧ run every j 0 (start config logFile) = .ok r ∧ r.session.book.Overfull

/-- What the rows say that a replay of `n` messages logs. -/
structure Logged (config : Config) (logFile : File) (every n : Nat) (rows : List Record) :
    Prop where
  length_eq : rows.length = n / every
  /-- A row shows the book and the strategy after exactly as many messages, with zero for the best
  price of a side without orders, and the number of orders that all trades so far have filled. The
  book is that of the replay that is never observed, and that of a fresh session which is given
  nothing but the messages. -/
  row : ∀ k row, rows[k]? = some row →
    ∃ r, run every ((k + 1) * every) 0 (start config logFile) = .ok r ∧
      marketAfter ((k + 1) * every) = .ok r.session.market ∧
      row = {
        time := r.session.clock
        bid := (r.session.book.bestPrice? .bid).getD 0
        ask := (r.session.book.bestPrice? .ask).getD 0
        position := r.strategy.position
        tradeCount := r.strategy.trades
        pnl := r.strategy.pnl } ∧
      row.tradeCount.toNat =
        filledIn (trades every ((k + 1) * every) 0 (start config logFile)) ∧
      r.session.messages.toNat = (k + 1) * every ∧
      ∃ messages s log, messages = sent every ((k + 1) * every) 0 (start config logFile) ∧
        messages.length = (k + 1) * every ∧
        (Session.ofConfig config.book).run (messages.map .process) = .ok (s, log) ∧
        s.market = r.session.market ∧ row.tradeCount.toNat = filledIn (reportsIn log)
  counts : rows.Pairwise fun row later => row.tradeCount ≤ later.tradeCount
  /-- The clock comes to the end of its word only once there were `2 ^ 48` orders. -/
  times : (rows.Pairwise fun row later => row.time ≤ later.time) ∨
    Crowded (2 ^ 48) config logFile every n

theorem Logged.getElem?_eq {rows : List Record} (h : Logged config logFile every n rows)
    (hk : k < n / every) :
    rows[k]? = (run every ((k + 1) * every) 0 (start config logFile)).toOption.map fun r =>
      record r.session r.strategy := by
  have hlt : k < rows.length := h.length_eq ▸ hk
  obtain ⟨r, hrun, -, hrow, -⟩ := h.row k _ (List.getElem?_eq_getElem hlt)
  rw [List.getElem?_eq_getElem hlt, hrun, hrow]
  rfl

/-- A relation that holds between what the replay shows at two turns holds between the rows. -/
theorem pairwise_rows {rel : Record → Record → Prop}
    (hrun : run every n 0 (start config logFile) = .ok r) (hevery : 0 < every)
    (hrel : ∀ {m k : Nat} {r₁ r₂ : Replay}, 0 < m → m + k ≤ n →
      run every m 0 (start config logFile) = .ok r₁ → run every k m r₁ = .ok r₂ →
        rel (record r₁.session r₁.strategy) (record r₂.session r₂.strategy)) :
    (rows every n 0 (start config logFile)).Pairwise rel := by
  have hlength := length_rows_zero hrun
  refine List.pairwise_iff_getElem.mpr fun i j hi hj hij => ?_
  obtain ⟨r₁, hrun₁, hrow₁⟩ := getElem?_rows hrun hevery (hlength ▸ hi)
  obtain ⟨r₂, hrun₂, hrow₂⟩ := getElem?_rows hrun hevery (hlength ▸ hj)
  obtain ⟨k, hk⟩ := Nat.exists_eq_add_of_le
    (Nat.mul_le_mul_right every (Nat.succ_le_succ (Nat.le_of_lt hij)))
  have hle : (j + 1) * every ≤ n := (Nat.le_div_iff_mul_le hevery).mp (hlength ▸ hj)
  rw [hk] at hrun₂ hle
  obtain ⟨r₁', hrun₁', hrest⟩ := exists_of_run_add hrun₂
  obtain rfl : r₁' = r₁ := Except.ok.inj (hrun₁'.symm.trans hrun₁)
  rw [List.getElem?_eq_getElem hi, Option.some.injEq] at hrow₁
  rw [List.getElem?_eq_getElem hj, Option.some.injEq] at hrow₂
  rw [hrow₁, hrow₂]
  rw [Nat.zero_add] at hrest
  exact hrel (Nat.mul_pos (Nat.succ_pos i) hevery) hle hrun₁ hrest

theorem pairwise_counts (hrun : run every n 0 (start config logFile) = .ok r)
    (hevery : 0 < every) (hn : n < 2 ^ 64) :
    (rows every n 0 (start config logFile)).Pairwise fun row later =>
      row.tradeCount ≤ later.tradeCount := by
  refine pairwise_rows hrun hevery fun {m k r₁ r₂} _ hle hrun₁ hrun₂ => ?_
  have h₁ := (counts_start config logFile).run (by omega) hrun₁
  rw [Nat.zero_add] at h₁
  have h₂ := h₁.run (by omega) hrun₂
  show r₁.strategy.trades ≤ r₂.strategy.trades
  rw [UInt64.le_iff_toNat_le, h₁.trades_eq, h₂.trades_eq]
  exact Nat.le_add_right ..

theorem pairwise_times (hrun : run every n 0 (start config logFile) = .ok r)
    (hevery : 0 < every) (hfew : n < 2 ^ 52) :
    (rows every n 0 (start config logFile)).Pairwise fun row later => row.time ≤ later.time := by
  refine pairwise_rows hrun hevery fun {m k r₁ r₂} hpos hle hrun₁ hrun₂ => ?_
  have h₁ := (clocked_start config logFile).run (by omega) hrun₁
  rw [Nat.zero_add] at h₁
  have h₂ := h₁.run (by omega) hrun₂
  show r₁.session.clock ≤ r₂.session.clock
  rw [UInt64.le_iff_toNat_le, h₁.toNat_clock hpos (by omega), h₂.toNat_clock (by omega) (by omega)]
  exact Nat.add_le_add_left (elapsed_mono (Nat.le_add_right ..)) _

theorem crowded_of_long (hrun : run every n 0 (start config logFile) = .ok r) (hn : n < 2 ^ 64)
    (hlong : 2 ^ 52 ≤ n) : Crowded (2 ^ 48) config logFile every n := by
  obtain ⟨j, hj, hlong', hcount⟩ : ∃ j, j ≤ n ∧ 2 ^ 52 ≤ j ∧ j + 1 < 2 ^ 64 :=
    ⟨min n (2 ^ 64 - 2), by omega, by omega, by omega⟩
  obtain ⟨k, rfl⟩ := Nat.exists_eq_add_of_le hj
  obtain ⟨r₁, hfirst, -⟩ := exists_of_run_add hrun
  exact ⟨j, r₁, hj, hfirst, le_size_of_run hlong' hcount hfirst⟩

theorem logged_rows (hrun : run every n 0 (start config logFile) = .ok r) (hevery : 0 < every)
    (hn : n < 2 ^ 64) :
    Logged config logFile every n (rows every n 0 (start config logFile)) := by
  refine ⟨length_rows_zero hrun, ?_, pairwise_counts hrun hevery hn, ?_⟩
  · intro k row hrow
    have hk : k < n / every := by
      rw [← length_rows_zero hrun]
      exact (List.getElem?_eq_some_iff.mp hrow).choose
    have hle : (k + 1) * every ≤ n := (Nat.le_div_iff_mul_le hevery).mp hk
    obtain ⟨r₁, hrun₁, hrow₁⟩ := getElem?_rows hrun hevery hk
    obtain rfl := Option.some.inj (hrow.symm.trans hrow₁)
    have hcounts := (counts_start config logFile).run (by omega) hrun₁
    have htrades : r₁.strategy.trades.toNat =
        filledIn (trades every ((k + 1) * every) 0 (start config logFile)) := by
      rw [hcounts.trades_eq, Nat.zero_add]
    have hcounted : r₁.session.messages.toNat = (k + 1) * every := by
      rw [messages_of_run hrun₁]
      exact (congrArg UInt64.toNat (UInt64.zero_add _)).trans
        (UInt64.toNat_ofNat_of_lt' (Nat.lt_of_le_of_lt hle hn))
    obtain ⟨hlength, s, log, hs, hmarket, hreports⟩ :=
      exists_run_sent (s := .ofConfig config.book) rfl hrun₁
    exact ⟨r₁, hrun₁, run_market hrun₁, rfl, htrades, hcounted, _, s, log, rfl, hlength, hs, hmarket,
      hreports ▸ htrades⟩
  · obtain hfew | hlong := Nat.lt_or_ge n (2 ^ 52)
    · exact .inl (pairwise_times hrun hevery hfew)
    · exact .inr (crowded_of_long hrun hn hlong)

/-- The trading log of a replay of any number of messages, observed after every so many of them or
after each, if it has no more than 65535 rows. The replay ends unless the book breaks its promises,
after it held `2 ^ 32` orders in one queue; so the first `2 ^ 38` messages go through. When it ends,
the log is the header and exactly the rows, and none was dropped. Each of them shows the book and the
strategy at its turn, and the market is one that the messages alone lead to; the counts of trades do
not decrease, and neither do the times, unless the book held `2 ^ 48` orders. The threads of the
logger may take any schedule: no row is ever refused, and once they have stopped, whatever becomes of
a sink, the log is the same. And the log of a longer replay with the same settings starts with it.
-/
theorem finish_rows (config : Config) (logFile : File) (messages every : UInt64)
    (hfew : messages.toNat / max every.toNat 1 ≤ 65535) :
    let turn := max every.toNat 1
    (messages.toNat ≤ 2 ^ 38 →
      ∃ finished, finish config logFile messages every = .ok finished) ∧
    (∀ error, finish config logFile messages every = .error error →
      (∃ fault, error = .fault fault) ∧ Overfilled config logFile turn messages.toNat) ∧
    ∀ finished, finish config logFile messages every = .ok finished →
      ∃ rows, Logged config logFile turn messages.toNat rows ∧
        finished.stats.file.toNat = messages.toNat / turn ∧ finished.stats.dropped = 0 ∧
        finished.logger.file?.map File.content =
          some (Record.header ++ Outlet.rows rows).toUTF8 ∧
        (∀ sink moves t, (∀ outlet, sink = some outlet → outlet.received = #[]) →
          Threads.run { logger := .start config.logger logFile sink } moves = some t →
          t.history.map LogCall.record = rows →
            (∀ call ∈ t.history, call.accepted = true) ∧
            (t.reports ≠ [] → t.logger.dropped = 0 ∧
              t.logger.file?.map File.content = finished.logger.file?.map File.content)) ∧
        (∀ sink : LineSink, sink.received = #[] → match sink.error? (messages.toNat / turn) with
          | none => ∃ forwarded, finish config logFile messages every (some sink) = .ok forwarded ∧
            forwarded.logger.file?.map File.content = finished.logger.file?.map File.content
          | some error => ∃ log console,
            finish config logFile messages every (some sink) =
                .error (.logger error log console) ∧
              some log.content = finished.logger.file?.map File.content) ∧
        ∀ logFile' messages' finished', messages ≤ messages' → messages'.toNat / turn ≤ 65535 →
          finish config logFile' messages' every = .ok finished' →
            ∃ more, finished'.logger.file?.map File.content =
              some ((Record.header ++ Outlet.rows rows).toUTF8 ++ (Outlet.rows more).toUTF8) := by
  intro turn
  have hturn : 0 < turn := Nat.lt_of_lt_of_le Nat.one_pos (Nat.le_max_right ..)
  have hmessages := messages.toNat_lt
  refine ⟨?_, ?_, ?_⟩
  · intro hshort
    obtain ⟨r, hrun⟩ := exists_run config logFile none turn hshort
    obtain ⟨finished, hfinish, -⟩ := finish_of_run hrun hfew
    exact ⟨finished, hfinish⟩
  · intro error herror
    have hrun := run_of_finish_error herror hfew
    rcases run_tracks config logFile none turn hmessages with
      ⟨r, -, hok, -⟩ | ⟨fault, hfault, j, r, hj, hr, hfull⟩
    · rw [hrun] at hok
      cases hok
    · exact ⟨⟨fault, Except.error.inj (hrun.symm.trans hfault)⟩, j, r, Nat.le_of_lt hj, hr, hfull⟩
  · intro finished hfinish
    obtain ⟨r, hrun, -⟩ := Command.exists_of_finish hfinish
    obtain ⟨finished₁, hfinish₁, hfile, hdropped, hcontent⟩ := finish_of_run hrun hfew
    obtain rfl : finished₁ = finished := Except.ok.inj (hfinish₁.symm.trans hfinish)
    have hlogged := logged_rows hrun hturn hmessages
    refine ⟨_, hlogged, hfile, hdropped, hcontent, ?_, ?_, ?_⟩
    · intro sink moves t hnew hmoves hrecords
      have hcount : t.history.length ≤ 65535 := by
        rw [← List.length_map LogCall.record, hrecords, hlogged.length_eq]
        exact hfew
      obtain ⟨haccepted, hstopped⟩ := Threads.run_durable hnew hmoves hcount
      rw [hrecords] at hstopped
      rw [hcontent]
      exact ⟨haccepted, hstopped⟩
    · intro sink hnew
      have hforwarded := finish_forwarded hnew hrun hfew
      rw [hcontent]
      cases herror : sink.error? (messages.toNat / turn) with
      | none =>
        rw [herror] at hforwarded
        exact hforwarded
      | some error =>
        rw [herror] at hforwarded
        obtain ⟨log, console, hfailed, hwritten⟩ := hforwarded
        exact ⟨log, console, hfailed, congrArg some hwritten⟩
    · intro logFile' messages' finished' hle hfew' hfinish'
      exact content_of_longer hrun hle hfew' hfinish'

/-- Ten messages, observed after four and after eight of them; and a longer replay, which has as
many rows as there may be. The first two rows show the best prices narrowing, and a later one the
first order that was filled. When nobody listens to the ten, their log is the same. -/
theorem finish_rows_ten : ∃ finished rows log console finished' rows' more,
    let shown (row : Record) := (row.time, row.bid, row.ask, row.tradeCount)
    (10 : UInt64).toNat / max (4 : UInt64).toNat 1 ≤ 65535 ∧
    finish {} {} 10 4 = .ok finished ∧ Logged {} {} 4 10 rows ∧ rows.length = 2 ∧
    rows[0]?.map shown = some (1700000000000005000, 9977, 9982, 0) ∧
    rows[1]?.map shown = some (1700000000000011600, 9978, 9981, 0) ∧
    finish {} {} 10 4 (some (Network.silent.sink (.v4 #v[127, 0, 0, 1] 9000))) =
      .error (.logger (.io Network.refused) log console) ∧
    some log.content = finished.logger.file?.map File.content ∧
    finish {} {} 262143 4 = .ok finished' ∧ Logged {} {} 4 262143 rows' ∧ rows'.length = 65535 ∧
    rows'[14]?.map shown = some (1700000000000094800, 9979, 9981, 1) ∧
    finished.logger.file?.map File.content = some (Record.header ++ Outlet.rows rows).toUTF8 ∧
    finished'.logger.file?.map File.content =
      some ((Record.header ++ Outlet.rows rows).toUTF8 ++ (Outlet.rows more).toUTF8) := by
  obtain ⟨hgoes, -, hlog⟩ := finish_rows {} {} 10 4 (by decide)
  obtain ⟨hgoes', -, hlog'⟩ := finish_rows {} {} 262143 4 (by decide)
  obtain ⟨finished, hfinish⟩ := hgoes (by decide)
  obtain ⟨finished', hfinish'⟩ := hgoes' (by decide)
  obtain ⟨rows, hlogged, -, -, hcontent, -, hforwarded, hlonger⟩ := hlog finished hfinish
  obtain ⟨rows', hlogged', -⟩ := hlog' finished' hfinish'
  obtain ⟨more, hmore⟩ := hlonger {} 262143 finished' (by decide) (by decide) hfinish'
  obtain ⟨log, console, hfailed, hsame⟩ :=
    hforwarded (Network.silent.sink (.v4 #v[127, 0, 0, 1] 9000)) rfl
  refine ⟨finished, rows, log, console, finished', rows', more, by decide, hfinish, hlogged,
    hlogged.length_eq, ?_, ?_, hfailed, hsame, hfinish', hlogged', hlogged'.length_eq, ?_, hcontent,
    hmore⟩
  · rw [hlogged.getElem?_eq (by decide)]
    decide +kernel
  · rw [hlogged.getElem?_eq (by decide)]
    decide +kernel
  · rw [hlogged'.getElem?_eq (by decide)]
    decide +kernel

end Replay

end PriceTime
