import PriceTime.Proofs.Logger.Outputs

/-!
# A sink that fails harms no other lane

Whatever a sink does with its lines, the log file and the console get all records, as they would if
there were no sink. The sink itself has got the lines before the one it refused. A stop waits for
all workers, whichever of them failed, and then reports what went wrong with the sink.

* `Threads.Steady.durable`: the log file and the console.
* `Threads.Steady.sink_after`, `Threads.Steady.report_full`: the sink and the report.
* `Threads.run_durable`, `Threads.stop_durable`: no record is missing from the log file.
* `Threads.run_isolates`: every schedule, for every sink.
-/

namespace PriceTime

theorem LineSink.taken_eq_iff (sink : LineSink) (lines : List String) :
    sink.taken lines = lines ↔ sink.refusal? lines.length = none := by
  unfold taken refusal?
  split
  · rename_i count refusal _
    split
    · rename_i hlt
      have hne : lines.take count ≠ lines := by
        intro htake
        have := congrArg List.length htake
        rw [List.length_take] at this
        omega
      simp [hne]
    · rename_i hle
      simp [List.take_of_length_le (Nat.le_of_not_lt hle)]
  · simp

theorem LineSink.taken_of_error?_eq_none {sink : LineSink} {lines : List String}
    (h : sink.error? lines.length = none) : sink.taken lines = lines := by
  rw [taken_eq_iff]
  unfold error? at h
  split at h
  · cases h
  · cases h
  · assumption

namespace Threads

variable {config : LoggerConfig} {existing : File} {sink : LineSink} {sink? : Option LineSink}
  {moves : List Move} {t : Threads}

namespace Steady

/-- The log file and the console get all records that fit into a channel, whether there is a sink or
not. -/
theorem durable (h : t.Steady (Logger.outlets config existing sink?))
    (hnew : ∀ outlet, sink? = some outlet → outlet.received = #[])
    (hreported : t.reports ≠ []) (hfew : t.calls.length < Lane.queueSlots) :
    t.logger.file?.map File.content =
        some (Record.header ++ Outlet.rows (t.calls.map LogCall.record)).toUTF8 ∧
      t.logger.consoleText = if config.console then
        Record.header ++ Outlet.rows (t.calls.map LogCall.record) else "" := by
  obtain ⟨hdone, -⟩ := h.phase.closed_of_report hreported
  have hrunning := (h.finished hnew hdone).1
  obtain ⟨hfile, hconsole, -⟩ := h.shown hnew hdone
  rw [hfile, hconsole, h.acceptedAt_eq hrunning hfew (Nat.succ_pos _)]
  refine ⟨rfl, ?_⟩
  split
  · rename_i hhas
    rw [h.acceptedAt_eq hrunning hfew (by simp [Logger.outlets, hhas])]
  · rfl

theorem dropped_eq_zero {outlets : List Outlet} (h : t.Steady outlets)
    (hrunning : t.logger.running = false) (hfew : t.calls.length < Lane.queueSlots) :
    t.logger.dropped = 0 := by
  have hnone : ∀ place ∈ List.range outlets.length, refusedAt place t.calls = 0 := by
    intro place hmem
    have hplace := List.mem_range.mp hmem
    have hall := acceptedAt_add_refusedAt fun call hmem =>
      (h.answered call hmem).symm ▸ hplace
    rw [h.acceptedAt_eq hrunning hfew hplace, List.length_map] at hall
    omega
  rw [h.dropped_eq, h.phase.history_eq hrunning, List.map_congr_left hnone]
  simp

variable (h : t.Steady (Logger.outlets config existing (some sink)))
  (hnew : ∀ outlet, some sink = some outlet → outlet.received = #[])
  (hdone : ∀ lane ∈ t.logger.lanes, lane.worker.isDone = true)
  (hfew : t.calls.length < Lane.queueSlots)
include h hnew hdone hfew

theorem acceptedAt_forwardPlace :
    acceptedAt (Logger.forwardPlace config) t.calls = t.calls.map LogCall.record := by
  refine h.acceptedAt_eq (h.finished hnew hdone).1 hfew ?_
  simp [Logger.outlets, Logger.forwardPlace]
  split <;> simp

theorem sink_after :
    .forward (sink.after ((t.calls.map LogCall.record).map Record.line)) ∈
      t.logger.lanes.map Lane.outlet := by
  obtain ⟨-, file, console, forward, hlanes, -, -, hforward⟩ := h.finished hnew hdone
  obtain ⟨-, -, houtlet⟩ := hforward sink rfl
  rw [h.acceptedAt_forwardPlace hnew hdone hfew] at houtlet
  rw [hlanes, ← houtlet]
  exact List.mem_map_of_mem (by simp)

/-- The error of the sink, or the full counts. -/
theorem report_full : t.logger.report = match sink.error? t.calls.length with
    | some error => .error error
    | none => .ok {
      file := UInt64.ofNat t.calls.length
      console := if config.console then UInt64.ofNat t.calls.length else 0
      forwarded := UInt64.ofNat t.calls.length } := by
  have hrunning := (h.finished hnew hdone).1
  have hprinted : (if config.console then UInt64.ofNat (acceptedAt 1 t.calls).length else 0) =
      if config.console then UInt64.ofNat t.calls.length else 0 := by
    split
    · rename_i hhas
      rw [h.acceptedAt_eq hrunning hfew (by simp [Logger.outlets, hhas]), List.length_map]
    · rfl
  rw [h.report hnew hdone, h.acceptedAt_forwardPlace hnew hdone hfew,
    h.dropped_eq_zero hrunning hfew, hprinted, h.acceptedAt_eq hrunning hfew (Nat.succ_pos _)]
  simp only [Option.bind_some, Option.elim_some, List.length_map]
  cases herror : sink.error? t.calls.length with
  | some error => rfl
  | none =>
    have htaken : sink.taken ((t.calls.map LogCall.record).map Record.line) = _ :=
      LineSink.taken_of_error?_eq_none (by simpa using herror)
    simp only [htaken, List.length_map]

end Steady

/-- After any schedule in which no more records were logged than fit into a channel, none was
refused, and once a stop has returned the log file holds all of them. -/
theorem run_durable (hnew : ∀ outlet, sink? = some outlet → outlet.received = #[])
    (hrun : run { logger := .start config existing sink? } moves = some t)
    (hfew : t.history.length ≤ 65535) :
    (∀ call ∈ t.history, call.accepted = true) ∧
    (t.reports ≠ [] → t.logger.dropped = 0 ∧ t.logger.file?.map File.content =
      some (Record.header ++ Outlet.rows (t.history.map LogCall.record)).toUTF8) := by
  have h := run_start hrun
  refine ⟨h.roomy (Nat.lt_succ_of_le hfew), fun hreported => ?_⟩
  obtain ⟨hdone, -⟩ := h.phase.closed_of_report hreported
  have hrunning := (h.finished hnew hdone).1
  rw [h.phase.history_eq hrunning] at hfew ⊢
  have hfew : t.calls.length < Lane.queueSlots := Nat.lt_succ_of_le hfew
  exact ⟨h.dropped_eq_zero hrunning hfew, (h.durable hnew hreported hfew).1⟩

/-- A logger that is stopped after it logged no more records than fit into a channel has written all
of them to the log file. It reports what went wrong with its sink or, if nothing did, as many rows as
there were records. -/
theorem stop_durable (hnew : ∀ outlet, sink? = some outlet → outlet.received = #[])
    (hrun : run { logger := .start config existing sink? } moves = some t)
    (howner : t.owner = .free) (hopened : t.logger.running = true)
    (hfew : t.calls.length ≤ 65535) :
    t.logger.stop.2.file?.map File.content =
        some (Record.header ++ Outlet.rows (t.calls.map LogCall.record)).toUTF8 ∧
      match sink?.bind fun outlet => outlet.error? t.calls.length with
      | some error => t.logger.stop.1 = .error error
      | none => ∃ stats, t.logger.stop.1 = .ok stats ∧ stats.file.toNat = t.calls.length ∧
        stats.dropped = 0 := by
  obtain ⟨more, t', hmore, hlogger, hcalls, hreports⟩ :=
    exists_run_stop (run_start hrun) howner hopened
  have h := run_start ((run_append _ moves more).trans
    (Option.bind_eq_some_iff.mpr ⟨_, hrun, hmore⟩))
  have hreported : t'.reports ≠ [] := by simp [hreports]
  obtain ⟨hdone, later, hreport, -⟩ := h.phase.closed_of_report hreported
  rw [hreports] at hreport
  have hstop : t.logger.stop.1 = t'.logger.report := (List.cons.inj hreport).1
  have hfits : t'.calls.length < Lane.queueSlots := hcalls ▸ Nat.lt_succ_of_le hfew
  have hcontent := (h.durable hnew hreported hfits).1
  rw [hlogger, hcalls] at hcontent
  refine ⟨hcontent, ?_⟩
  have hcount : (UInt64.ofNat t.calls.length).toNat = t.calls.length :=
    UInt64.toNat_ofNat_of_lt' (by
      show _ < 2 ^ 64
      omega)
  rw [hstop]
  cases sink? with
  | none =>
    have hrunning := (h.finished hnew hdone).1
    have hfull := h.report hnew hdone
    rw [h.acceptedAt_eq hrunning hfits (Nat.succ_pos _), h.dropped_eq_zero hrunning hfits,
      List.length_map, hcalls] at hfull
    exact ⟨_, hfull, hcount, rfl⟩
  | some sink =>
    have hfull := h.report_full hnew hdone hfits
    rw [hcalls] at hfull
    rw [hfull, Option.bind_some]
    cases sink.error? t.calls.length with
    | some error => rfl
    | none => exact ⟨_, rfl, hcount, rfl⟩

/-- After any schedule of a logger with a new sink, if no more than 65535 records were logged: no
lane has refused one, and unless the owner is in the middle of logging, a stop can return. Once a
stop has returned, all workers are done; the log file and the console hold all records, and they
hold the same after any schedule of a logger without a sink; the sink has got the lines before the
one it refused, or all of them and was flushed; and the stop has reported the error of the sink, or
the full counts if there is none. Another stop reports nothing. -/
theorem run_isolates (hnew : sink.received = #[] ∧ sink.flushes = 0)
    (hrun : run { logger := .start config existing (some sink) } moves = some t)
    (hfew : t.history.length ≤ 65535) :
    (∀ call ∈ t.history, call.accepted = true) ∧
    (t.owner.call? = none →
      ∃ more t', t.run more = some t' ∧ t'.calls = t.calls ∧ t'.reports ≠ []) ∧
    (t.reports ≠ [] →
      let records := t.calls.map LogCall.record
      let lines := records.map Record.line
      (∀ lane ∈ t.logger.lanes, lane.worker.isDone = true) ∧
      (t.logger.file?.map File.content =
          some (Record.header ++ Outlet.rows records).toUTF8 ∧
        t.logger.consoleText =
          if config.console then Record.header ++ Outlet.rows records else "") ∧
      (∀ moves₀ t₀, run { logger := .start config existing } moves₀ = some t₀ →
        t₀.reports ≠ [] → t₀.calls.map LogCall.record = records →
        t.logger.file?.map File.content = t₀.logger.file?.map File.content ∧
          t.logger.consoleText = t₀.logger.consoleText) ∧
      (∃ sink', .forward sink' ∈ t.logger.lanes.map Lane.outlet ∧
        sink'.received.toList = sink.taken lines ∧
        sink'.flushes = if sink.taken lines = lines then 1 else 0) ∧
      ∃ later, t.reports = (match sink.error? lines.length with
          | some error => .error error
          | none => .ok {
            file := UInt64.ofNat records.length
            console := if config.console then UInt64.ofNat records.length else 0
            forwarded := UInt64.ofNat records.length }) :: later ∧
        ∀ report ∈ later, report = .ok {}) := by
  have h := run_start hrun
  refine ⟨h.roomy (Nat.lt_succ_of_le hfew), exists_run_reports h, ?_⟩
  intro hreported records lines
  have hsink : ∀ outlet, some sink = some outlet → outlet.received = #[] := by
    intro outlet houtlet
    cases houtlet
    exact hnew.1
  obtain ⟨hdone, later, hall, hlater⟩ := h.phase.closed_of_report hreported
  have hrunning := (h.finished hsink hdone).1
  rw [h.phase.history_eq hrunning] at hfew
  have hfew : t.calls.length < Lane.queueSlots := Nat.lt_succ_of_le hfew
  obtain ⟨hfile, hconsole⟩ := h.durable hsink hreported hfew
  refine ⟨hdone, ⟨hfile, hconsole⟩, ?_, ?_, later, ?_, ?_⟩
  · intro moves₀ t₀ hrun₀ hreported₀ hrecords
    have hlength : t₀.calls.length = t.calls.length := by
      simpa [records] using congrArg List.length hrecords
    obtain ⟨hfile₀, hconsole₀⟩ := (run_start hrun₀).durable nofun hreported₀ (hlength ▸ hfew)
    rw [hrecords] at hfile₀ hconsole₀
    exact ⟨hfile.trans hfile₀.symm, hconsole.trans hconsole₀.symm⟩
  · refine ⟨sink.after lines, h.sink_after hsink hdone hfew, rfl, ?_⟩
    rw [LineSink.after, hnew.2]
    simp only [LineSink.taken_eq_iff, Nat.zero_add, Option.isNone_iff_eq_none]
  · rw [hall, h.report_full hsink hdone hfew]
    simp only [lines, records, List.length_map]
  · rwa [h.dropped_eq_zero hrunning hfew] at hlater

/-- A sink breaks down at the second of two records. -/
theorem run_isolates_second_record : ∃ moves t,
    run { logger := .start {} {} (some { limit := some (1, .breaksDown) }) } moves = some t ∧
      t.history.length ≤ 65535 ∧
      t.calls.map LogCall.record = [⟨1, 99, 101, 0, 0, 0⟩, ⟨2, 99, 102, 5, 1, 12.5⟩] ∧
      t.logger.file?.map File.content =
        some (Record.header ++ Outlet.rows (t.calls.map LogCall.record)).toUTF8 ∧
      (∃ sink, .forward sink ∈ t.logger.lanes.map Lane.outlet ∧
        sink.received.toList = ((t.calls.map LogCall.record).map Record.line).take 1) ∧
      t.reports.head? = some (.error (.workerPanicked "forward")) := by
  obtain ⟨moves, t, hrun, hcalls, hreported⟩ := exists_run_records
    (steady_start rfl (congrArg Logger.lanes
      (Logger.start_eq {} {} (some { limit := some (1, .breaksDown) })))) rfl rfl
    [⟨1, 99, 101, 0, 0, 0⟩, ⟨2, 99, 102, 5, 1, 12.5⟩]
  have h := run_start hrun
  have hlength : t.calls.length = 2 := by simpa using congrArg List.length hcalls
  have hfew : t.history.length ≤ 65535 := by
    have hdone := (h.phase.closed_of_report hreported).1
    rw [h.phase.history_eq (h.finished (by rintro _ ⟨⟩; rfl) hdone).1, hlength]
    decide
  obtain ⟨-, -, hstopped⟩ := run_isolates ⟨rfl, rfl⟩ hrun hfew
  obtain ⟨-, ⟨hfile, -⟩, -, ⟨sink, hsink, hlines, -⟩, later, hreports, -⟩ := hstopped hreported
  refine ⟨moves, t, hrun, hfew, hcalls, hfile, ⟨sink, hsink, hlines⟩, ?_⟩
  rw [hreports, List.length_map, List.length_map, hlength]
  rfl

end Threads

end PriceTime
