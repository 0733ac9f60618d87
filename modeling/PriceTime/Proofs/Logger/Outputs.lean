import Mathlib.Data.List.Basic
import PriceTime.Proofs.Logger.Progress

/-!
# What the lanes of a logger leave behind

A logger has a lane to its log file and may have one to the console and one to a sink. When their
workers are done, the first two have written all records that they accepted, and the third one those
that the sink took.

* `Threads.Steady.lanes_eq`: the lanes of a logger.
* `Lane.Serves.finished_file`, `Lane.Serves.finished_console`, `Lane.Serves.finished_forward`,
  `Lane.Serves.refused_forward`: what is left of them.
* `Logger.report_eq`: what is reported.
-/

namespace PriceTime

/-! ## The lanes of a logger -/

namespace Logger

variable (config : LoggerConfig) (existing : File) (sink : Option LineSink)

/-- The log file a logger starts with. -/
def logWithHeader : AppendLog :=
  ((AppendLog.create existing config.bufferSize.toNat).append Record.header.toUTF8).2

theorem logWithHeader_holds : (logWithHeader config existing).Holds Record.header.toUTF8 := by
  have h := ((AppendLog.create_holds existing config.bufferSize.toNat).append Record.header.toUTF8).2
  rwa [ByteArray.empty_append] at h

/-- What the lanes of a logger write to. -/
def outlets : List Outlet :=
  .file (logWithHeader config existing) ::
    ((if config.console then [.console Record.header] else []) ++ (sink.map Outlet.forward).toList)

theorem start_eq :
    start config existing sink = { lanes := (outlets config existing sink).map Lane.ofOutlet } :=
  rfl

/-- The place of the lane to a sink, among the lanes. -/
def forwardPlace (config : LoggerConfig) : Nat :=
  if config.console then 2 else 1

end Logger

namespace Threads

variable {t : Threads} {config : LoggerConfig} {existing : File} {sink : Option LineSink}
  {moves : List Move}

theorem run_start
    (hrun : run { logger := Logger.start config existing sink } moves = some t) :
    t.Steady (Logger.outlets config existing sink) :=
  run_steady (steady_start rfl (congrArg Logger.lanes (Logger.start_eq ..))) hrun

/-- The lanes of a logger, some of which there need not be. -/
theorem Steady.lanes_eq (h : t.Steady (Logger.outlets config existing sink)) :
    ∃ file console forward, t.logger.lanes = file :: ((if config.console then [console] else []) ++
        (if sink.isSome then [forward] else [])) ∧
      file.Serves (.file (Logger.logWithHeader config existing)) t.logger.running
        (acceptedAt 0 t.history) (refusedAt 0 t.history) ∧
      (config.console = true → console.Serves (.console Record.header) t.logger.running
        (acceptedAt 1 t.history) (refusedAt 1 t.history)) ∧
      ∀ outlet, sink = some outlet → forward.Serves (.forward outlet) t.logger.running
        (acceptedAt (Logger.forwardPlace config) t.history)
        (refusedAt (Logger.forwardPlace config) t.history) := by
  have hlength := h.lanes_length
  have hserves := @h.serves
  unfold Logger.outlets at hlength hserves
  unfold Logger.forwardPlace
  generalize t.logger.lanes = lanes at hlength hserves
  generalize config.console = hasConsole at hlength hserves ⊢
  cases hasConsole <;> cases sink
  · obtain ⟨file, rfl⟩ := List.length_eq_one_iff.mp hlength
    exact ⟨file, file, file, rfl, hserves rfl rfl, nofun, nofun⟩
  · obtain ⟨file, forward, rfl⟩ := List.length_eq_two.mp hlength
    refine ⟨file, file, forward, rfl, hserves rfl rfl, nofun, ?_⟩
    intro _ hsink
    cases hsink
    exact hserves rfl rfl
  · obtain ⟨file, console, rfl⟩ := List.length_eq_two.mp hlength
    exact ⟨file, console, file, rfl, hserves rfl rfl, fun _ => hserves rfl rfl, nofun⟩
  · obtain ⟨file, console, forward, rfl⟩ := List.length_eq_three.mp hlength
    refine ⟨file, console, forward, rfl, hserves rfl rfl, fun _ => hserves rfl rfl, ?_⟩
    intro _ hsink
    cases hsink
    exact hserves rfl rfl

end Threads

/-! ## Workers that are done -/

namespace Lane.Serves

variable {lane : Lane} {running : Bool} {accepted : List Record} {refused : Nat}

theorem finished_file {log : AppendLog} {text : String}
    (h : lane.Serves (.file log) running accepted refused) (hlog : log.Holds text.toUTF8)
    (hdone : lane.worker.isDone = true) :
    running = false ∧ lane.worker = .done (.ok ()) ∧
      lane.lines = UInt64.ofNat accepted.length ∧ ∃ log', lane.outlet = .file log' ∧
        log'.file.content = (text ++ Outlet.rows accepted).toUTF8 := by
  obtain ⟨result, n, hworker, hlines, hdeliver, hfailed⟩ := h.delivered hdone
  obtain ⟨log', hwritten, hcontent⟩ := Outlet.deliver_file hlog accepted
  obtain ⟨rfl, houtlet, rfl⟩ : result = .ok () ∧ lane.outlet = .file log' ∧ n = accepted.length := by
    rw [hdeliver] at hwritten
    simpa using hwritten
  exact ⟨Bool.eq_false_iff.mpr fun hrunning => hfailed hrunning rfl, hworker, hlines, log', houtlet,
    hcontent⟩

theorem finished_console {text : String}
    (h : lane.Serves (.console text) running accepted refused)
    (hdone : lane.worker.isDone = true) :
    lane.worker = .done (.ok ()) ∧ lane.lines = UInt64.ofNat accepted.length ∧
      lane.outlet = .console (text ++ Outlet.rows accepted) := by
  obtain ⟨result, n, hworker, hlines, hdeliver, -⟩ := h.delivered hdone
  rw [Outlet.deliver_console] at hdeliver
  obtain ⟨rfl, houtlet, rfl⟩ : Except.ok () = result ∧
      Outlet.console (text ++ Outlet.rows accepted) = lane.outlet ∧ accepted.length = n := by
    simpa using hdeliver
  exact ⟨hworker, hlines, houtlet.symm⟩

/-- A sink has taken the lines up to the first one that it refused, and it was flushed if there was
none. -/
theorem finished_forward {sink : LineSink}
    (h : lane.Serves (.forward sink) running accepted refused) (hnew : sink.received = #[])
    (hdone : lane.worker.isDone = true) :
    lane.worker = .done (sink.outcome accepted.length) ∧
      lane.lines = UInt64.ofNat (sink.taken (accepted.map Record.line)).length ∧
      lane.outlet = .forward (sink.after (accepted.map Record.line)) := by
  obtain ⟨result, n, hworker, hlines, hdeliver, -⟩ := h.delivered hdone
  rw [Outlet.deliver_forward_new hnew] at hdeliver
  obtain ⟨rfl, houtlet, rfl⟩ : sink.outcome accepted.length = result ∧
      Outlet.forward (sink.after (accepted.map Record.line)) = lane.outlet ∧
        (sink.taken (accepted.map Record.line)).length = n := by
    simpa using hdeliver
  exact ⟨hworker, hlines, houtlet.symm⟩

end Lane.Serves

/-! ## What is shown and reported -/

/-- The error that a new sink makes a logger report after so many lines, if it does. -/
def LineSink.error? (sink : LineSink) (lines : Nat) : Option LoggerError :=
  match sink.refusal? lines with
  | some (.fails failure) => some (.io failure)
  | some .breaksDown => some (.workerPanicked "forward")
  | none => sink.flushFailure.map LoggerError.io

namespace Logger

variable {logger : Logger} {file console forward : Lane} {hasConsole hasSink : Bool}

theorem laneError?_of_ok {lane : Lane} (hworker : lane.worker = .done (.ok ())) :
    laneError? lane = none := by
  rw [laneError?, hworker]

theorem laneError?_forward {lane : Lane} {sink sink' : LineSink} {lines : Nat}
    (hworker : lane.worker = .done (sink.outcome lines)) (houtlet : lane.outlet = .forward sink') :
    laneError? lane = sink.error? lines := by
  rw [laneError?, hworker, houtlet, LineSink.outcome, LineSink.error?]
  cases sink.refusal? lines with
  | none => cases sink.flushFailure <;> rfl
  | some refusal => cases refusal <;> rfl

/-- What is shown by the lanes of a logger, some of which there need not be. -/
theorem shown_eq {log : AppendLog} {text : String} (sink : LineSink)
    (hlanes : logger.lanes = file :: ((if hasConsole then [console] else []) ++
      (if hasSink then [forward] else [])))
    (hfile : file.outlet = .file log)
    (hconsole : hasConsole = true → console.outlet = .console text)
    (hforward : hasSink = true → forward.outlet = .forward sink) :
    logger.file? = some log.file ∧ logger.consoleText = (if hasConsole then text else "") ∧
      logger.forwarded = if hasSink then sink.received.toList else [] := by
  rw [file?, consoleText, forwarded, hlanes]
  cases hasConsole <;> cases hasSink <;> simp_all

theorem report_eq {log : AppendLog} {text : String} (error? : Option LoggerError)
    (sink : LineSink)
    (hlanes : logger.lanes = file :: ((if hasConsole then [console] else []) ++
      (if hasSink then [forward] else [])))
    (hfile : laneError? file = none ∧ file.outlet = .file log)
    (hconsole : hasConsole = true → laneError? console = none ∧ console.outlet = .console text)
    (hforward : hasSink = true → laneError? forward = error? ∧ forward.outlet = .forward sink) :
    logger.report = match if hasSink then error? else none with
      | some error => .error error
      | none => .ok {
        file := file.lines
        console := if hasConsole then console.lines else 0
        forwarded := if hasSink then forward.lines else 0
        dropped := logger.dropped } := by
  rw [report, hlanes]
  cases hasConsole <;> cases hasSink <;> cases error? <;> simp_all [countLane]

end Logger

namespace Threads

variable {t : Threads} {config : LoggerConfig} {existing : File} {sink : Option LineSink}

theorem Phase.history_eq (h : t.Phase) (hrunning : t.logger.running = false) :
    t.history = t.calls := by
  cases h with
  | opened hopened => exact absurd hopened (hrunning ▸ Bool.false_ne_true)
  | closing _ howner => exact history_of_free (howner ▸ rfl)
  | closed _ howner =>
    obtain howner | howner := howner
    · exact history_of_free (howner ▸ rfl)
    · exact history_of_free (howner ▸ rfl)

namespace Steady

/-- As long as the records fit into a channel, every lane accepts all of them. -/
theorem acceptedAt_eq {outlets : List Outlet} {place : Nat} (h : t.Steady outlets)
    (hrunning : t.logger.running = false) (hfew : t.calls.length < Lane.queueSlots)
    (hplace : place < outlets.length) :
    acceptedAt place t.calls = t.calls.map LogCall.record := by
  have hhistory := h.phase.history_eq hrunning
  refine acceptedAt_of_accepted (fun call hmem => ?_) fun call hmem => ?_
  · rw [h.answered call hmem]
    exact hplace
  · rw [← h.heard call (hhistory ▸ hmem)]
    exact h.roomy (hhistory ▸ hfew) call (hhistory ▸ hmem)

/-- When all workers are done, the logger was stopped, and the lanes have written what they
accepted. -/
theorem finished (h : t.Steady (Logger.outlets config existing sink))
    (hnew : ∀ outlet, sink = some outlet → outlet.received = #[])
    (hdone : ∀ lane ∈ t.logger.lanes, lane.worker.isDone = true) :
    t.logger.running = false ∧ ∃ file console forward, t.logger.lanes = file ::
        ((if config.console then [console] else []) ++ (if sink.isSome then [forward] else [])) ∧
      (file.worker = .done (.ok ()) ∧ file.lines = UInt64.ofNat (acceptedAt 0 t.calls).length ∧
        ∃ log, file.outlet = .file log ∧ log.file.content =
          (Record.header ++ Outlet.rows (acceptedAt 0 t.calls)).toUTF8) ∧
      (config.console = true → console.worker = .done (.ok ()) ∧
        console.lines = UInt64.ofNat (acceptedAt 1 t.calls).length ∧
        console.outlet = .console (Record.header ++ Outlet.rows (acceptedAt 1 t.calls))) ∧
      ∀ outlet, sink = some outlet →
        let accepted := acceptedAt (Logger.forwardPlace config) t.calls
        forward.worker = .done (outlet.outcome accepted.length) ∧
          forward.lines = UInt64.ofNat (outlet.taken (accepted.map Record.line)).length ∧
          forward.outlet = .forward (outlet.after (accepted.map Record.line)) := by
  obtain ⟨file, console, forward, hlanes, hfile, hconsole, hforward⟩ := h.lanes_eq
  rw [hlanes] at hdone
  obtain ⟨hrunning, hfile⟩ := hfile.finished_file (Logger.logWithHeader_holds config existing)
    (hdone file List.mem_cons_self)
  rw [h.phase.history_eq hrunning] at hfile hconsole hforward
  refine ⟨hrunning, file, console, forward, hlanes, hfile, ?_, ?_⟩
  · intro hhas
    exact (hconsole hhas).finished_console (hdone console (by simp [hhas]))
  · intro outlet hsink
    exact (hforward outlet hsink).finished_forward (hnew outlet hsink)
      (hdone forward (by simp [hsink]))

theorem shown (h : t.Steady (Logger.outlets config existing sink))
    (hnew : ∀ outlet, sink = some outlet → outlet.received = #[])
    (hdone : ∀ lane ∈ t.logger.lanes, lane.worker.isDone = true) :
    t.logger.file?.map File.content =
        some (Record.header ++ Outlet.rows (acceptedAt 0 t.calls)).toUTF8 ∧
      t.logger.consoleText = (if config.console then
        Record.header ++ Outlet.rows (acceptedAt 1 t.calls) else "") ∧
      t.logger.forwarded = sink.elim [] fun outlet =>
        outlet.taken ((acceptedAt (Logger.forwardPlace config) t.calls).map Record.line) := by
  obtain ⟨-, file, console, forward, hlanes, ⟨-, -, log, hfile, hcontent⟩, hconsole, hforward⟩ :=
    h.finished hnew hdone
  cases sink with
  | none =>
    obtain ⟨hlog, htext, hlines⟩ := Logger.shown_eq {} hlanes hfile
      (fun hhas => (hconsole hhas).2.2) nofun
    exact ⟨by rw [hlog, Option.map_some, hcontent], htext, hlines⟩
  | some outlet =>
    obtain ⟨hlog, htext, hlines⟩ := Logger.shown_eq _ hlanes hfile
      (fun hhas => (hconsole hhas).2.2) fun _ => (hforward outlet rfl).2.2
    exact ⟨by rw [hlog, Option.map_some, hcontent], htext, hlines⟩

theorem report (h : t.Steady (Logger.outlets config existing sink))
    (hnew : ∀ outlet, sink = some outlet → outlet.received = #[])
    (hdone : ∀ lane ∈ t.logger.lanes, lane.worker.isDone = true) :
    let forwards := acceptedAt (Logger.forwardPlace config) t.calls
    t.logger.report = match sink.bind fun outlet => outlet.error? forwards.length with
      | some error => .error error
      | none => .ok {
        file := UInt64.ofNat (acceptedAt 0 t.calls).length
        console := if config.console then UInt64.ofNat (acceptedAt 1 t.calls).length else 0
        forwarded := sink.elim 0 fun outlet =>
          UInt64.ofNat (outlet.taken (forwards.map Record.line)).length
        dropped := t.logger.dropped } := by
  intro forwards
  obtain ⟨-, file, console, forward, hlanes, ⟨hworker, hlines, log, hfile, -⟩, hconsole, hforward⟩ :=
    h.finished hnew hdone
  have hfile := And.intro (Logger.laneError?_of_ok hworker) hfile
  have hprinted : config.console = true →
      Logger.laneError? console = none ∧ console.outlet = _ := fun hhas =>
    ⟨Logger.laneError?_of_ok (hconsole hhas).1, (hconsole hhas).2.2⟩
  have hcount : (if config.console then console.lines else 0) =
      if config.console then UInt64.ofNat (acceptedAt 1 t.calls).length else 0 := by
    split
    · rename_i hhas
      exact (hconsole hhas).2.1
    · rfl
  cases sink with
  | none =>
    rw [Logger.report_eq none {} hlanes hfile hprinted nofun, hcount, hlines]
    rfl
  | some outlet =>
    obtain ⟨hended, hsent, houtlet⟩ := hforward outlet rfl
    rw [Logger.report_eq _ _ hlanes hfile hprinted fun _ =>
      ⟨Logger.laneError?_forward hended houtlet, houtlet⟩, hcount, hlines, hsent]
    rfl

end Steady

end Threads

end PriceTime
