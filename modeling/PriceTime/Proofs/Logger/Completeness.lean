import PriceTime.Proofs.Logger.Outputs

/-!
# No record is lost or written twice

Whatever the order in which the owner of a logger and its workers act, the log file, the console and
the sink get exactly what their lanes accepted, in the order in which it was logged. What a lane did
not accept it has counted, and the owner was told so.

* `Threads.run_delivers`: every schedule, once all workers are done.
-/

namespace PriceTime

namespace Threads

variable {config : LoggerConfig} {existing : File} {forwards : Bool} {moves : List Move}
  {t : Threads}

/-- After any schedule of a logger whose outlets do not fail, once all workers are done: a call has
asked every lane, and was accepted if none of them refused; every outlet holds what its lane
accepted, and nothing else; every lane has accepted or refused each record; and the stop reports how
many records were written and how many refused. If it has not reported yet, it still can. -/
theorem run_delivers
    (hrun : run { logger := .start config existing (if forwards then some {} else none) } moves =
      some t)
    (hdone : ∀ lane ∈ t.logger.lanes, lane.worker.isDone = true) :
    (∀ call ∈ t.calls, call.answers.length = t.logger.lanes.length ∧
      (call.accepted = true ↔ ∀ answer ∈ call.answers, answer = true)) ∧
    (t.logger.file?.map File.content =
        some (Record.header ++ Outlet.rows (acceptedAt 0 t.calls)).toUTF8 ∧
      t.logger.consoleText = (if config.console then
        Record.header ++ Outlet.rows (acceptedAt 1 t.calls) else "") ∧
      t.logger.forwarded = if forwards then
        (acceptedAt (Logger.forwardPlace config) t.calls).map Record.line else []) ∧
    (∀ place, (hplace : place < t.logger.lanes.length) →
      t.logger.lanes[place].queue.dropped = UInt64.ofNat (refusedAt place t.calls) ∧
        (acceptedAt place t.calls).length + refusedAt place t.calls = t.calls.length) ∧
    t.logger.report = .ok {
      file := UInt64.ofNat (acceptedAt 0 t.calls).length
      console := if config.console then UInt64.ofNat (acceptedAt 1 t.calls).length else 0
      forwarded := if forwards then
        UInt64.ofNat (acceptedAt (Logger.forwardPlace config) t.calls).length else 0
      dropped := UInt64.ofNat ((List.range t.logger.lanes.length).map fun place =>
        refusedAt place t.calls).sum } ∧
    (∀ report ∈ t.reports.head?, report = t.logger.report) ∧
    (t.reports = [] → ∃ more t', t.run more = some t' ∧ t'.logger = t.logger ∧
      t'.calls = t.calls ∧ t'.reports = [t.logger.report]) := by
  have h := run_start hrun
  have hnew : ∀ outlet : LineSink, (if forwards then some {} else none) = some outlet →
      outlet.received = #[] := by
    intro outlet hsink
    split at hsink <;> cases hsink
    rfl
  have hrunning := (h.finished hnew hdone).1
  have hhistory := h.phase.history_eq hrunning
  have hanswered : ∀ call ∈ t.calls, call.answers.length = t.logger.lanes.length := by
    rw [h.lanes_length]
    exact h.answered
  refine ⟨?_, ?_, ?_, ?_, ?_, exists_run_report h hrunning hdone⟩
  · intro call hmem
    refine ⟨hanswered call hmem, ?_⟩
    rw [h.heard call (hhistory ▸ hmem)]
    simp
  · obtain ⟨hfile, hconsole, hforward⟩ := h.shown hnew hdone
    refine ⟨hfile, hconsole, hforward.trans ?_⟩
    split <;> rfl
  · intro place hplace
    refine ⟨?_, ?_⟩
    · have hserves := h.serves (List.getElem?_eq_getElem (h.lanes_length ▸ hplace))
        (List.getElem?_eq_getElem hplace)
      rw [hserves.dropped_eq, hhistory]
    · refine acceptedAt_add_refusedAt fun call hmem => ?_
      rw [hanswered call hmem]
      exact hplace
  · rw [h.report hnew hdone, h.dropped_eq, hhistory, ← h.lanes_length]
    cases forwards <;> simp [LineSink.error?, LineSink.refusal?, LineSink.taken]
  · intro report hreport
    have hreported : t.reports ≠ [] := by
      rintro hnone
      rw [hnone] at hreport
      cases hreport
    obtain ⟨-, later, hall, -⟩ := h.phase.closed_of_report hreported
    rw [hall] at hreport
    cases hreport
    rfl

/-- Two records, written to a log file, printed on the console and handed to a sink. -/
theorem run_delivers_two_records : ∃ moves t,
    run { logger := .start { console := true } {} (if true then some {} else none) } moves = some t ∧
      (∀ lane ∈ t.logger.lanes, lane.worker.isDone = true) ∧
      t.calls.map LogCall.record = [⟨1, 99, 101, 0, 0, 0⟩, ⟨2, 99, 102, 5, 1, 12.5⟩] ∧
      t.logger.file?.map File.content =
        some (Record.header ++ Outlet.rows (t.calls.map LogCall.record)).toUTF8 ∧
      t.logger.consoleText = Record.header ++ Outlet.rows (t.calls.map LogCall.record) ∧
      t.logger.forwarded = (t.calls.map LogCall.record).map Record.line ∧
      ∀ place < 3, refusedAt place t.calls = 0 := by
  obtain ⟨moves, t, hrun, hcalls, hreported⟩ := exists_run_records
    (steady_start rfl (congrArg Logger.lanes
      (Logger.start_eq { console := true } {} (if true then some {} else none)))) rfl rfl
    [⟨1, 99, 101, 0, 0, 0⟩, ⟨2, 99, 102, 5, 1, 12.5⟩]
  have h := run_start hrun
  have hdone := (h.phase.closed_of_report hreported).1
  have hrunning := (h.finished (by rintro _ ⟨⟩; rfl) hdone).1
  have hlength : t.calls.length = 2 := by simpa using congrArg List.length hcalls
  have hall : ∀ place < 3, acceptedAt place t.calls = t.calls.map LogCall.record :=
    fun place hplace => h.acceptedAt_eq hrunning (by rw [hlength]; decide) hplace
  obtain ⟨-, ⟨hfile, hconsole, hforward⟩, hlanes, -⟩ := run_delivers hrun hdone
  refine ⟨moves, t, hrun, hdone, hcalls, ?_, ?_, ?_, ?_⟩
  · rw [hfile, hall 0 (by decide)]
  · rw [hconsole, if_pos rfl, hall 1 (by decide)]
  · rw [hforward, if_pos rfl, show Logger.forwardPlace { console := true } = 2 from rfl,
      hall 2 (by decide)]
  · intro place hplace
    have hbalance := (hlanes place (by rw [h.lanes_length]; exact hplace)).2
    rw [hall place hplace, List.length_map] at hbalance
    omega

end Threads

end PriceTime
