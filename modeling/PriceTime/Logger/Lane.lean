import PriceTime.AppendLog
import PriceTime.Channel
import PriceTime.LineSink
import PriceTime.Record

/-!
# Lanes of a logger

A lane carries records through a channel to one outlet. Its worker takes the records out one by one
and writes them. When it finds the channel empty, it first looks whether the logger still runs and
then, if not, whether the channel is still empty; only then is it done. These are separate steps,
and other things may happen between them.
-/

namespace PriceTime

/-- Where a lane writes its records. -/
inductive Outlet where
  /-- To the log file, as rows. -/
  | file (log : AppendLog)
  /-- To the console, as rows. The text is what was printed so far. -/
  | console (text : String)
  /-- To a sink, as lines. -/
  | forward (sink : LineSink)

/-- The name of an outlet. -/
def Outlet.label : Outlet → String
  | file _ => "file"
  | console _ => "console"
  | forward _ => "forward"

/-- Why a worker stopped before its time. -/
inductive WorkerFailure where
  /-- Its outlet failed. -/
  | io (failure : Failure)
  /-- It broke down. -/
  | panicked
deriving DecidableEq

/-- Why a sink's refusal stops a worker. -/
def Refusal.toWorkerFailure : Refusal → WorkerFailure
  | fails failure => .io failure
  | breaksDown => .panicked

namespace Outlet

/-- Write one record. -/
def write (outlet : Outlet) (record : Record) : Except WorkerFailure Unit × Outlet :=
  match outlet with
  | file log =>
    let (answer, log) := log.append record.row.toUTF8
    (answer.mapError .io, file log)
  | console text => (.ok (), console (text ++ record.row))
  | forward sink =>
    let (answer, sink) := sink.send record.line
    (answer.mapError Refusal.toWorkerFailure, forward sink)

/-- Finish after all records were written. -/
def finish (outlet : Outlet) : Except WorkerFailure Unit × Outlet :=
  match outlet with
  | file log => (.ok (), file log.close)
  | console text => (.ok (), console text)
  | forward sink =>
    let (answer, sink) := sink.flush
    (answer.mapError .io, forward sink)

/-- Give up after a record could not be written. A log file is closed all the same. -/
def abandon (outlet : Outlet) : Outlet :=
  match outlet with
  | file log => file log.close
  | console text => console text
  | forward sink => forward sink

end Outlet

/-- What a worker does next. -/
inductive Worker where
  /-- Take a record. -/
  | polling
  /-- It found no record: look whether the logger still runs. -/
  | idle
  /-- The logger does not run: look whether there is still no record. -/
  | leaving
  /-- Nothing: it wrote all records, or failed. -/
  | done (result : Except WorkerFailure Unit)

/-- Whether the worker has nothing more to do. -/
def Worker.isDone : Worker → Bool
  | done _ => true
  | _ => false

/-- One way from a logger to an outlet. -/
structure Lane where
  outlet : Outlet
  queue : Channel Record
  worker : Worker := .polling
  /-- How many records were written. -/
  lines : UInt64 := 0

namespace Lane

/-- The slots of a lane's ring. -/
def queueSlots : Nat := 65536

/-- A lane to an outlet. -/
def ofOutlet (outlet : Outlet) : Lane where
  outlet
  queue := .ofSlots queueSlots

/-- Put a record into the channel: whether there was room for it. -/
def offer (lane : Lane) (record : Record) : Bool × Lane :=
  let ⟨outlet, queue, worker, lines⟩ := lane
  let (answer, queue) := queue.enqueue record
  (answer.isOk, ⟨outlet, queue, worker, lines⟩)

/-- Take the next record and write it. -/
def poll (lane : Lane) : Lane :=
  let ⟨outlet, queue, _, lines⟩ := lane
  match queue.dequeue with
  | (none, queue) => ⟨outlet, queue, .idle, lines⟩
  | (some record, queue) =>
    match outlet.write record with
    | (.ok _, outlet) => ⟨outlet, queue, .polling, lines + 1⟩
    | (.error failure, outlet) => ⟨outlet.abandon, queue, .done (.error failure), lines⟩

/-- Finish the outlet. -/
def finish (lane : Lane) : Lane :=
  let ⟨outlet, queue, _, lines⟩ := lane
  let (result, outlet) := outlet.finish
  ⟨outlet, queue, .done result, lines⟩

/-- One step of the worker. -/
def step (running : Bool) (lane : Lane) : Lane :=
  match lane.worker with
  | .polling => lane.poll
  | .idle => { lane with worker := if running then .polling else .leaving }
  | .leaving => if lane.queue.ring.isEmpty then lane.finish else { lane with worker := .polling }
  | .done _ => lane

/-- Steps of the worker until it is done, at most `n` of them. -/
def run (running : Bool) : (n : Nat) → Lane → Lane
  | 0, lane => lane
  | n + 1, lane => if lane.worker.isDone then lane else run running n (lane.step running)

/-- Let the worker finish after the logger stopped. It takes at most two steps to get back to the
records, one for each of them, and three to see that there are no more and to finish. -/
def drain (lane : Lane) : Lane :=
  lane.run false (lane.queue.ring.size + 5)

end Lane

end PriceTime
