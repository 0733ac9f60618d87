import PriceTime.Logger.Lane
import PriceTime.LoggerConfig

/-!
# Trading loggers

A logger copies every record into its lanes and returns at once; the workers of the lanes write. The
first lane writes the log file, a second one may write to the console and a third one to a sink.

To stop, the logger says that it does not run any more, lets every worker finish, and reports how
many records each of them wrote, or the first failure among them.
-/

namespace PriceTime

/-- What went wrong with a logger. -/
inductive LoggerError where
  /-- A file or a sink failed. -/
  | io (failure : Failure)
  /-- A worker could not be started. -/
  | workerSpawn (lane : String) (cause : Failure)
  /-- A worker broke down. -/
  | workerPanicked (lane : String)
deriving DecidableEq

/-- The words for an error. -/
def LoggerError.message : LoggerError → String
  | io failure => "log I/O failed: " ++ failure.message
  | workerSpawn lane cause => "failed to spawn " ++ lane ++ " log worker: " ++ cause.message
  | workerPanicked lane => lane ++ " log worker panicked"

/-- How many records were written, and how many were turned down by full rings. -/
structure LoggerStats where
  file : UInt64 := 0
  console : UInt64 := 0
  forwarded : UInt64 := 0
  dropped : UInt64 := 0
deriving DecidableEq

/-- A logger with its lanes. -/
structure Logger where
  running : Bool := true
  lanes : List Lane

namespace Logger

/-- What is reported of a log file that cannot be made long enough. -/
def tooLarge : Failure where
  kind := .fileTooLarge
  message := "File too large (os error 27)"

/-- What is reported of a length that does not fit into a request. -/
def outOfRange : Failure where
  kind := .invalidInput
  message := "number too large to fit in target type"

/-- The log file a logger can start on, given what opening it gave: it must be possible to make the
file as long as the settings say. -/
def logFile (config : LoggerConfig) (opened : Except Failure File) : Except Failure File :=
  match opened with
  | .error failure => .error failure
  | .ok file =>
    if File.maxRequest < config.bufferSize.toNat then .error outOfRange
    else if File.maxSize < config.bufferSize.toNat then .error tooLarge
    else .ok file

/-- Start a logger on a log file, with a lane to a sink if there is one. The file starts with the
header, and so does the console. -/
def start (config : LoggerConfig) (existing : File) (sink : Option LineSink := none) : Logger :=
  let (_, log) := (AppendLog.create existing config.bufferSize.toNat).append Record.header.toUTF8
  let outlets := [Outlet.file log] ++ (if config.console then [.console Record.header] else []) ++
    (sink.map Outlet.forward).toList
  { lanes := outlets.map Lane.ofOutlet }

/-- Copy a record into every lane: whether all of them had room. -/
def log (logger : Logger) (record : Record) : Bool × Logger :=
  let ⟨running, lanes⟩ := logger
  let offered := lanes.map fun lane => lane.offer record
  (offered.all Prod.fst, ⟨running, offered.map Prod.snd⟩)

/-- One step of every worker. -/
def work (logger : Logger) : Logger :=
  let ⟨running, lanes⟩ := logger
  ⟨running, lanes.map (Lane.step running)⟩

/-- How many records were turned down, over all lanes. -/
def dropped (logger : Logger) : UInt64 :=
  logger.lanes.foldl (fun sum lane => sum + lane.queue.dropped) 0

/-- Enter the records that a lane wrote. -/
def countLane (stats : LoggerStats) (lane : Lane) : LoggerStats :=
  match lane.outlet with
  | .file _ => { stats with file := lane.lines }
  | .console _ => { stats with console := lane.lines }
  | .forward _ => { stats with forwarded := lane.lines }

/-- The error of a lane whose worker failed. -/
def laneError? (lane : Lane) : Option LoggerError :=
  match lane.worker with
  | .done (.error (.io failure)) => some (.io failure)
  | .done (.error .panicked) => some (.workerPanicked lane.outlet.label)
  | _ => none

/-- What a logger reports when all its workers are done. -/
def report (logger : Logger) : Except LoggerError LoggerStats :=
  match logger.lanes.findSome? laneError? with
  | some error => .error error
  | none => .ok (logger.lanes.foldl countLane { dropped := logger.dropped })

/-- Stop: let every worker finish. -/
def stop (logger : Logger) : Except LoggerError LoggerStats × Logger :=
  let logger : Logger := { running := false, lanes := logger.lanes.map Lane.drain }
  (logger.report, logger)

/-! ## What was written -/

/-- The log file. -/
def file? (logger : Logger) : Option File :=
  logger.lanes.findSome? fun lane =>
    match lane.outlet with
    | .file log => some log.file
    | _ => none

/-- What was printed on the console. -/
def consoleText (logger : Logger) : String :=
  String.join (logger.lanes.filterMap fun lane =>
    match lane.outlet with
    | .console text => some text
    | _ => none)

/-- The lines the sink took. -/
def forwarded (logger : Logger) : List String :=
  logger.lanes.flatMap fun lane =>
    match lane.outlet with
    | .forward sink => sink.received.toList
    | _ => []

end Logger

end PriceTime
