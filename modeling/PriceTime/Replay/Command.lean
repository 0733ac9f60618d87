import PriceTime.FileTree
import PriceTime.Replay.Basic
import PriceTime.Replay.Options

/-!
# The replay command

What the command does with its options: it reads the settings, makes room for the book, opens the
trading log, replays, and prints a summary. Each of these can fail, and then there is no summary. The
first three leave the files as they were, and from then on the trading log exists. If the logger
fails in the end, as it does when records could not be forwarded, the log is written all the same.
-/

namespace PriceTime

/-- Why the command fails. -/
inductive CommandError where
  /-- Its options cannot be read. -/
  | usage (error : UsageError)
  /-- The settings cannot be read. -/
  | config (error : ConfigError)
  /-- There is no room for the book. -/
  | room (error : RoomError)
  /-- The trading log cannot be opened. -/
  | log (failure : Failure)
  /-- The replay ended before its time. -/
  | replay (error : ReplayError)
deriving DecidableEq

/-- What the trading log holds after an error, when the replay has come to its end. -/
def CommandError.log? : CommandError → Option File
  | replay (.logger _ file _) => some file
  | _ => none

/-- What the records printed on the console before an error, when the replay has come to its end. -/
def CommandError.console : CommandError → String
  | replay (.logger _ _ text) => text
  | _ => ""

/-- The exit code after an error. Without memory, the command does not get as far as that. -/
def CommandError.exitCode? : CommandError → Option UInt32
  | usage _ => some 2
  | room .tooLarge => some 101
  | room .exhausted => none
  | config _ | log _ | replay _ => some 1

namespace Command

/-- What the command leaves behind when it succeeds. -/
structure Outcome where
  /-- What the trading log holds. -/
  log : File
  /-- What the records printed on the console. -/
  console : String
  /-- The summary, given lines about the time it took. -/
  summary : List String → List String

/-- The settings in force, given the options and what reading the settings file gave. -/
def settings (options : Options) (content : Option (Except Failure ByteArray)) :
    Except CommandError Config :=
  match content with
  | none => .ok (options.applyTo {})
  | some content =>
    match Config.ofFile content with
    | .ok config => .ok (options.applyTo config)
    | .error error => .error (.config error)

/-- The settings in force, when there is room for the book. -/
def prepare (options : Options) (content : Option (Except Failure ByteArray)) :
    Except CommandError Config :=
  match settings options content with
  | .error error => .error error
  | .ok config =>
    match config.book.makeRoom with
    | .ok _ => .ok config
    | .error error => .error (.room error)

/-- Replay into a trading log, given what opening it gave. -/
def run (options : Options) (config : Config) (opened : Except Failure File)
    (network : Network := .silent) : Except CommandError Outcome :=
  match Logger.logFile config.logger opened with
  | .error failure => .error (.log failure)
  | .ok file =>
    match Replay.finish config file options.messages options.every
        (options.forward.map network.sink) with
    | .error error => .error (.replay error)
    | .ok finished =>
      .ok {
        log := finished.logger.file?.getD {}
        console := finished.logger.consoleText
        summary := Replay.summary finished.session finished.stats }

/-- Run the command with its options on a file tree: what it leaves behind, and the file tree
afterwards. -/
def runOn (t : FileTree) (options : Options) (network : Network := .silent) :
    Except CommandError Outcome × FileTree :=
  match prepare options (options.config.map t.read) with
  | .error error => (.error error, t)
  | .ok config =>
    match t.write config.logger.path {} with
    | .error failure => (run options config (.error failure) network, t)
    | .ok t =>
      let keep (log : File) : FileTree := (t.write config.logger.path log).toOption.getD t
      match run options config (.ok {}) network with
      | .error error => (.error error, error.log?.elim t keep)
      | .ok outcome => (.ok outcome, keep outcome.log)

/-- Run the command with the words of its command line on a file tree. -/
def ofWords (t : FileTree) (words : List String) (network : Network := .silent) :
    Except CommandError Outcome × FileTree :=
  match Options.ofWords words with
  | .error error => (.error (.usage error), t)
  | .ok options => runOn t options network

end Command

end PriceTime
