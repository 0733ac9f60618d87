import PriceTime.Replay.Command

/-!
# The replay program

The outermost layer: files, the clock and the console. It has no network, so to it nobody listens at
any address.
-/

namespace PriceTime.Program

/-- What is reported of a failed file operation. -/
def failureOf : IO.Error → Failure
  | .noFileOrDirectory .. => .noSuchFile
  | error => { kind := .other, message := toString error }

/-- Try a file operation. -/
def attempt {α : Type} (act : IO α) : IO (Except Failure α) := do
  try return .ok (← act)
  catch error => return .error (failureOf error)

/-- The words for a failure of the command. -/
def describe : CommandError → String
  | .usage error => error.message
  | .config error => "loading config: " ++ error.message
  | .room error => error.message
  | .log failure => "starting trading logger: " ++ (LoggerError.io failure).message
  | .replay (.corrupted seq error) =>
    "message " ++ Decimal.ofNat seq ++ " corrupted the book: " ++ error.message
  | .replay (.fault fault) => fault.message
  | .replay (.logger error ..) => "stopping trading logger: " ++ error.message

/-- The lines about the time a replay took. -/
def timing (messages : UInt64) (nanos : Nat) : List String :=
  let seconds := Float.ofNat nanos / 1e9
  let least := 2.220446049250313e-16
  let rate := messages.toFloat / (if seconds < least then least else seconds)
  [Replay.summaryLine "Elapsed" (Decimal.fixed 2 (seconds * 1000) ++ " ms"),
    Replay.summaryLine "Throughput" (Decimal.fixed 0 rate ++ " msgs/sec")]

/-- Read the settings, if a file is named. -/
def readConfig (options : Options) : IO (Option (Except Failure ByteArray)) := do
  match options.config with
  | some path => return some (← attempt (IO.FS.readBinFile path.text))
  | none => return none

/-- Run the command with its options. -/
def run (options : Options) : IO (Except CommandError Unit) := do
  match Command.prepare options (← readConfig options) with
  | .error error => return .error error
  | .ok config =>
    let path := config.logger.path.text
    let opened ← attempt (do IO.FS.writeFile path ""; return ({} : File))
    let before ← IO.monoNanosNow
    match Command.run options config opened with
    | .error error =>
      if let some log := error.log? then IO.FS.writeBinFile path log.content
      IO.print error.console
      return .error error
    | .ok outcome =>
      let after ← IO.monoNanosNow
      IO.FS.writeBinFile path outcome.log.content
      IO.print outcome.console
      for line in outcome.summary (timing options.messages (after - before)) do
        IO.println line
      return .ok ()

/-- Run the command with the words of its command line. -/
def runWords (words : List String) : IO (Except CommandError Unit) := do
  match Options.ofWords words with
  | .error error => return .error (.usage error)
  | .ok options => run options

end PriceTime.Program

/-- Replay a synthetic order feed through a book. -/
def main (words : List String) : IO UInt32 := do
  match ← PriceTime.Program.runWords words with
  | .ok _ => return 0
  | .error error =>
    IO.eprintln ("Error: " ++ PriceTime.Program.describe error)
    return error.exitCode?.getD 134
