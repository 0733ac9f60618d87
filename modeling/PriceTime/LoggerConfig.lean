import PriceTime.Path

/-!
# Logger settings
-/

namespace PriceTime

/-- The settings of a trading logger. -/
structure LoggerConfig where
  /-- The trading log file. -/
  path : Path := { text := "trading_log.csv" }
  /-- How long to make the mapping of the log file at first, in bytes. -/
  bufferSize : UInt64 := 10 * 1024 * 1024
  /-- Whether records also go to the console. -/
  console : Bool := false
  /-- How long a worker sleeps when it has nothing to do, in microseconds. -/
  pollIntervalMicros : UInt64 := 1000
deriving BEq

/-- How long a worker sleeps, in whole seconds and further nanoseconds. -/
def LoggerConfig.pollInterval (c : LoggerConfig) : UInt64 × UInt64 :=
  (c.pollIntervalMicros / 1000000, c.pollIntervalMicros % 1000000 * 1000)

end PriceTime
