import PriceTime.Failure
import PriceTime.Fifo
import PriceTime.SocketAddress

/-!
# Sinks for lines

A sink receives lines of text. It can refuse a line, with a failure or by breaking down altogether,
and it can fail when it is flushed at the end. A line channel is a sink whose lines wait for a
receiver; it fails once the receiver is gone. Another sink sends its lines over a network, where they
may or may not get through.
-/

namespace PriceTime

/-- How a sink refuses a line. -/
inductive Refusal where
  /-- With a failure. -/
  | fails (failure : Failure)
  /-- By breaking down. -/
  | breaksDown
deriving DecidableEq

/-- A receiver of lines. -/
structure LineSink where
  /-- The lines it took. -/
  received : Array String := #[]
  /-- How many lines it takes before it refuses, and how it refuses then; without it, it takes all.
  -/
  limit : Option (Nat × Refusal) := none
  /-- How it fails when it is flushed, if it does. -/
  flushFailure : Option Failure := none
  /-- How often it was flushed. -/
  flushes : Nat := 0

namespace LineSink

/-- Hand over a line. -/
def send (sink : LineSink) (line : String) : Except Refusal Unit × LineSink :=
  let ⟨received, limit, flushFailure, flushes⟩ := sink
  match limit with
  | some (count, refusal) =>
    if count ≤ received.size then (.error refusal, ⟨received, limit, flushFailure, flushes⟩)
    else (.ok (), ⟨received.push line, limit, flushFailure, flushes⟩)
  | none => (.ok (), ⟨received.push line, limit, flushFailure, flushes⟩)

/-- Finish what was handed over. -/
def flush (sink : LineSink) : Except Failure Unit × LineSink :=
  let sink := { sink with flushes := sink.flushes + 1 }
  match sink.flushFailure with
  | some failure => (.error failure, sink)
  | none => (.ok (), sink)

end LineSink

/-- Lines on their way to a receiver. -/
structure LineChannel where
  lines : Fifo String := .empty
  /-- Whether the receiver is still there. -/
  isOpen : Bool := true

namespace LineChannel

/-- What is reported once the receiver is gone. -/
def disconnected : Failure where
  kind := .brokenPipe
  message := "line receiver disconnected"

/-- Hand over a line. -/
def send (c : LineChannel) (line : String) : Except Failure Unit × LineChannel :=
  if c.isOpen then (.ok (), { c with lines := c.lines.push line })
  else (.error disconnected, c)

/-- Nothing is held back, so flushing succeeds even without a receiver. -/
def flush (c : LineChannel) : Except Failure Unit × LineChannel :=
  (.ok (), c)

/-- Receive the next line, if one is waiting. -/
def receive (c : LineChannel) : Option String × LineChannel :=
  match c.lines.pop? with
  | some (line, lines) => (some line, { c with lines })
  | none => (none, c)

/-- The receiver goes away, and with it the lines that wait. -/
def close (_ : LineChannel) : LineChannel where
  isOpen := false

/-- A sink that hands lines to a channel without a receiver. -/
def closedSink : LineSink where
  limit := some (0, .fails disconnected)

end LineChannel

/-- What becomes of the lines sent to each address: how many get through before one does not, and
what is reported of that one. Without it, all get through. -/
abbrev Network := SocketAddress → Option (Nat × Failure)

namespace Network

/-- What is reported when nobody listens at an address. -/
def refused : Failure where
  kind := .other
  message := "Connection refused (os error 111)"

/-- A network where nobody listens. -/
def silent : Network := fun _ => some (0, refused)

/-- A sink that sends lines to an address. It connects with the first line, so that it does not fail
before, and there is nothing to flush. After a line that did not get through it would connect again,
but whoever sends lines stops there. -/
def sink (network : Network) (address : SocketAddress) : LineSink where
  limit := (network address).map fun (count, failure) => (count, .fails failure)

end Network

end PriceTime
