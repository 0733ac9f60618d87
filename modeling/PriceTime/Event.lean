import PriceTime.BookError

/-!
# Diagnostic events

While it works a book reports what an operator may want to see: levels that come and go, and events
of the feed that look wrong. Each report has a severity and a line of text with named fields.
-/

namespace PriceTime

/-- What a book reports while it works. -/
inductive Event where
  /-- The first order arrived at a price. -/
  | levelCreated (price : Int32) (side : Side)
  /-- The last order left a price. -/
  | levelReleased (price : Int32) (side : Side)
  /-- A cancel was rejected. -/
  | cancelRejected (id : UInt64) (error : BookError)
  /-- A cancel named the wrong side of a resting order. -/
  | cancelSideDisagrees (id : UInt64) (resident requested : Side)
  /-- A modify named the wrong side of a resting order. -/
  | modifySwitchesSides (id : UInt64) (resident requested : Side)
  /-- A modify of an order that is not in the book adds it. -/
  | modifyAdds (id : UInt64) (price : Int32)
  /-- A trade found no resting order at its price. -/
  | tradeFindsNoLevel (price : Int32) (resting : Side)
deriving DecidableEq

/-- How much an event matters. -/
inductive Severity where
  | trace
  | debug
  | warn
deriving DecidableEq

/-- The word for a severity. -/
def Severity.label : Severity → String
  | trace => "TRACE"
  | debug => "DEBUG"
  | warn => "WARN"

namespace Event

/-- How much the event matters. -/
def severity : Event → Severity
  | levelCreated .. | levelReleased .. | tradeFindsNoLevel .. => .trace
  | modifyAdds .. => .debug
  | cancelRejected .. | cancelSideDisagrees .. | modifySwitchesSides .. => .warn

/-- One field of an event's text. -/
def field (key value : String) : String :=
  " " ++ key ++ "=" ++ value

/-- The event in words, followed by its fields. -/
def text : Event → String
  | levelCreated price side =>
    "level created" ++ field "price" (Decimal.ofInt price.toInt) ++ field "side" side.label
  | levelReleased price side =>
    "level released" ++ field "price" (Decimal.ofInt price.toInt) ++ field "side" side.label
  | cancelRejected id error =>
    "cancel rejected" ++ field "id" (Decimal.ofNat id.toNat) ++ field "err" error.message
  | cancelSideDisagrees id resident requested =>
    "cancel side disagrees with resident order" ++ field "id" (Decimal.ofNat id.toNat) ++
      field "resident" resident.label ++ field "requested" requested.label
  | modifySwitchesSides id resident requested =>
    "modify attempted to switch sides" ++ field "id" (Decimal.ofNat id.toNat) ++
      field "resident" resident.label ++ field "requested" requested.label
  | modifyAdds id price =>
    "modify for unknown order, adding" ++ field "id" (Decimal.ofNat id.toNat) ++
      field "price" (Decimal.ofInt price.toInt)
  | tradeFindsNoLevel price resting =>
    "trade at a price with no resting level" ++ field "price" (Decimal.ofInt price.toInt) ++
      field "resting" resting.label

/-- The event as a line of a diagnostic log. -/
def line (e : Event) : String :=
  e.severity.label ++ " " ++ e.text

end Event

end PriceTime
