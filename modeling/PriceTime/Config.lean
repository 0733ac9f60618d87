import PriceTime.BookConfig
import PriceTime.Failure
import PriceTime.LoggerConfig
import PriceTime.Toml.Document

/-!
# Settings files

Settings are read from a TOML document with the tables `book` and `logger`. What the document leaves
out keeps its default, and what it says about other things is ignored. A group of settings may also
be an array with the settings in their order. Nothing is converted: a number in quotes is no number.
-/

namespace PriceTime

/-- All settings. -/
structure Config where
  book : BookConfig := {}
  logger : LoggerConfig := {}
deriving BEq

/-- Why settings cannot be read. -/
inductive ConfigError where
  /-- The file cannot be read. -/
  | io (failure : Failure)
  /-- The document is malformed, or a setting has a value it cannot have. -/
  | parse
deriving DecidableEq

/-- The words for an error. -/
def ConfigError.message : ConfigError → String
  | io failure => "failed to read config: " ++ failure.message
  | parse => "invalid config"

namespace Config

open Toml (Value)

/-- A number without a sign. -/
def unsigned? : Value → Option UInt64
  | .integer n => if 0 ≤ n then some n.toUInt64 else none
  | _ => none

/-- A truth value. -/
def boolean? : Value → Option Bool
  | .boolean b => some b
  | _ => none

/-- A path. -/
def path? : Value → Option Path
  | .string text => some { text }
  | _ => none

/-- A setting that may be left out. -/
def settingOr {α : Type} (default : α) (read : Value → Option α) : Option Value → Option α
  | none => some default
  | some value => read value

/-- The settings of a book. -/
def book? (value : Value) : Option BookConfig := do
  let field ← value.fields?
  let base : BookConfig := {}
  return {
    orderCapacity := ← settingOr base.orderCapacity unsigned? (field 0 "order_capacity")
    levelCapacity := ← settingOr base.levelCapacity unsigned? (field 1 "level_capacity")
    volumeDepth := ← settingOr base.volumeDepth unsigned? (field 2 "volume_depth")
    historyCapacity := ← settingOr base.historyCapacity unsigned? (field 3 "history_capacity")
    snapshotDepth := ← settingOr base.snapshotDepth unsigned? (field 4 "snapshot_depth") }

/-- The settings of a logger. -/
def logger? (value : Value) : Option LoggerConfig := do
  let field ← value.fields?
  let base : LoggerConfig := {}
  return {
    path := ← settingOr base.path path? (field 0 "path")
    bufferSize := ← settingOr base.bufferSize unsigned? (field 1 "buffer_size")
    console := ← settingOr base.console boolean? (field 2 "console")
    pollIntervalMicros :=
      ← settingOr base.pollIntervalMicros unsigned? (field 3 "poll_interval_us") }

/-- The settings in a document. -/
def ofValue? (document : Value) : Option Config := do
  let field ← document.fields?
  return {
    book := ← settingOr {} book? (field 0 "book")
    logger := ← settingOr {} logger? (field 1 "logger") }

/-- Read settings from a text. -/
def ofText (text : String) : Except ConfigError Config :=
  match (Toml.parse text).bind ofValue? with
  | some config => .ok config
  | none => .error .parse

/-- What is reported of a file that is not text. -/
def notText : Failure where
  kind := .invalidData
  message := "stream did not contain valid UTF-8"

/-- Read settings from a file, given what reading the file gave. -/
def ofFile (content : Except Failure ByteArray) : Except ConfigError Config :=
  match content with
  | .error failure => .error (.io failure)
  | .ok bytes =>
    match String.fromUTF8? bytes with
    | some text => ofText text
    | none => .error (.io notText)

end Config

end PriceTime
