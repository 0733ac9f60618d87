import PriceTime.Config
import PriceTime.SocketAddress

/-!
# Options of the replay command

The words of a command line are read from left to right. A word that starts with two dashes names an
option, and one that starts with one dash and a letter stands for one; all other words are values.
The value of an option is the next word, or follows in the same word: after an equals sign, which
may be missing after a letter. Every option may be given once, and there are no values without an
option. Two dashes alone end the options.
-/

namespace PriceTime

/-- The options of the command. -/
structure Options where
  /-- The settings file. -/
  config : Option Path := none
  /-- The trading log, in place of the one in the settings. -/
  logFile : Option Path := none
  messages : UInt64 := 100000
  every : UInt64 := 1000
  /-- Whether records also go to the console. -/
  console : Bool := false
  /-- The address to which records also go. -/
  forward : Option SocketAddress := none

/-- Which option. -/
inductive OptionName where
  | config
  | logFile
  | messages
  | every
  | console
  | forward
deriving DecidableEq

namespace OptionName

/-- All options. -/
def all : List OptionName := [config, logFile, messages, every, console, forward]

/-- The word for an option, without its dashes. -/
def long : OptionName → String
  | config => "config"
  | logFile => "log-file"
  | messages => "messages"
  | every => "every"
  | console => "console"
  | forward => "forward"

/-- The letter for an option. -/
def letter? : OptionName → Option Char
  | config => some 'c'
  | messages => some 'n'
  | _ => none

/-- Whether an option has a value. -/
def takesValue : OptionName → Bool
  | console => false
  | _ => true

end OptionName

/-- Why the words of a command line cannot be read. -/
inductive UsageError where
  /-- There is no such option. -/
  | unknownOption (word : String)
  /-- A value does not belong to any option. -/
  | unexpectedWord (word : String)
  /-- An option has no value but needs one. -/
  | missingValue (name : OptionName)
  /-- An option has a value it cannot have. -/
  | invalidValue (name : OptionName) (text : String)
  /-- An option is given for the second time. -/
  | repeated (name : OptionName)
deriving DecidableEq

/-- The words for an error. -/
def UsageError.message : UsageError → String
  | unknownOption word => "unknown option " ++ word
  | unexpectedWord word => "unexpected argument " ++ word
  | missingValue name => "--" ++ name.long ++ " needs a value"
  | invalidValue name text => "--" ++ name.long ++ " cannot be '" ++ text ++ "'"
  | repeated name => "--" ++ name.long ++ " is given twice"

namespace Options

/-! ## Words -/

/-- What a word of a command line is. -/
inductive Word where
  /-- A value. -/
  | value (text : String)
  /-- An option, and its value if it is in the same word. -/
  | option (name : OptionName) (attached : Option String)
  /-- An option that does not exist. -/
  | unknown
  /-- The end of the options. -/
  | separator

/-- An option named by a word, with what follows the equals sign. -/
def Word.ofLong (body : List Char) : Word :=
  let (long, tail) := body.span (· != '=')
  match OptionName.all.find? (·.long == String.ofList long), tail with
  | some name, [] => .option name none
  | some name, _ :: rest => .option name (some (String.ofList rest))
  | none, _ => .unknown

/-- An option named by a letter, with what follows the letter. -/
def Word.ofLetter (letter : Char) (tail : List Char) : Word :=
  match OptionName.all.find? (·.letter? == some letter), tail with
  | some name, [] => .option name none
  | some name, '=' :: rest | some name, rest => .option name (some (String.ofList rest))
  | none, _ => .unknown

/-- What a word is. A dash alone is a value. -/
def Word.ofString (text : String) : Word :=
  match text.toList with
  | ['-', '-'] => .separator
  | '-' :: '-' :: body => .ofLong body
  | '-' :: letter :: tail => .ofLetter letter tail
  | _ => .value text

/-! ## Values -/

/-- A number in digits that fits into 64 bits; a plus may stand before it. -/
def number? (text : String) : Option UInt64 :=
  let digits := match text.toList with
    | '+' :: digits | digits => digits
  if digits.isEmpty ∨ !digits.all Char.isDigit then none
  else
    let n := digits.foldl (fun n c => 10 * n + (c.toNat - '0'.toNat)) 0
    if n < UInt64.size then some n.toUInt64 else none

/-- A path, which is not empty. -/
def path? (text : String) : Option Path :=
  if text = "" then none else some { text }

/-- Enter the value of an option. -/
def set? (options : Options) (name : OptionName) (text : String) : Option Options :=
  match name with
  | .config => (path? text).map fun path => { options with config := some path }
  | .logFile => (path? text).map fun path => { options with logFile := some path }
  | .messages => (number? text).map fun count => { options with messages := count }
  | .every => (number? text).map fun count => { options with every := count }
  | .forward => (SocketAddress.ofString? text).map fun address =>
    { options with forward := some address }
  | .console => none

/-! ## Reading -/

/-- The state between two words. -/
structure Reader where
  options : Options := {}
  /-- The options that were given. -/
  given : List OptionName := []
  /-- The option whose value comes next. -/
  pending : Option OptionName := none
  /-- Whether the options have ended. -/
  ended : Bool := false

namespace Reader

/-- Enter an option with its value. -/
def enter (r : Reader) (name : OptionName) (text : String) : Except UsageError Reader :=
  if name ∈ r.given then .error (.repeated name)
  else match r.options.set? name text with
    | some options => .ok { options, given := name :: r.given }
    | none => .error (.invalidValue name text)

/-- Enter an option that has no value. -/
def enterFlag (r : Reader) (name : OptionName) : Except UsageError Reader :=
  if name ∈ r.given then .error (.repeated name)
  else .ok { options := { r.options with console := true }, given := name :: r.given }

/-- Read a word. -/
def read (r : Reader) (text : String) : Except UsageError Reader :=
  if r.ended then .error (.unexpectedWord text)
  else
    match r.pending, Word.ofString text with
    | some name, .value text => r.enter name text
    | some name, _ => .error (.missingValue name)
    | none, .value text => .error (.unexpectedWord text)
    | none, .option name (some text) => r.enter name text
    | none, .option name none =>
      if name.takesValue then .ok { r with pending := some name } else r.enterFlag name
    | none, .unknown => .error (.unknownOption text)
    | none, .separator => .ok { r with ended := true }

/-- The options after the last word. -/
def finish (r : Reader) : Except UsageError Options :=
  match r.pending with
  | some name => .error (.missingValue name)
  | none => .ok r.options

end Reader

/-- Read the options from the words of a command line. -/
def ofWords (words : List String) : Except UsageError Options := do
  (← words.foldlM Reader.read {}).finish

/-! ## Settings -/

/-- Apply the options to the settings. -/
def applyTo (options : Options) (config : Config) : Config :=
  let logger := config.logger
  { config with
    logger := { logger with
      path := options.logFile.getD logger.path
      console := logger.console || options.console } }

end Options

end PriceTime
