import PriceTime.Calendar
import PriceTime.Scanner
import PriceTime.Toml.Value

/-!
# TOML strings, numbers and dates

The written forms of the values that have no values inside.
-/

namespace PriceTime.Toml

open Scanner

/-! ## Blanks and comments -/

/-- Characters outside ASCII. -/
def isNonAscii (c : Char) : Bool :=
  0x80 ≤ c.toNat

/-- Tab and space. -/
def isBlank (c : Char) : Bool :=
  c == '\t' || c == ' '

/-- Tab and everything printable. -/
def isPrintable (c : Char) : Bool :=
  c == '\t' || (0x20 ≤ c.toNat && c.toNat ≤ 0x7e) || isNonAscii c

/-- Tabs and spaces. -/
def blanks : Scanner Unit := do
  let _ ← allOf isBlank

/-- The end of a line: a line feed, with or without a carriage return before it. -/
def newline : Scanner Unit :=
  exactly "\n" <|> exactly "\r\n"

/-- From a number sign to the end of the line, which is not read. -/
def comment : Scanner Unit := do
  exactly "#"
  let _ ← allOf isPrintable

/-- The rest of a line that has no more to say, with its end. -/
def lineEnd : Scanner Unit := do
  blanks
  let _ ← maybe comment
  newline <|> ending

/-- Blanks, line ends and comments between the items of an array. -/
def gap : Scanner Unit := do
  blanks
  let _ ← many (do
    newline <|> (do comment; newline)
    blanks)

/-! ## Strings -/

/-- Characters that stand for themselves between double quotes. -/
def isPlain (c : Char) : Bool :=
  isPrintable c && c != '"' && c != '\\'

/-- Characters that stand for themselves between single quotes. -/
def isLiteral (c : Char) : Bool :=
  isPrintable c && c != '\''

/-- Hexadecimal digits, and the number that they and those before them make. -/
def hexNumber : (digits : Nat) → (before : Nat) → Scanner Nat
  | 0, before => pure before
  | digits + 1, before => do
    let c ← one fun c => (hexValue? c).isSome
    hexNumber digits (16 * before + (hexValue? c).getD 0)

/-- A character by its number. Surrogates are no characters. -/
def numbered (digits : Nat) : Scanner Char := do
  let n ← hexNumber digits 0
  if n.isValidChar then return Char.ofNat n else failure

/-- What follows a backslash. -/
def escape : Scanner Char := do
  match ← one fun _ => true with
  | 'b' => return '\x08'
  | 'f' => return '\x0c'
  | 'n' => return '\n'
  | 'r' => return '\r'
  | 't' => return '\t'
  | '"' => return '"'
  | '\\' => return '\\'
  | 'u' => numbered 4
  | 'U' => numbered 8
  | _ => failure

/-- A string between double quotes, on one line. -/
def basicString : Scanner String := do
  exactly "\""
  let text ← many (one isPlain <|> (do exactly "\\"; escape))
  exactly "\""
  return String.ofList text

/-- A string between single quotes, on one line. -/
def literalString : Scanner String := do
  exactly "'"
  let text ← allOf isLiteral
  exactly "'"
  return String.ofList text

/-- A backslash at the end of a line hides it, with all blanks and line ends up to the next text. -/
def hiddenLineEnd : Scanner Unit := do
  exactly "\\"
  blanks
  newline
  let _ ← many (newline <|> (do let _ ← one isBlank))

/-- One or two quotes that are part of a string between three quotes, since another character
follows. -/
def innerQuotes (quote : Char) : Scanner (List Char) := do
  let quotes ← someOf (· == quote)
  match ← peek? with
  | none => failure
  | some _ => if quotes.length ≤ 2 then return quotes else failure

/-- The end of a string between three quotes. One or two more quotes before the last three are part
of the string. -/
def closingQuotes (quote : Char) : Scanner (List Char) := do
  let quotes ← someOf (· == quote)
  if 3 ≤ quotes.length ∧ quotes.length ≤ 5 then return quotes.drop 3 else failure

/-- A string between three double quotes. A line end right at its start is not part of it. -/
def longBasicString : Scanner String := do
  exactly "\"\"\""
  let _ ← maybe newline
  let part : Scanner (List Char) :=
    someOf isPlain <|> (do hiddenLineEnd; return []) <|> (do exactly "\\"; return [← escape]) <|>
      (do newline; return ['\n']) <|> innerQuotes '"'
  let parts ← many part
  let last ← closingQuotes '"'
  return String.ofList (parts.flatten ++ last)

/-- A string between three single quotes. A line end right at its start is not part of it. -/
def longLiteralString : Scanner String := do
  exactly "'''"
  let _ ← maybe newline
  let part : Scanner (List Char) :=
    someOf isLiteral <|> (do newline; return ['\n']) <|> innerQuotes '\''
  let parts ← many part
  let last ← closingQuotes '\''
  return String.ofList (parts.flatten ++ last)

/-- A string of any form. -/
def string : Scanner String :=
  longBasicString <|> basicString <|> longLiteralString <|> literalString

/-! ## Numbers -/

/-- Digits of a class, with single underscores allowed between them; the underscores are left out.
-/
def digitsOf (p : Char → Bool) : Scanner (List Char) := do
  let first ← one p
  return first :: (← many (one p <|> (do exactly "_"; one p)))

/-- A sign: whether it is a minus. -/
def sign : Scanner Bool := do
  match ← maybe (one fun c => c == '+' || c == '-') with
  | some c => return c == '-'
  | none => return false

/-- The digits of a decimal number without leading zeros. -/
def wholeDigits : Scanner (List Char) :=
  (do let c ← one (· == '0'); return [c]) <|> digitsOf Char.isDigit

/-- A whole number that fits into 64 bits. -/
def int64 (z : Int) : Scanner Int64 :=
  if Int64.minValue.toInt ≤ z ∧ z ≤ Int64.maxValue.toInt then pure (Int64.ofInt z) else failure

/-- A whole number to another base, after its mark. -/
def marked (mark : String) (base : Nat) : Scanner Int64 := do
  exactly mark
  let digits ← digitsOf fun c => (hexValue? c).any (· < base)
  int64 (numberOf base digits)

/-- A whole number. -/
def integer : Scanner Int64 :=
  marked "0x" 16 <|> marked "0o" 8 <|> marked "0b" 2 <|> do
    let isNegative ← sign
    let n : Int := numberOf 10 (← wholeDigits)
    int64 (if isNegative then -n else n)

/-- The binary number nearest to `digits * 10 ^ exponent`. Numbers far outside its range are not
worked out. -/
def nearest (digits : List Char) (exponent : Int) : Float :=
  let n := numberOf 10 digits
  let magnitude := (Nat.toDigits 10 n).length + exponent
  if n = 0 ∨ magnitude < -400 then 0
  else if 400 < magnitude then 1 / 0
  else Float.ofScientific n (exponent < 0) exponent.natAbs

/-- The exponent of a number. -/
def exponent : Scanner Int := do
  let _ ← one fun c => c == 'e' || c == 'E'
  let isNegative ← sign
  let n : Int := numberOf 10 (← digitsOf Char.isDigit)
  return if isNegative then -n else n

/-- The digits after the point. -/
def fraction : Scanner (List Char) := do
  exactly "."
  digitsOf Char.isDigit

/-- A number with a fraction, an exponent or both. A positive number too large to be told from
infinity is refused. -/
def decimalFloat : Scanner Float := do
  let isNegative ← sign
  let whole ← wholeDigits
  let (after, power) ←
    (do return ([], ← exponent)) <|> (do return (← fraction, (← maybe exponent).getD 0))
  let x := nearest (whole ++ after) (power - after.length)
  if isNegative then return -x
  else if x.isInf then failure
  else return x

/-- Infinity, or not a number. -/
def specialFloat : Scanner Float := do
  let isNegative ← sign
  let x ← (do exactly "inf"; return 1 / 0) <|> (do exactly "nan"; return 0 / 0)
  return if isNegative then -x else x

/-! ## Dates -/

/-- A number of exactly `count` digits within bounds. -/
def bounded (count low high : Nat) : Scanner Nat := do
  let digits ← (List.replicate count (one Char.isDigit)).mapM id
  let n := numberOf 10 digits
  if low ≤ n ∧ n ≤ high then return n else failure

/-- A day of the calendar. -/
def date : Scanner Unit := do
  let year ← bounded 4 0 9999
  exactly "-"
  let month ← bounded 2 1 12
  exactly "-"
  let _ ← bounded 2 1 ((Calendar.monthLengths year).getD (month - 1) 0)

/-- A time of day. -/
def time : Scanner Unit := do
  let _ ← bounded 2 0 23
  exactly ":"
  let _ ← bounded 2 0 59
  exactly ":"
  let _ ← bounded 2 0 60
  let _ ← maybe (do exactly "."; someOf Char.isDigit)

/-- A distance from universal time. -/
def zone : Scanner Unit :=
  (do let _ ← one fun c => c == 'Z' || c == 'z') <|> do
    let _ ← one fun c => c == '+' || c == '-'
    let _ ← bounded 2 0 23
    exactly ":"
    let _ ← bounded 2 0 59

/-- A date, a time, or both. -/
def datetime : Scanner String :=
  textOf ((do
    date
    let _ ← maybe (do
      let _ ← one fun c => c == 'T' || c == 't' || c == ' '
      time
      maybe zone)) <|> time)

/-! ## All of them -/

/-- A value that has no values inside. -/
def scalar : Scanner Value := do
  match ← peek? with
  | some '"' | some '\'' => return .string (← string)
  | some 't' => exactly "true"; return .boolean true
  | some 'f' => exactly "false"; return .boolean false
  | _ =>
    (do return .datetime (← datetime)) <|> (do return .float (← decimalFloat)) <|>
      (do return .float (← specialFloat)) <|> (do return .integer (← integer))

end PriceTime.Toml
