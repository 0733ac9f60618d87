/-!
# Scanners

A scanner reads a prefix of a text and gives a value and the rest of the text, or fails. Scanners
are combined with `do` and `<|>`; a failed attempt reads nothing.
-/

namespace PriceTime

/-- Reads a prefix of a text. -/
abbrev Scanner (α : Type) := StateT (List Char) Option α

namespace Scanner

variable {α β : Type}

/-- The next character, which is not read. -/
def peek? : Scanner (Option Char) :=
  fun text => some (text.head?, text)

/-- One character of a class. -/
def one (p : Char → Bool) : Scanner Char
  | c :: rest => if p c then some (c, rest) else none
  | [] => none

/-- Exactly the given text. -/
def exactly (expected : String) : Scanner Unit :=
  fun text => (expected.toList.isPrefixOf? text).map fun rest => ((), rest)

/-- As many characters of a class as there are. -/
def allOf (p : Char → Bool) : Scanner (List Char) :=
  fun text => some (text.span p)

/-- As many characters of a class as there are, at least one. -/
def someOf (p : Char → Bool) : Scanner (List Char) := do
  let first ← one p
  return first :: (← allOf p)

/-- The end of the text. -/
def ending : Scanner Unit
  | [] => some ((), [])
  | _ => none

/-- What a scanner reads, or nothing if it fails. -/
def maybe (x : Scanner α) : Scanner (Option α) :=
  fun text =>
    match x text with
    | some (a, rest) => some (some a, rest)
    | none => some (none, text)

/-- A scanner again and again until it fails, at most `n` times. -/
def repeated (x : Scanner α) : (n : Nat) → Scanner (List α)
  | 0, text => some ([], text)
  | n + 1, text =>
    match x text with
    | some (a, rest) => (repeated x n rest).map fun (as, rest) => (a :: as, rest)
    | none => some ([], text)

/-- A scanner again and again until it fails. It must read something each time, so it succeeds at
most once for each character. -/
def many (x : Scanner α) : Scanner (List α) :=
  fun text => repeated x text.length text

/-- Items with separators between them. -/
def separated (x : Scanner α) (separator : Scanner Unit) : Scanner (List α) := do
  match ← maybe x with
  | none => return []
  | some first => return first :: (← many (do separator; x))

/-- The text that a scanner reads. -/
def textOf (x : Scanner Unit) : Scanner String :=
  fun text => (x text).map fun (_, rest) =>
    (String.ofList (text.take (text.length - rest.length)), rest)

/-! ## Digits -/

/-- The value of a hexadecimal digit. -/
def hexValue? (c : Char) : Option Nat :=
  if c.isDigit then some (c.toNat - '0'.toNat)
  else if 'a' ≤ c ∧ c ≤ 'f' then some (c.toNat - 'a'.toNat + 10)
  else if 'A' ≤ c ∧ c ≤ 'F' then some (c.toNat - 'A'.toNat + 10)
  else none

/-- The number that digits make. -/
def numberOf (base : Nat) (digits : List Char) : Nat :=
  digits.foldl (fun n c => base * n + (hexValue? c).getD 0) 0

end Scanner

end PriceTime
