import PriceTime.Decimal

/-!
# Reading texts back

Numbers are written with no more digits than they need and are followed by something else, so a
reader that takes all digits it can get gets the number. Lines hold no newlines, so a text in which
every line is followed by a newline can be cut into its lines again.

* `Text.expect`: words that are always the same.
* `Text.readNat`, `Text.readInt`: numbers, and what is behind them.
* `Text.readUInt64`, `Text.readInt32`, `Text.readInt64`: numbers that fit into words.
* `Text.cutLines`: lines.
-/

namespace PriceTime

namespace Text

/-! ## Words and numbers -/

/-- What is behind a word. -/
def expect : (word text : List Char) → Option (List Char)
  | [], text => some text
  | _ :: _, [] => none
  | c :: word, d :: text => if c = d then expect word text else none

/-- A number in decimal, and what is behind it. -/
def readNat (text : List Char) : Option (Nat × List Char) :=
  let digits := text.takeWhile Char.isDigit
  if digits = [] then none
  else some (Nat.ofDigitChars 10 digits 0, text.dropWhile Char.isDigit)

/-- A whole number in decimal, and what is behind it. -/
def readInt (text : List Char) : Option (Int × List Char) := do
  if text.head? = some '-' then
    let (n, rest) ← readNat text.tail
    return (-n, rest)
  else
    let (n, rest) ← readNat text
    return (n, rest)

def readUInt64 (text : List Char) : Option (UInt64 × List Char) := do
  let (n, rest) ← readNat text
  if n < UInt64.size then return (.ofNat n, rest) else none

def readInt32 (text : List Char) : Option (Int32 × List Char) := do
  let (z, rest) ← readInt text
  if Int32.minValue.toInt ≤ z ∧ z ≤ Int32.maxValue.toInt then return (.ofInt z, rest) else none

def readInt64 (text : List Char) : Option (Int64 × List Char) := do
  let (z, rest) ← readInt text
  if Int64.minValue.toInt ≤ z ∧ z ≤ Int64.maxValue.toInt then return (.ofInt z, rest) else none

/-- What a reader reads if there is nothing behind it. -/
def whole {α : Type} (read : List Char → Option (α × List Char)) (text : List Char) : Option α :=
  match read text with
  | some (x, []) => some x
  | _ => none

theorem expect_append (word rest : List Char) : expect word (word ++ rest) = some rest := by
  induction word with
  | nil => rfl
  | cons c word ih => rw [List.cons_append, expect, if_pos rfl, ih]

theorem expect_char (c : Char) (rest : List Char) : expect [c] (c :: rest) = some rest :=
  expect_append [c] rest

theorem expect_eq_none {c d : Char} (h : c ≠ d) (word text : List Char) :
    expect (c :: word) (d :: text) = none := by
  rw [expect, if_neg h]

theorem whole_eq {α : Type} {read : List Char → Option (α × List Char)} {text : List Char} {x : α}
    (h : read (text ++ []) = some (x, [])) : whole read text = some x := by
  rw [List.append_nil] at h
  rw [whole, h]

/-- What is behind a number does not start with a digit. -/
def Ends (rest : List Char) : Prop :=
  ∀ c ∈ rest.head?, c.isDigit = false

theorem ends_append {word : List Char} {c : Char} (h : word.head? = some c)
    (hc : c.isDigit = false) (rest : List Char) : Ends (word ++ rest) := by
  intro d hd
  rw [List.head?_append, h, Option.some_or, Option.mem_some] at hd
  rwa [← hd]

theorem isDigit_of_mem_ofNat {n : Nat} {c : Char} (h : c ∈ (Decimal.ofNat n).toList) :
    c.isDigit = true := by
  rw [Decimal.ofNat, String.toList_ofList] at h
  exact Nat.isDigit_of_mem_toDigits (by decide) (by decide) h

theorem not_mem_ofNat {c : Char} (hdigit : c.isDigit = false) (n : Nat) :
    c ∉ (Decimal.ofNat n).toList := by
  intro h
  rw [isDigit_of_mem_ofNat h] at hdigit
  cases hdigit

theorem not_mem_ofInt {c : Char} (hdigit : c.isDigit = false) (hsign : c ≠ '-') (z : Int) :
    c ∉ (Decimal.ofInt z).toList := by
  unfold Decimal.ofInt
  split
  · simp [String.toList_append, not_mem_ofNat hdigit, hsign]
  · exact not_mem_ofNat hdigit _

theorem ofNat_ne_nil (n : Nat) : (Decimal.ofNat n).toList ≠ [] := by
  rw [Decimal.ofNat, String.toList_ofList]
  exact Nat.toDigits_ne_nil

theorem readNat_ofNat (n : Nat) {rest : List Char} (hrest : Ends rest) :
    readNat ((Decimal.ofNat n).toList ++ rest) = some (n, rest) := by
  have hdigits : ∀ c ∈ (Decimal.ofNat n).toList, c.isDigit = true :=
    fun _ => isDigit_of_mem_ofNat
  have hstop : rest.takeWhile Char.isDigit = [] ∧ rest.dropWhile Char.isDigit = rest := by
    cases rest with
    | nil => exact ⟨rfl, rfl⟩
    | cons c rest =>
      have hc : c.isDigit = false := hrest c rfl
      simp [hc]
  have hvalue : Nat.ofDigitChars 10 (Decimal.ofNat n).toList 0 = n := by
    rw [Decimal.ofNat, String.toList_ofList, Nat.ofDigitChars_toDigits (by decide) (by decide)]
  unfold readNat
  rw [List.takeWhile_append_of_pos hdigits, List.dropWhile_append_of_pos hdigits, hstop.1, hstop.2,
    List.append_nil]
  dsimp only
  rw [if_neg (ofNat_ne_nil n), hvalue]

theorem readInt_ofInt (z : Int) {rest : List Char} (hrest : Ends rest) :
    readInt ((Decimal.ofInt z).toList ++ rest) = some (z, rest) := by
  unfold Decimal.ofInt readInt
  split
  · rename_i hneg
    have hvalue : -(z.natAbs : Int) = z := by omega
    rw [String.toList_append, show "-".toList = ['-'] from rfl]
    simp only [List.cons_append, List.nil_append, List.head?_cons, List.tail_cons, if_true,
      readNat_ofNat z.natAbs hrest, Option.bind_eq_bind, Option.bind_some, hvalue]
    rfl
  · rename_i hpos
    have hvalue : (z.natAbs : Int) = z := by omega
    have hhead : ((Decimal.ofNat z.natAbs).toList ++ rest).head? ≠ some '-' := by
      intro hhead
      obtain ⟨c, digits, hdigits⟩ := List.exists_cons_of_ne_nil (ofNat_ne_nil z.natAbs)
      have hc := isDigit_of_mem_ofNat (n := z.natAbs) (hdigits ▸ List.mem_cons_self)
      rw [hdigits, List.cons_append, List.head?_cons, Option.some.injEq] at hhead
      rw [hhead] at hc
      cases hc
    simp only [if_neg hhead, readNat_ofNat z.natAbs hrest, Option.bind_eq_bind, Option.bind_some,
      hvalue]
    rfl

theorem readUInt64_ofNat (n : UInt64) {rest : List Char} (hrest : Ends rest) :
    readUInt64 ((Decimal.ofNat n.toNat).toList ++ rest) = some (n, rest) := by
  rw [readUInt64, readNat_ofNat n.toNat hrest, Option.bind_eq_bind, Option.bind_some]
  dsimp only
  rw [if_pos n.toNat_lt_size, UInt64.ofNat_toNat]
  rfl

theorem readInt32_ofInt (z : Int32) {rest : List Char} (hrest : Ends rest) :
    readInt32 ((Decimal.ofInt z.toInt).toList ++ rest) = some (z, rest) := by
  rw [readInt32, readInt_ofInt z.toInt hrest, Option.bind_eq_bind, Option.bind_some]
  dsimp only
  rw [if_pos ⟨z.minValue_le_toInt, z.toInt_le⟩, Int32.ofInt_toInt]
  rfl

theorem readInt64_ofInt (z : Int64) {rest : List Char} (hrest : Ends rest) :
    readInt64 ((Decimal.ofInt z.toInt).toList ++ rest) = some (z, rest) := by
  rw [readInt64, readInt_ofInt z.toInt hrest, Option.bind_eq_bind, Option.bind_some]
  dsimp only
  rw [if_pos ⟨z.minValue_le_toInt, z.toInt_le⟩, Int64.ofInt_toInt]
  rfl

/-! ## Lines -/

/-- The lines of a text in which every line is followed by a newline. -/
def cutLines : List Char → Option (List (List Char))
  | [] => some []
  | c :: text => do
    let lines ← cutLines text
    if c = '\n' then return [] :: lines
    else
      match lines with
      | line :: lines => return (c :: line) :: lines
      | [] => none

theorem cutLines_line {line text : List Char} {lines : List (List Char)} (hline : '\n' ∉ line)
    (h : cutLines text = some lines) : cutLines (line ++ '\n' :: text) = some (line :: lines) := by
  induction line with
  | nil =>
    rw [List.nil_append, cutLines, h]
    rfl
  | cons c line ih =>
    obtain ⟨hc, hline⟩ : ¬ '\n' = c ∧ '\n' ∉ line := by simpa using hline
    rw [List.cons_append, cutLines, ih hline, Option.bind_eq_bind, Option.bind_some,
      if_neg (Ne.symm hc)]
    rfl

theorem cutLines_flatMap {lines : List (List Char)} (h : ∀ line ∈ lines, '\n' ∉ line) :
    cutLines (lines.flatMap fun line => line ++ ['\n']) = some lines := by
  induction lines with
  | nil => rfl
  | cons line lines ih =>
    obtain ⟨hline, hlines⟩ := List.forall_mem_cons.mp h
    rw [List.flatMap_cons, List.append_assoc]
    exact cutLines_line hline (ih hlines)

end Text

end PriceTime
