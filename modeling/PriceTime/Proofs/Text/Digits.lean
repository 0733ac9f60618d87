import Mathlib.Algebra.GroupWithZero.Nat
import Mathlib.Data.List.Forall2
import PriceTime.Proofs.Text.Reading

/-!
# Numbers in a fixed number of digits

A number that is filled up with zeros has the same number of digits whatever it is, as long as it
fits. So it can be read back without anything that ends it, and texts that start with such numbers
are ordered by the numbers first.

* `Text.readDigits_padded`: reading a number of known width.
* `Text.Shaped`: texts with digits for the letters of a pattern.
* `Text.digits_lt_iff`: digits of equal number are ordered as their values are.
* `Text.padded_append_lt_iff`: texts that start with such numbers.
-/

namespace PriceTime

namespace Text

variable {width m n : Nat} {digits digits' front front' rest rest' : List Char}

/-- A number in exactly `width` digits, and what is behind it. -/
def readDigits (width : Nat) (text : List Char) : Option (Nat × List Char) :=
  let digits := text.take width
  if digits.length = width ∧ digits.all Char.isDigit then
    some (Nat.ofDigitChars 10 digits 0, text.drop width)
  else none

/-! ## Widths and values -/

theorem toList_padded (width n : Nat) : (Decimal.padded width n).toList =
    List.replicate (width - (Nat.toDigits 10 n).length) '0' ++ Nat.toDigits 10 n := by
  rw [Decimal.padded, String.toList_ofList, List.leftpad]

theorem length_padded (hwidth : 0 < width) (hn : n < 10 ^ width) :
    (Decimal.padded width n).toList.length = width := by
  have hdigits := (Nat.length_toDigits_le_iff (by decide) hwidth).mpr hn
  rw [toList_padded, List.length_append, List.length_replicate]
  omega

theorem isDigit_of_mem_padded {c : Char} (h : c ∈ (Decimal.padded width n).toList) :
    c.isDigit = true := by
  rw [toList_padded, List.mem_append] at h
  rcases h with h | h
  · rw [List.eq_of_mem_replicate h]
    rfl
  · exact Nat.isDigit_of_mem_toDigits (by decide) (by decide) h

theorem not_mem_padded {c : Char} (hdigit : c.isDigit = false) (width n : Nat) :
    c ∉ (Decimal.padded width n).toList := by
  intro h
  rw [isDigit_of_mem_padded h] at hdigit
  cases hdigit

theorem ofDigitChars_padded (width n : Nat) :
    Nat.ofDigitChars 10 (Decimal.padded width n).toList 0 = n := by
  rw [toList_padded, Nat.ofDigitChars_append, Nat.ofDigitChars_replicate_zero, Nat.mul_zero,
    Nat.ofDigitChars_ten_toDigits]

theorem readDigits_padded (hwidth : 0 < width) (hn : n < 10 ^ width) (rest : List Char) :
    readDigits width ((Decimal.padded width n).toList ++ rest) = some (n, rest) := by
  have hlength := length_padded hwidth hn
  unfold readDigits
  rw [List.take_left' hlength, List.drop_left' hlength]
  dsimp only
  rw [if_pos ⟨hlength, List.all_eq_true.mpr fun _ => isDigit_of_mem_padded⟩, ofDigitChars_padded]

/-! ## Patterns -/

/-- A digit for every letter of a pattern. -/
def Shaped (pattern text : List Char) : Prop :=
  List.Forall₂ (fun p c => if p.isAlpha then c.isDigit = true else c = p) pattern text

theorem Shaped.append {p : Char} (hp : p.isAlpha = true) {pattern text : List Char}
    (hrest : Shaped pattern text) (h : ∀ c ∈ digits, c.isDigit = true) :
    Shaped (List.replicate digits.length p ++ pattern) (digits ++ text) := by
  induction digits with
  | nil => exact hrest
  | cons c digits ih =>
    obtain ⟨hc, hdigits⟩ := List.forall_mem_cons.mp h
    exact .cons (by rwa [if_pos hp]) (ih hdigits)

theorem Shaped.same {p : Char} (hp : p.isAlpha = false) {pattern text : List Char}
    (hrest : Shaped pattern text) : Shaped (p :: pattern) (p :: text) :=
  .cons (by rw [hp, if_neg Bool.false_ne_true]) hrest

theorem Shaped.padded (hwidth : 0 < width) (hn : n < 10 ^ width) {p : Char}
    (hp : p.isAlpha = true) {pattern text : List Char} (hrest : Shaped pattern text) :
    Shaped (List.replicate width p ++ pattern) ((Decimal.padded width n).toList ++ text) := by
  have := hrest.append hp fun c (hc : c ∈ (Decimal.padded width n).toList) =>
    isDigit_of_mem_padded hc
  rwa [length_padded hwidth hn] at this

theorem Shaped.not_mem {pattern text : List Char} (h : Shaped pattern text) {c : Char}
    (hdigit : c.isDigit = false) (hpattern : c ∉ pattern) : c ∉ text := by
  induction h with
  | nil => exact List.not_mem_nil
  | cons hd _ ih =>
    rw [List.mem_cons, not_or] at hpattern ⊢
    refine ⟨?_, ih hpattern.2⟩
    rintro rfl
    split at hd
    · rw [hd] at hdigit
      cases hdigit
    · exact hpattern.1 hd

/-! ## Order -/

/-- Texts that start with parts of equal length are ordered by these parts first. -/
theorem append_lt_append_iff (hlength : front.length = front'.length) :
    front ++ rest < front' ++ rest' ↔ front < front' ∨ front = front' ∧ rest < rest' := by
  induction front generalizing front' with
  | nil =>
    obtain rfl := List.eq_nil_of_length_eq_zero hlength.symm
    simp
  | cons c front ih =>
    cases front' with
    | nil => cases hlength
    | cons c' front' =>
      rw [List.cons_append, List.cons_append, List.cons_lt_cons_iff, List.cons_lt_cons_iff,
        ih (Nat.succ.inj hlength), List.cons.injEq, or_assoc, and_or_left, and_assoc]

theorem toNat_sub_lt {c : Char} (h : c.isDigit = true) : c.toNat - '0'.toNat < 10 := by
  obtain ⟨-, hhigh⟩ := Char.isDigit_iff_toNat.mp h
  exact Nat.lt_succ_of_le (Nat.sub_le_sub_right hhigh '0'.toNat)

theorem digit_lt_iff {c d : Char} (hc : c.isDigit = true) (hd : d.isDigit = true) :
    c < d ↔ c.toNat - '0'.toNat < d.toNat - '0'.toNat := by
  obtain ⟨hlow, -⟩ := Char.isDigit_iff_toNat.mp hc
  obtain ⟨hlow', -⟩ := Char.isDigit_iff_toNat.mp hd
  rw [show c < d ↔ c.toNat < d.toNat from UInt32.lt_iff_toNat_lt]
  omega

theorem digit_eq_iff {c d : Char} (hc : c.isDigit = true) (hd : d.isDigit = true) :
    c = d ↔ c.toNat - '0'.toNat = d.toNat - '0'.toNat := by
  obtain ⟨hlow, -⟩ := Char.isDigit_iff_toNat.mp hc
  obtain ⟨hlow', -⟩ := Char.isDigit_iff_toNat.mp hd
  rw [← Char.toNat_inj]
  omega

/-- Of two numbers in parts, the greater one has the greater first part, or the same first part and
the greater rest. -/
theorem mul_add_lt_mul_add_iff {radix x y r s : Nat} (hr : r < radix) (hs : s < radix) :
    radix * x + r < radix * y + s ↔ x < y ∨ x = y ∧ r < s := by
  rcases Nat.lt_trichotomy x y with hlt | rfl | hgt
  · have := Nat.mul_le_mul_left radix (Nat.succ_le_of_lt hlt)
    rw [Nat.mul_succ] at this
    omega
  · omega
  · have := Nat.mul_le_mul_left radix (Nat.succ_le_of_lt hgt)
    rw [Nat.mul_succ] at this
    omega

theorem ofDigitChars_cons (c : Char) (digits : List Char) :
    Nat.ofDigitChars 10 (c :: digits) 0 =
      10 ^ digits.length * (c.toNat - '0'.toNat) + Nat.ofDigitChars 10 digits 0 := by
  rw [Nat.ofDigitChars_cons, Nat.ofDigitChars_eq_ofDigitChars_zero, Nat.mul_zero, Nat.zero_add]

theorem ofDigitChars_lt (h : ∀ c ∈ digits, c.isDigit = true) :
    Nat.ofDigitChars 10 digits 0 < 10 ^ digits.length := by
  induction digits with
  | nil => decide
  | cons c digits ih =>
    obtain ⟨hc, hdigits⟩ := List.forall_mem_cons.mp h
    have hfirst := Nat.mul_le_mul_left (10 ^ digits.length) (Nat.le_of_lt_succ (toNat_sub_lt hc))
    have hrest := ih hdigits
    rw [ofDigitChars_cons, List.length_cons, Nat.pow_succ]
    omega

/-- As many digits are ordered as their values are. -/
theorem digits_lt_iff (hlength : digits.length = digits'.length)
    (h : ∀ c ∈ digits, c.isDigit = true) (h' : ∀ c ∈ digits', c.isDigit = true) :
    digits < digits' ↔ Nat.ofDigitChars 10 digits 0 < Nat.ofDigitChars 10 digits' 0 := by
  induction digits generalizing digits' with
  | nil =>
    obtain rfl := List.eq_nil_of_length_eq_zero hlength.symm
    simp
  | cons c digits ih =>
    cases digits' with
    | nil => cases hlength
    | cons c' digits' =>
      obtain ⟨hc, hdigits⟩ := List.forall_mem_cons.mp h
      obtain ⟨hc', hdigits'⟩ := List.forall_mem_cons.mp h'
      have hlength := Nat.succ.inj hlength
      have hrest := ofDigitChars_lt hdigits
      have hrest' := ofDigitChars_lt hdigits'
      rw [← hlength] at hrest'
      rw [List.cons_lt_cons_iff, ih hlength hdigits hdigits', digit_lt_iff hc hc',
        digit_eq_iff hc hc', ofDigitChars_cons, ofDigitChars_cons, ← hlength,
        mul_add_lt_mul_add_iff hrest hrest']

theorem padded_lt_iff (hwidth : 0 < width) (hm : m < 10 ^ width) (hn : n < 10 ^ width) :
    (Decimal.padded width m).toList < (Decimal.padded width n).toList ↔ m < n := by
  rw [digits_lt_iff ((length_padded hwidth hm).trans (length_padded hwidth hn).symm)
    (fun _ => isDigit_of_mem_padded) (fun _ => isDigit_of_mem_padded), ofDigitChars_padded,
    ofDigitChars_padded]

/-- Texts that start with numbers of the same width are ordered by these numbers first. -/
theorem padded_append_lt_iff (hwidth : 0 < width) (hm : m < 10 ^ width) (hn : n < 10 ^ width) :
    (Decimal.padded width m).toList ++ rest < (Decimal.padded width n).toList ++ rest' ↔
      m < n ∨ m = n ∧ rest < rest' := by
  have heq : (Decimal.padded width m).toList = (Decimal.padded width n).toList ↔ m = n := by
    constructor
    · intro h
      rw [← ofDigitChars_padded width m, h, ofDigitChars_padded]
    · rintro rfl
      rfl
  rw [append_lt_append_iff ((length_padded hwidth hm).trans (length_padded hwidth hn).symm),
    padded_lt_iff hwidth hm hn, heq]

end Text

end PriceTime
