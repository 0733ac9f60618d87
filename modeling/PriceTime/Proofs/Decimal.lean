import Mathlib
import PriceTime.Decimal

/-!
# The nearest decimal fraction

A binary fraction is shown with a fixed number of places after the point. What is shown is a whole
number of units of the last place, and it is the one nearest to the exact value; of two that are
equally near it is the even one. The exact value is the one that the sign, the exponent and the
fraction of the 64 bits stand for.

* `Decimal.IsNearest`: the nearest integer, ties to even.
* `Decimal.scaled_isNearest`: the units of a binary fraction.
* `Decimal.Amount.Denotes`: what is shown of 64 bits.
* `Decimal.amount_denotes`: it is the right thing.
-/

namespace PriceTime.Decimal

open Float.Model

/-- No integer is nearer, and if another one is as near, this one is even. -/
def IsNearest (x : ℚ) (n : ℤ) : Prop :=
  (∀ k : ℤ, |x - n| ≤ |x - k|) ∧ ∀ k : ℤ, k ≠ n → |x - k| = |x - n| → Even n

/-- The exact value of a number, sign aside. -/
def magnitude : UnpackedFloat → Option ℚ
  | .zero _ => some 0
  | .finite _ m e _ => some (m * 2 ^ e)
  | _ => none

/-- What a text shows of a number. -/
inductive Amount where
  | nan
  | infinite (negative : Bool)
  /-- So many units of the last place. -/
  | decimal (negative : Bool) (units : Nat)
deriving DecidableEq

/-- Whether this is what is to be shown of a number, given by its bits, if the last place is one of
`10 ^ -places`. -/
def Amount.Denotes (places : Nat) (bits : UInt64) : Amount → Prop
  | nan => UnpackedFloat.unpack .binary64 bits.toBitVec = .notANumber
  | infinite negative => negative = bits.toBitVec.msb ∧
      ∃ sign, UnpackedFloat.unpack .binary64 bits.toBitVec = .infinity sign
  | decimal negative units => negative = bits.toBitVec.msb ∧
      ∃ x, magnitude (UnpackedFloat.unpack .binary64 bits.toBitVec) = some x ∧
        IsNearest (x * 10 ^ places) units

/-! ## Rounding -/

/-- An integer that is at most half a unit away is the nearest one. -/
theorem IsNearest.of_le {x : ℚ} {n : ℤ} (h : |x - n| ≤ 1 / 2) (heven : |x - n| = 1 / 2 → Even n) :
    IsNearest x n := by
  have hapart (k : ℤ) (hk : k ≠ n) : 1 ≤ |x - k| + |x - n| := by
    have hone : (1 : ℚ) ≤ |((n - k : ℤ) : ℚ)| := by
      rw [← Int.cast_abs]
      exact_mod_cast Int.one_le_abs (sub_ne_zero.mpr (Ne.symm hk))
    calc (1 : ℚ) ≤ |((n - k : ℤ) : ℚ)| := hone
      _ = |(x - k) - (x - n)| := by
        push_cast
        congr 1
        ring
      _ ≤ |x - k| + |x - n| := abs_sub _ _
  constructor
  · intro k
    rcases eq_or_ne k n with rfl | hk
    · exact le_rfl
    · linarith [hapart k hk]
  · intro k hk hsame
    have := hapart k hk
    exact heven (le_antisymm h (by linarith))

theorem roundDiv_tie {num den : Nat}
    (h : 2 * num = 2 * den * roundDiv num den + den ∨
      2 * den * roundDiv num den = 2 * num + den) (hden : 0 < den) :
    Even (roundDiv num den) := by
  have hmod := Nat.mod_lt num hden
  have hsplit := Nat.div_add_mod num den
  have e : 2 * den * (num / den) = 2 * (den * (num / den)) := by rw [Nat.mul_assoc]
  have e' : 2 * den * (num / den + 1) = 2 * (den * (num / den)) + 2 * den := by
    rw [Nat.mul_add, e, Nat.mul_one]
  rw [Nat.even_iff]
  revert h
  unfold roundDiv
  dsimp only
  split
  · omega
  · split
    · omega
    · split <;> omega

theorem roundDiv_isNearest (num den : Nat) (hden : 0 < den) :
    IsNearest (num / den) (roundDiv num den) := by
  obtain ⟨hlow, hhigh⟩ := roundDiv_near num den hden
  have htie := @roundDiv_tie num den
  generalize roundDiv num den = r at hlow hhigh htie ⊢
  have hpos : (0 : ℚ) < den := by exact_mod_cast hden
  have herror : |(num : ℚ) / den - (r : ℤ)| = |(num : ℚ) - den * r| / den := by
    rw [Int.cast_natCast, ← abs_of_pos hpos, ← abs_div, abs_of_pos hpos, sub_div,
      mul_div_cancel_left₀ _ hpos.ne']
  have hlow : 2 * (num : ℚ) ≤ 2 * den * r + den := by exact_mod_cast hlow
  have hhigh : 2 * (den : ℚ) * r ≤ 2 * num + den := by exact_mod_cast hhigh
  refine .of_le ?_ fun hhalf => ?_
  · rw [herror, div_le_iff₀ hpos, abs_le]
    constructor <;> linarith
  · rw [herror, div_eq_iff hpos.ne', abs_eq (by linarith)] at hhalf
    have hexact : 2 * (num : ℚ) = 2 * den * r + den ∨ 2 * (den : ℚ) * r = 2 * num + den :=
      hhalf.imp (fun h => by linarith) (fun h => by linarith)
    exact_mod_cast htie (by exact_mod_cast hexact) hden

/-- What is shown is nearest to the exact value. -/
theorem scaled_isNearest (places m : Nat) (e : Int) :
    IsNearest ((m * 2 ^ e : ℚ) * 10 ^ places) (scaled places m e) := by
  cases e with
  | ofNat e =>
    have hexact : (m * 2 ^ Int.ofNat e : ℚ) * 10 ^ places =
        ((scaled places m (.ofNat e) : Nat) : ℤ) := by
      simp [scaled]
    rw [hexact]
    exact .of_le (by simp) (by simp)
  | negSucc e =>
    have hexact : (m * 2 ^ Int.negSucc e : ℚ) * 10 ^ places =
        ((m * 10 ^ places : Nat) : ℚ) / ((2 ^ (e + 1) : Nat) : ℚ) := by
      rw [zpow_negSucc]
      push_cast
      ring
    rw [hexact]
    exact roundDiv_isNearest _ _ (Nat.two_pow_pos _)

/-! ## Bits -/

section Fields

variable (bits : UInt64)

theorem toNat_exponent : (@UnpackedFloat.unpackExponent .binary64 bits.toBitVec).toNat =
    (bits >>> 52 &&& 0x7ff).toNat := by
  have hmask := Nat.and_two_pow_sub_one_eq_mod (bits.toNat / 2 ^ 52) 11
  simpa [UnpackedFloat.unpackExponent, Nat.shiftRight_eq_div_pow] using hmask.symm

theorem toNat_fraction : (@UnpackedFloat.unpackMantissa .binary64 bits.toBitVec).toNat =
    (bits &&& 0xfffffffffffff).toNat := by
  have hmask := Nat.and_two_pow_sub_one_eq_mod bits.toNat 52
  simpa [UnpackedFloat.unpackMantissa] using hmask.symm

theorem toNat_implicit (fraction : BitVec 52) :
    (1#1 ++ fraction).toNat = fraction.toNat + 0x10000000000000 := by
  rw [BitVec.toNat_append, ← Nat.shiftLeft_add_eq_or_of_lt fraction.isLt, Nat.add_comm]
  rfl

theorem isNegative_eq : isNegative bits = bits.toBitVec.msb := by
  rw [isNegative, BitVec.msb_eq_decide, Bool.eq_iff_iff, beq_iff_eq, decide_eq_true_iff,
    ← UInt64.toNat_inj, UInt64.toNat_shiftRight, Nat.shiftRight_eq_div_pow]
  have := bits.toNat_lt
  show bits.toNat / 2 ^ 63 = 1 ↔ 2 ^ 63 ≤ bits.toNat
  omega

/-- What the exponent and the fraction of an unpacked number mean. -/
def Magnitude.ofUnpacked : UnpackedFloat → Magnitude
  | .notANumber => nan
  | .infinity _ => infinite
  | .zero _ => finite 0 (-1074)
  | .finite _ m e _ => finite m e

theorem Magnitude.ofBits_eq :
    Magnitude.ofBits bits = .ofUnpacked (UnpackedFloat.unpack .binary64 bits.toBitVec) := by
  have hall : @UnpackedFloat.unpackExponent .binary64 bits.toBitVec = -1#11 ↔
      (bits >>> 52 &&& 0x7ff).toNat = 0x7ff := by
    rw [← toNat_exponent, ← BitVec.toNat_inj]
    rfl
  have hnone : @UnpackedFloat.unpackExponent .binary64 bits.toBitVec = 0#11 ↔
      (bits >>> 52 &&& 0x7ff).toNat = 0 := by
    rw [← toNat_exponent, ← BitVec.toNat_inj]
    rfl
  have hzero : @UnpackedFloat.unpackMantissa .binary64 bits.toBitVec = 0#52 ↔
      (bits &&& 0xfffffffffffff).toNat = 0 := by
    rw [← toNat_fraction, ← BitVec.toNat_inj]
    rfl
  unfold Magnitude.ofBits UnpackedFloat.unpack
  simp only [hall, hnone, hzero]
  split_ifs with hmax hfraction hsubnormal hfraction
  · rfl
  · rfl
  · rw [hfraction]
    rfl
  · simp only [ofUnpacked, toNat_fraction, toNat_exponent, hsubnormal]
    rfl
  · have himplicit := toNat_implicit (@UnpackedFloat.unpackMantissa .binary64 bits.toBitVec)
    simp only [ofUnpacked, himplicit, toNat_fraction, toNat_exponent]
    rfl

end Fields

/-- What is shown of a number. -/
def amount (places : Nat) (bits : UInt64) : Amount :=
  match Magnitude.ofBits bits with
  | .nan => .nan
  | .infinite => .infinite (isNegative bits)
  | .finite significand exponent =>
    .decimal (isNegative bits) (scaled places significand exponent)

theorem amount_denotes (places : Nat) (bits : UInt64) :
    (amount places bits).Denotes places bits := by
  unfold amount
  rw [Magnitude.ofBits_eq]
  cases hunpack : UnpackedFloat.unpack .binary64 bits.toBitVec with
  | notANumber => exact hunpack
  | infinity sign => exact ⟨isNegative_eq bits, sign, hunpack⟩
  | zero sign =>
    refine ⟨isNegative_eq bits, 0, by rw [hunpack, magnitude], ?_⟩
    have hscaled := scaled_isNearest places 0 (-1074)
    rwa [Nat.cast_zero, zero_mul] at hscaled
  | finite sign m e hm =>
    exact ⟨isNegative_eq bits, _, by rw [hunpack, magnitude], scaled_isNearest places m e⟩

/-- A float keeps its bits, but there is only one that is no number. -/
theorem toBits_ofBits (bits : UInt64) :
    (Float.ofBits bits).toBits = bits ∨
      UnpackedFloat.unpack .binary64 (Float.ofBits bits).toBits.toBitVec = .notANumber ∧
        UnpackedFloat.unpack .binary64 bits.toBitVec = .notANumber := by
  have hpack : (Float.ofBits bits).toBits.toBitVec = _ :=
    @UnpackedFloat.pack_unpack .binary64 bits.toBitVec (by decide)
  split at hpack
  · rename_i hnan
    refine .inr ⟨by rw [hpack, UnpackedFloat.unpack_packedNaN], ?_⟩
    rw [UnpackedFloat.isNaNBits, decide_eq_true_iff] at hnan
    unfold UnpackedFloat.unpack
    dsimp only
    rw [if_pos hnan.1, if_neg hnan.2]
  · exact .inl (UInt64.toBitVec_inj.mp hpack)

theorem Amount.Denotes.of_ofBits {places : Nat} {bits : UInt64} {amount : Amount}
    (h : amount.Denotes places (Float.ofBits bits).toBits) : amount.Denotes places bits := by
  rcases toBits_ofBits bits with hsame | ⟨hpacked, hnan⟩
  · rwa [hsame] at h
  · cases amount with
    | nan => exact hnan
    | infinite negative =>
      obtain ⟨-, sign, hinfinite⟩ := h
      rw [hpacked] at hinfinite
      cases hinfinite
    | decimal negative units =>
      obtain ⟨-, x, hx, -⟩ := h
      rw [hpacked] at hx
      cases hx

end PriceTime.Decimal
