import Mathlib.Algebra.Order.Ring.Int

/-!
# Words as floats

A figure that takes a logarithm turns a volume into a float first. Rounding a positive word keeps at
least one of its bits, whatever is shifted out and carried in, and packing a number that was rounded
does not lose it; so the float is positive, too.

* `round_isRounded`: rounding leaves a positive number of at most 53 bits.
* `IsRounded.pos`: such a number is still positive when it is packed and read again.
* `toFloat_pos`: a positive word is a positive float.
-/

namespace PriceTime

open Float.Model Float.Model.UnpackedFloat

/-! ## Rounding -/

theorem mantissa_shiftRight (em : ExtendedMantissa) (n : Nat) :
    (em >>> n).mantissa = em.mantissa / 2 ^ n := by
  show (n.repeat ExtendedMantissa.shiftRightOne em).mantissa = _
  induction n with
  | zero => exact (Nat.div_one _).symm
  | succ n ih =>
    show (n.repeat ExtendedMantissa.shiftRightOne em).mantissa / 2 = _
    rw [ih, Nat.div_div_eq_div_mul, Nat.pow_succ]

theorem le_roundedMantissa (em : ExtendedMantissa) : em.mantissa ≤ em.roundedMantissa := by
  obtain ⟨mantissa, roundBit, stickyBit⟩ := em
  cases roundBit <;> cases stickyBit <;>
    simp [ExtendedMantissa.roundedMantissa, ExtendedMantissa.accuracy, Accuracy.roundToNearestEven]

/-- Shifting leaves the first 53 bits of a mantissa, or all of it. -/
theorem shiftToTargetExponent_bounds {m : Nat} {e : Int} (hm : 0 < m) (he : -1074 ≤ e) :
    0 < (shiftToTargetExponent .binary64 m e .exact).1.mantissa ∧
      (shiftToTargetExponent .binary64 m e .exact).1.mantissa < 2 ^ 53 ∧
      -1074 ≤ (shiftToTargetExponent .binary64 m e .exact).2 := by
  have hamount : (Format.binary64.targetExponent (totalExponent m e) - e).toNat = m.log2 - 52 := by
    have htarget : Format.binary64.targetExponent (totalExponent m e) =
        max ((m.log2 + 1 + e) - 53) (-1074) := rfl
    rw [htarget]
    omega
  have hmantissa : (shiftToTargetExponent .binary64 m e .exact).1.mantissa =
      m / 2 ^ (m.log2 - 52) := by
    rw [← hamount]
    exact mantissa_shiftRight _ _
  have hlow : 2 ^ m.log2 ≤ m := Nat.log2_self_le (Nat.ne_of_gt hm)
  have hhigh : m < 2 ^ (m.log2 + 1) := Nat.lt_log2_self
  rw [hmantissa]
  refine ⟨?_, ?_, ?_⟩
  · refine Nat.div_pos ?_ (Nat.two_pow_pos _)
    exact (Nat.pow_le_pow_right (by decide) (Nat.sub_le _ _)).trans hlow
  · rw [Nat.div_lt_iff_lt_mul (Nat.two_pow_pos _), ← Nat.pow_add]
    exact hhigh.trans_le (Nat.pow_le_pow_right (by decide) (by omega))
  · show -1074 ≤ e + ((Format.binary64.targetExponent (totalExponent m e) - e).toNat : Int)
    omega

/-- A positive number of at most 53 bits, of which the last one stands for at least `2 ^ -1074`. -/
inductive IsRounded : UnpackedFloat → Prop where
  | finite {m : Nat} {e : Int} {hpos : 0 < m} (hm : m < 2 ^ 53) (he : -1074 ≤ e) :
      IsRounded (.finite .positive m e hpos)

theorem roundWithAccuracy_isRounded {m : Nat} {e : Int} (hm : 0 < m) (he : -1074 ≤ e) :
    IsRounded (roundWithAccuracy .binary64 .positive m e .exact) := by
  obtain ⟨hpos, -, hexponent⟩ := shiftToTargetExponent_bounds hm he
  -- What is carried in may take one bit more, so there is a second shift.
  obtain ⟨hpos', hbits, hexponent'⟩ :=
    shiftToTargetExponent_bounds (hpos.trans_le (le_roundedMantissa _)) hexponent
  unfold roundWithAccuracy
  dsimp only
  rw [dif_neg (Nat.ne_of_gt hpos')]
  exact .finite hbits hexponent'

theorem round_isRounded {m : Nat} {e : Int} (hm : 0 < m) (he : -1074 ≤ e) :
    IsRounded (UnpackedFloat.round .binary64 .positive m e) := by
  have htarget : -1074 ≤ Format.binary64.targetExponent (totalExponent m e) := Int.le_max_right _ _
  unfold UnpackedFloat.round decreaseExponent
  dsimp only
  refine roundWithAccuracy_isRounded ?_ (by omega)
  rw [Nat.shiftLeft_eq]
  exact Nat.mul_pos hm (Nat.two_pow_pos _)

/-! ## Packing -/

theorem unpackSign_packComponents {spec : Format} {sign : Sign}
    {exponent : BitVec spec.exponentBits} {mantissa : BitVec spec.mantissaBitsWithoutImplicit} :
    unpackSign (packComponents spec sign exponent mantissa) = sign.toBitVec := by
  ext i hi
  obtain rfl : i = 0 := by omega
  unfold unpackSign packComponents
  simp [BitVec.getLsbD_append, BitVec.getElem_append]

theorem ofNat_ne_zero {w n : Nat} (hpos : 0 < n) (hn : n < 2 ^ w) : BitVec.ofNat w n ≠ 0#w := by
  rw [Ne, ← BitVec.toNat_inj, BitVec.toNat_ofNat, BitVec.toNat_zero, Nat.mod_eq_of_lt hn]
  omega

theorem ofNat_ne_neg_one {w n : Nat} (hn : n + 1 < 2 ^ w) : BitVec.ofNat w n ≠ -1#w := by
  rw [Ne, ← BitVec.toNat_inj, BitVec.toNat_ofNat, BitVec.neg_one_eq_allOnes, BitVec.toNat_allOnes,
    Nat.mod_eq_of_lt (by omega)]
  omega

/-- Unless its exponent says that it is no number, a packed float is zero only in all its bits. -/
theorem unpack_pos {exponent : BitVec 11} {mantissa : BitVec 52} (hnumber : exponent ≠ -1#11)
    (hbits : exponent ≠ 0#11 ∨ mantissa ≠ 0#52) : (zero .positive).lt (UnpackedFloat.unpack
      .binary64 (packComponents .binary64 .positive exponent mantissa)) = true := by
  unfold UnpackedFloat.unpack
  dsimp only
  rw [unpackSign_packComponents, unpackExponent_packComponents, if_neg hnumber]
  by_cases hexponent : exponent = 0#11
  · have hmantissa : ¬ unpackMantissa (packComponents .binary64 .positive exponent mantissa) =
        0#52 := by
      rw [unpackMantissa_packComponents]
      exact hbits.resolve_left (not_not.mpr hexponent)
    rw [if_pos hexponent, dif_neg hmantissa]
    rfl
  · rw [if_neg hexponent]
    rfl

/-- What was rounded to a positive number is packed as one, if only as the infinite one. -/
theorem IsRounded.pos {u : UnpackedFloat} (h : IsRounded u) : (zero .positive).lt
    (UnpackedFloat.unpack .binary64 (UnpackedFloat.pack .binary64 u)) = true := by
  obtain @⟨m, e, hpos, hm, he⟩ := h
  have hbias : (Format.binary64.exponentBias : Int) = 1023 := rfl
  unfold UnpackedFloat.pack
  dsimp only
  split
  · decide
  · rename_i hrange
    split
    · exact unpack_pos (ofNat_ne_neg_one (Nat.lt_of_not_le hrange))
        (.inl (ofNat_ne_zero (by omega) (by omega)))
    · rename_i hlog
      -- Fewer than 53 bits are packed under the exponent zero.
      have hlog' : m.log2 < 52 := by
        have hlt : m.log2 < 53 := (Nat.log2_lt (Nat.ne_of_gt hpos)).mpr hm
        have hne : m.log2 + 1 ≠ 53 := hlog
        omega
      exact unpack_pos (by decide)
        (.inr (ofNat_ne_zero hpos ((Nat.log2_lt (Nat.ne_of_gt hpos)).mp hlog')))

theorem toFloat_pos {n : UInt64} (h : 0 < n) : 0 < n.toFloat := by
  have hpos : 0 < n.toNat := UInt64.lt_iff_toNat_lt.mp h
  have hround : UnpackedFloat.ofUInt64 .binary64 n =
      UnpackedFloat.round .binary64 .positive n.toNat 0 := by
    unfold UnpackedFloat.ofUInt64 UnpackedFloat.ofNat UnpackedFloat.ofInt UnpackedFloat.normalize
    rw [show compare (n.toNat : Int) 0 = .gt from compare_gt_iff_gt.mpr (by omega)]
    rfl
  have hlt := (round_isRounded hpos (show -1074 ≤ (0 : Int) by decide)).pos
  rw [← hround] at hlt
  exact decide_eq_true hlt

end PriceTime
