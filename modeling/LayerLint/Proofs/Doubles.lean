import LayerLint.Decimal
import LayerLint.Proofs.Rounding

/-!
# Doubles as rational numbers

A positive double with 53 significant bits is a whole number times a power of two
(`NormalDouble`). Its bits give these two back (`unpack_toFloat`, `ofFloat_toFloat`), and doubles
compare as their values do (`toFloat_le_iff`). Whole numbers (`exists_ofUInt64`) and quotients
(`exists_div`) become such doubles with an error of at most one part in `2 ^ 53`, and whole numbers
of 53 bits or fewer with none. A fraction is rounded to a whole number in the same way as the result
of an operation (`Fraction.roundHalfEven_eq_roundedMantissa`).
-/

namespace LayerLint

open Float.Model (Format UnpackedFloat)
open Float.Model.UnpackedFloat

/-- A positive double with 53 significant bits, as a whole number times a power of two. -/
structure NormalDouble where
  mantissa : Nat
  exponent : Int
  le_mantissa : 2 ^ 52 ≤ mantissa
  mantissa_lt : mantissa < 2 ^ 53
  le_exponent : -1074 ≤ exponent
  exponent_le : exponent ≤ 971

namespace NormalDouble

variable (d : NormalDouble)

theorem mantissa_pos : 0 < d.mantissa := lt_of_lt_of_le (by decide) d.le_mantissa

theorem log2_mantissa : d.mantissa.log2 = 52 :=
  (Nat.log2_eq_iff d.mantissa_pos.ne').2 ⟨d.le_mantissa, d.mantissa_lt⟩

def unpacked : UnpackedFloat := .finite .positive d.mantissa d.exponent d.mantissa_pos

def toFloat : Float := .ofModel (.pack d.unpacked)

def value : ℚ := d.mantissa * 2 ^ d.exponent

/-- The exponent field. -/
def biased : Nat := (d.exponent + 1075).toNat

theorem biased_pos : 0 < d.biased := by
  have := d.le_exponent
  unfold biased
  omega

theorem biased_lt : d.biased < 2047 := by
  have := d.exponent_le
  unfold biased
  omega

theorem pack_finite (format : Format) (sign : Sign) {m : Nat} (e : Int) (hm : 0 < m) :
    pack format (.finite sign m e hm) =
      let biased := (e + format.exponentBias + format.mantissaBitsWithoutImplicit).toNat
      if 2 ^ format.exponentBits ≤ biased + 1 then packedInfinity format sign
      else if m.log2 + 1 = format.mantissaBits then
        packComponents format sign (BitVec.ofNat _ biased) (BitVec.ofNat _ m)
      else packComponents format sign 0#_ (BitVec.ofNat _ m) :=
  rfl

theorem pack_unpacked :
    pack .binary64 d.unpacked =
      packComponents .binary64 .positive (BitVec.ofNat 11 d.biased)
        (BitVec.ofNat 52 d.mantissa) := by
  have hbias : (d.exponent + (Format.binary64.exponentBias : ℕ) + (52 : ℕ)).toNat = d.biased := by
    show (d.exponent + 1023 + 52).toNat = _
    unfold biased
    omega
  have hrange : ¬ 2 ^ 11 ≤ d.biased + 1 := by
    have := d.biased_lt
    omega
  unfold unpacked
  rw [pack_finite]
  dsimp only
  rw [hbias, if_neg hrange, if_pos (by rw [d.log2_mantissa]; rfl)]

theorem toNat_packComponents (e : BitVec 11) (m : BitVec 52) :
    (packComponents .binary64 .positive e m).toNat = e.toNat * 2 ^ 52 + m.toNat := by
  show (0#1 ++ e ++ m).toNat = _
  rw [BitVec.toNat_append, ← Nat.shiftLeft_add_eq_or_of_lt m.isLt, BitVec.toNat_append,
    ← Nat.shiftLeft_add_eq_or_of_lt e.isLt, Nat.shiftLeft_eq]
  simp

theorem unpackSign_packComponents_positive (e : BitVec 11) (m : BitVec 52) :
    unpackSign (packComponents .binary64 .positive e m) = 0#1 := by
  have he := e.isLt
  have hm := m.isLt
  refine BitVec.eq_of_toNat_eq ?_
  show (BitVec.extractLsb 63 63 (packComponents .binary64 .positive e m)).toNat = 0
  rw [BitVec.extractLsb_toNat, toNat_packComponents, Nat.shiftRight_eq_div_pow]
  omega

theorem toNat_mantissa : (BitVec.ofNat 52 d.mantissa).toNat = d.mantissa - 2 ^ 52 := by
  have hlow := d.le_mantissa
  have hhigh := d.mantissa_lt
  rw [BitVec.toNat_ofNat]
  omega

theorem toNat_biased : (BitVec.ofNat 11 d.biased).toNat = d.biased := by
  have := d.biased_lt
  rw [BitVec.toNat_ofNat]
  omega

theorem unpack_toFloat : d.toFloat.toModel.unpack = d.unpacked := by
  have hmax : BitVec.ofNat 11 d.biased ≠ -1#11 := by
    intro h
    have : d.biased = 2047 := d.toNat_biased.symm.trans (congrArg BitVec.toNat h)
    exact absurd this d.biased_lt.ne
  have hzero : BitVec.ofNat 11 d.biased ≠ 0#11 := by
    intro h
    have : d.biased = 0 := d.toNat_biased.symm.trans (congrArg BitVec.toNat h)
    exact absurd this d.biased_pos.ne'
  have hmantissa : (1#1 ++ BitVec.ofNat 52 d.mantissa).toNat = d.mantissa := by
    have := d.le_mantissa
    rw [BitVec.toNat_append, ← Nat.shiftLeft_add_eq_or_of_lt (BitVec.isLt _), d.toNat_mantissa,
      Nat.shiftLeft_eq, BitVec.toNat_ofNat]
    omega
  have hexponent : (d.biased : Int) - ((Format.binary64.exponentBias : ℕ) + (52 : ℕ)) =
      d.exponent := by
    have := d.le_exponent
    show (d.biased : Int) - (1023 + 52) = _
    unfold biased
    omega
  show unpack .binary64 (pack .binary64 d.unpacked) = d.unpacked
  rw [pack_unpacked]
  unfold unpack unpacked
  dsimp only
  rw [if_neg (by rwa [unpackExponent_packComponents]),
    if_neg (by rwa [unpackExponent_packComponents]), UnpackedFloat.finite.injEq,
    unpackSign_packComponents_positive, unpackMantissa_packComponents,
    unpackExponent_packComponents]
  exact ⟨rfl, hmantissa, by rw [d.toNat_biased, hexponent]⟩

theorem toNat_toBits :
    d.toFloat.toBits.toNat = d.biased * 2 ^ 52 + (d.mantissa - 2 ^ 52) := by
  show (pack .binary64 d.unpacked).toNat = _
  rw [pack_unpacked, toNat_packComponents, d.toNat_biased, d.toNat_mantissa]

/-! ## The fields of a double -/

theorem exponentField_toFloat : Fraction.exponentField d.toFloat = d.biased := by
  have hlow := d.le_mantissa
  have hhigh := d.mantissa_lt
  have hbiased := d.biased_lt
  unfold Fraction.exponentField
  rw [d.toNat_toBits]
  show (d.biased * 4503599627370496 + (d.mantissa - 4503599627370496)) / 4503599627370496 % 2048 = _
  omega

theorem fractionField_toFloat : Fraction.fractionField d.toFloat = d.mantissa - 2 ^ 52 := by
  have hlow := d.le_mantissa
  have hhigh := d.mantissa_lt
  unfold Fraction.fractionField
  rw [d.toNat_toBits]
  show (d.biased * 4503599627370496 + (d.mantissa - 4503599627370496)) % 4503599627370496 = _
  omega

theorem isFinite_toFloat : Fraction.isFinite d.toFloat = true := by
  unfold Fraction.isFinite
  rw [d.exponentField_toFloat]
  exact bne_iff_ne.2 d.biased_lt.ne

theorem isNegative_toFloat : Fraction.isNegative d.toFloat = false := by
  have hhigh := d.mantissa_lt
  have hbiased := d.biased_lt
  unfold Fraction.isNegative
  rw [d.toNat_toBits]
  refine decide_eq_false ?_
  show ¬ 9223372036854775808 ≤ d.biased * 4503599627370496 + (d.mantissa - 4503599627370496)
  omega

theorem ofFloat_toFloat :
    Fraction.ofFloat d.toFloat = Fraction.scaled d.mantissa d.biased 1075 := by
  have hpos := d.biased_pos
  have hmantissa : Fraction.mantissa d.toFloat = d.mantissa := by
    unfold Fraction.mantissa
    rw [d.exponentField_toFloat, if_neg hpos.ne', d.fractionField_toFloat]
    exact Nat.add_sub_cancel' d.le_mantissa
  have hexponent : Fraction.exponent d.toFloat = d.biased := by
    unfold Fraction.exponent
    rw [d.exponentField_toFloat]
    omega
  unfold Fraction.ofFloat
  rw [hmantissa, hexponent]

end NormalDouble

namespace Fraction

def value (f : Fraction) : ℚ := f.num / f.den

theorem value_scaled (n e bias : Nat) :
    (scaled n e bias).value = n * 2 ^ ((e : Int) - bias) := by
  unfold value scaled
  split
  · next hle =>
    show ((n * Nat.pow 2 (e - bias) : ℕ) : ℚ) / (1 : ℕ) = _
    rw [← Int.natCast_sub hle, zpow_natCast]
    simp
  · next hlt =>
    show (n : ℚ) / ((Nat.pow 2 (bias - e) : ℕ) : ℚ) = _
    rw [show (e : Int) - bias = -((bias - e : ℕ) : Int) by omega, zpow_neg, zpow_natCast]
    simp [div_eq_mul_inv]

/-- A fraction is rounded as the mantissa of a double is. -/
theorem roundHalfEven_eq_roundedMantissa {f : Fraction} (h : 0 < f.den) :
    f.roundHalfEven = (ExtendedMantissa.ofMantissaAndAccuracy (f.num / f.den)
      (accuracyOfFraction (f.num % f.den) f.den)).roundedMantissa := by
  unfold roundHalfEven accuracyOfFraction
  dsimp only
  by_cases hzero : f.num % f.den = 0
  · rw [if_pos hzero, if_pos (by simp [hzero, h])]
    rfl
  · rw [if_neg hzero]
    rcases lt_trichotomy (2 * (f.num % f.den)) f.den with hlt | heq | hgt
    · rw [Nat.compare_eq_lt.2 hlt, if_pos (by simp [hlt])]
      rfl
    · rw [Nat.compare_eq_eq.2 heq]
      show _ = f.num / f.den + f.num / f.den % 2
      rcases Nat.mod_two_eq_zero_or_one (f.num / f.den) with hbit | hbit <;> simp [heq, hbit]
    · rw [Nat.compare_eq_gt.2 hgt, if_neg (by simp [hgt.not_gt, hgt.ne'])]
      rfl

theorem abs_roundHalfEven_sub_le {f : Fraction} (h : 0 < f.den) :
    |(f.roundHalfEven : ℚ) - f.value| ≤ 1 / 2 := by
  rw [roundHalfEven_eq_roundedMantissa h]
  exact (truncates_quotient f.num h).abs_rounded_sub_le

end Fraction

namespace NormalDouble

variable {d d' : NormalDouble}

theorem value_ofFloat : (Fraction.ofFloat d.toFloat).value = d.value := by
  have := d.le_exponent
  rw [d.ofFloat_toFloat, Fraction.value_scaled]
  unfold value biased
  congr 2
  omega

/-! ## Order -/

theorem value_lt_of_exponent_lt (h : d.exponent < d'.exponent) : d.value < d'.value := by
  have hhigh : (d.mantissa : ℚ) < 2 ^ 53 := by exact_mod_cast d.mantissa_lt
  have hlow : (2 : ℚ) ^ 52 ≤ d'.mantissa := by exact_mod_cast d'.le_mantissa
  calc d.value < 2 ^ 53 * 2 ^ d.exponent := mul_lt_mul_of_pos_right hhigh (by positivity)
    _ = 2 ^ 52 * 2 ^ (d.exponent + 1) := by
      rw [zpow_add_one₀ two_ne_zero]
      ring
    _ ≤ 2 ^ 52 * 2 ^ d'.exponent := by
      refine mul_le_mul_of_nonneg_left ?_ (by positivity)
      exact zpow_le_zpow_right₀ one_le_two h
    _ ≤ d'.value := mul_le_mul_of_nonneg_right hlow (by positivity)

theorem value_le_iff_of_exponent_eq (h : d.exponent = d'.exponent) :
    d.value ≤ d'.value ↔ d.mantissa ≤ d'.mantissa := by
  unfold value
  rw [h, mul_le_mul_iff_of_pos_right (by positivity)]
  exact Nat.cast_le

/-- Doubles compare as their values do. -/
theorem toFloat_le_iff : d.toFloat ≤ d'.toFloat ↔ d.value ≤ d'.value := by
  have hle : d.toFloat ≤ d'.toFloat ↔
      ((compare d.exponent d'.exponent).then (compare d.mantissa d'.mantissa)).isLE = true := by
    show decide (UnpackedFloat.le d.toFloat.toModel.unpack d'.toFloat.toModel.unpack) = true ↔ _
    rw [d.unpack_toFloat, d'.unpack_toFloat, decide_eq_true_iff]
    exact Iff.rfl
  rw [hle]
  rcases lt_trichotomy d.exponent d'.exponent with hlt | heq | hgt
  · rw [Int.compare_eq_lt.2 hlt]
    exact iff_of_true rfl (value_lt_of_exponent_lt hlt).le
  · rw [Int.compare_eq_eq.2 heq, value_le_iff_of_exponent_eq heq, ← Nat.isLE_compare]
    exact Iff.rfl
  · rw [Int.compare_eq_gt.2 hgt]
    exact iff_of_false Bool.false_ne_true (value_lt_of_exponent_lt hgt).not_ge

/-! ## Results of operations -/

/-- The double is `x` to within one part in `2 ^ 53`. -/
def Near (d : NormalDouble) (x : ℚ) : Prop := |d.value - x| ≤ x / 2 ^ 53

/-- The double is far from the ends of the range of doubles. -/
def Moderate (d : NormalDouble) : Prop := -100 ≤ d.exponent ∧ d.exponent ≤ 100

/-- What rounding gives is a normal double, near to the exact result. A result of 53 bits is
kept. -/
theorem exists_rounded {m : Nat} {e : Int} {a : Accuracy} {x : ℚ} (hm : 2 ^ 52 ≤ m)
    (hlow : -1074 ≤ e) (hhigh : e + m.log2 ≤ 1022)
    (h : Truncates (ExtendedMantissa.ofMantissaAndAccuracy m a) x) :
    ∃ d : NormalDouble,
      Float.ofModel (.pack (roundWithAccuracy .binary64 .positive m e a)) = d.toFloat ∧
      e ≤ d.exponent ∧ d.exponent ≤ e + m.log2 - 51 ∧ d.Near (x * 2 ^ e) ∧
      (m < 2 ^ 53 → a = .exact → d.value = m * 2 ^ e) := by
  obtain ⟨M, E, hM, hround, hMlow, hMhigh, hElow, hEhigh, hvalue⟩ :=
    exists_roundWithAccuracy .positive hm hlow a
  refine ⟨⟨M, E, hMlow, hMhigh, by omega, by omega⟩, ?_, hElow, hEhigh, ?_, ?_⟩
  · rw [hround]
    rfl
  · unfold Near value
    rw [hvalue]
    exact h.abs_rounded_value_sub_le hm e
  · rintro hbits rfl
    have hlog : m.log2 = 52 := (Nat.log2_eq_iff (by omega)).2 ⟨hm, hbits⟩
    unfold value
    rw [hvalue, hlog, Nat.sub_self, Nat.cast_zero, add_zero]
    rfl

/-- A whole number is shifted to 53 bits, if it has fewer, and rounded. -/
theorem ofUInt64_eq {n : UInt64} (hn : 0 < n.toNat) :
    ofUInt64 .binary64 n = roundWithAccuracy .binary64 .positive
      (n.toNat <<< (52 - n.toNat.log2)) (-((52 - n.toNat.log2 : ℕ) : Int)) .exact := by
  have htarget : Format.binary64.targetExponent (Float.Model.totalExponent n.toNat 0) =
      n.toNat.log2 - 52 := by
    rw [targetExponent_binary64, Float.Model.totalExponent]
    omega
  have hshift : (-((n.toNat.log2 : Int) - 52)).toNat = 52 - n.toNat.log2 := by omega
  have hcompare : compare (n.toNat : Int) 0 = .gt := Int.compare_eq_gt.2 (by omega)
  show UnpackedFloat.normalize .binary64 (n.toNat : Int) 0 .positive = _
  unfold UnpackedFloat.normalize
  simp only [hcompare, Int.toNat_natCast]
  unfold UnpackedFloat.round decreaseExponent
  simp only [htarget, Int.zero_sub, hshift]

theorem exists_ofUInt64 {n : UInt64} (hn : 0 < n.toNat) :
    ∃ d : NormalDouble, n.toFloat = d.toFloat ∧ d.Moderate ∧ d.Near n.toNat ∧
      (n.toNat < 2 ^ 53 → d.value = n.toNat) := by
  have hlog : n.toNat.log2 < 64 := (Nat.log2_lt hn.ne').2 n.toNat_lt
  have hbits : (n.toNat <<< (52 - n.toNat.log2)).log2 = n.toNat.log2 + (52 - n.toNat.log2) :=
    log2_shiftLeft hn.ne' _
  have hne : n.toNat <<< (52 - n.toNat.log2) ≠ 0 := by
    rwa [Ne, Nat.shiftLeft_eq_zero_iff, ← Ne, ← Nat.pos_iff_ne_zero]
  have hvalue : ((n.toNat <<< (52 - n.toNat.log2) : ℕ) : ℚ) *
      2 ^ (-((52 - n.toNat.log2 : ℕ) : Int)) = n.toNat := by
    rw [Nat.shiftLeft_eq, zpow_neg, zpow_natCast]
    push_cast
    field_simp
  obtain ⟨d, hd, hlow, hhigh, hnear, hexact⟩ :=
    exists_rounded (e := -((52 - n.toNat.log2 : ℕ) : Int)) ((Nat.le_log2 hne).1 (by omega))
      (by omega) (by omega) (truncates_exact _)
  rw [hvalue] at hnear hexact
  refine ⟨d, ?_, ⟨by omega, by omega⟩, hnear, fun hsmall => hexact ?_ rfl⟩
  · rw [← hd, ← ofUInt64_eq hn]
    rfl
  · have := (Nat.log2_lt hn.ne').2 hsmall
    exact (Nat.log2_lt hne).1 (by omega)

/-- A whole number of at most 53 bits compares with any other as the doubles do. -/
theorem toFloat_le_toFloat_iff {s n : UInt64} (hs : 0 < s.toNat) (hsmall : s.toNat < 2 ^ 53) :
    s.toFloat ≤ n.toFloat ↔ s.toNat ≤ n.toNat := by
  obtain ⟨a, ha, -, -, havalue⟩ := exists_ofUInt64 hs
  rw [ha]
  rcases Nat.eq_zero_or_pos n.toNat with hzero | hpos
  · obtain rfl : n = 0 := UInt64.toNat_inj.1 hzero
    have hgt : ¬ a.toFloat ≤ UInt64.toFloat 0 := by
      have hunpack : (UInt64.toFloat 0).toModel.unpack = .zero .positive := rfl
      show ¬ decide (UnpackedFloat.le a.toFloat.toModel.unpack _ = true) = true
      rw [a.unpack_toFloat, hunpack]
      exact Bool.false_ne_true
    exact iff_of_false hgt (by simpa using hs.ne')
  · obtain ⟨b, hb, -, hbnear, hbvalue⟩ := exists_ofUInt64 hpos
    rw [hb, toFloat_le_iff, havalue hsmall]
    rcases Nat.lt_or_ge n.toNat (2 ^ 53) with hn | hn
    · rw [hbvalue hn]
      exact Nat.cast_le
    · -- rounding may lower the larger number, but not below `2 ^ 53 - 1`
      have hn : (2 : ℚ) ^ 53 ≤ n.toNat := by exact_mod_cast hn
      have hs : (s.toNat : ℚ) + 1 ≤ 2 ^ 53 := by exact_mod_cast hsmall
      have hlow := (abs_le.1 hbnear).1
      refine iff_of_true ?_ (by omega)
      linarith

/-- The quotient is computed to 53 or 54 bits. -/
theorem divCore_eq {a b : NormalDouble} (ha : a.Moderate) (hb : b.Moderate) :
    divCore .binary64 a.mantissa a.exponent b.mantissa b.exponent =
      (a.mantissa <<< 53 / b.mantissa, a.exponent - b.exponent - 53,
        accuracyOfFraction (a.mantissa <<< 53 % b.mantissa) b.mantissa) := by
  obtain ⟨halow, hahigh⟩ := ha
  obtain ⟨hblow, hbhigh⟩ := hb
  have htarget : min (a.exponent - b.exponent) (Format.binary64.targetExponent
      (Float.Model.totalExponent a.mantissa a.exponent -
        Float.Model.totalExponent b.mantissa b.exponent)) = a.exponent - b.exponent - 53 := by
    rw [targetExponent_binary64, Float.Model.totalExponent, Float.Model.totalExponent,
      a.log2_mantissa, b.log2_mantissa]
    omega
  have hshift : (a.exponent - b.exponent - (a.exponent - b.exponent - 53)).toNat = 53 := by omega
  unfold divCore
  simp only [htarget, hshift]

theorem div_unpacked (a b : NormalDouble) :
    div .binary64 a.unpacked b.unpacked =
      let (m, e, accuracy) := divCore .binary64 a.mantissa a.exponent b.mantissa b.exponent
      roundWithAccuracy .binary64 .positive m e accuracy :=
  rfl

theorem quotient_bounds (a b : NormalDouble) :
    2 ^ 52 ≤ a.mantissa <<< 53 / b.mantissa ∧ a.mantissa <<< 53 / b.mantissa < 2 ^ 54 := by
  have halow := a.le_mantissa
  have hahigh := a.mantissa_lt
  have hblow := b.le_mantissa
  have hbhigh := b.mantissa_lt
  rw [Nat.le_div_iff_mul_le b.mantissa_pos, Nat.div_lt_iff_lt_mul b.mantissa_pos, Nat.shiftLeft_eq]
  omega

theorem exists_div {a b : NormalDouble} (ha : a.Moderate) (hb : b.Moderate) :
    ∃ d : NormalDouble, a.toFloat / b.toFloat = d.toFloat ∧ d.Near (a.value / b.value) := by
  obtain ⟨hlow, hhigh⟩ := quotient_bounds a b
  have hlog : (a.mantissa <<< 53 / b.mantissa).log2 < 54 := (Nat.log2_lt (by omega)).2 hhigh
  have hvalue : ((a.mantissa <<< 53 : ℕ) : ℚ) / b.mantissa * 2 ^ (a.exponent - b.exponent - 53) =
      a.value / b.value := by
    have hpos : (0 : ℚ) < b.mantissa := by exact_mod_cast b.mantissa_pos
    unfold value
    rw [Nat.shiftLeft_eq, zpow_sub₀ two_ne_zero, zpow_sub₀ two_ne_zero]
    push_cast
    field_simp
  have hcore := divCore_eq ha hb
  obtain ⟨halow, hahigh⟩ := ha
  obtain ⟨hblow, hbhigh⟩ := hb
  obtain ⟨d, hd, -, -, hnear, -⟩ := exists_rounded (e := a.exponent - b.exponent - 53) hlow
    (by omega) (by omega) (truncates_quotient (a.mantissa <<< 53) b.mantissa_pos)
  rw [hvalue] at hnear
  refine ⟨d, ?_, hnear⟩
  show Float.ofModel (.pack (div .binary64 a.toFloat.toModel.unpack b.toFloat.toModel.unpack)) = _
  rw [a.unpack_toFloat, b.unpack_toFloat, ← hd, div_unpacked, hcore]

end NormalDouble

end LayerLint
