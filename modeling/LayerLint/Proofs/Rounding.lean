import Mathlib.Algebra.Order.Field.Power
import Mathlib.Algebra.Order.Field.Rat
import Mathlib.Tactic.FieldSimp
import Mathlib.Tactic.Linarith
import Mathlib.Tactic.Ring

/-!
# Rounding to 53 bits

The result of an operation on doubles is computed as a whole number with two more bits, which say
how the exact result compares with the midpoint to the next whole number. `Truncates` gives these
bits their meaning. Shifts keep it (`Truncates.shiftRight`), so the whole number of 53 bits that is
rounded to at the end is within a half of the exact result (`Truncates.abs_rounded_sub_le`), and
what is rounded has the value of that whole number also when it needs one bit more
(`exists_roundWithAccuracy`).
-/

namespace LayerLint

open Float.Model
open Float.Model.UnpackedFloat

/-- The mantissa is `x` without its fraction. One bit tells whether the fraction is a half or more,
the other whether it is neither nothing nor a half. -/
structure Truncates (em : ExtendedMantissa) (x : ℚ) : Prop where
  mantissa_le : em.mantissa ≤ x
  lt_mantissa_add : x < em.mantissa + 1
  roundBit : em.roundBit = true ↔ em.mantissa + 1 / 2 ≤ x
  stickyBit : em.stickyBit = true ↔ x ≠ em.mantissa ∧ x ≠ em.mantissa + 1 / 2

namespace Truncates

variable {em : ExtendedMantissa} {x : ℚ}

/-- Some bit is set when there is a fraction. -/
theorem bits_iff (h : Truncates em x) :
    (em.roundBit || em.stickyBit) = true ↔ x ≠ em.mantissa := by
  rw [Bool.or_eq_true, h.roundBit, h.stickyBit]
  constructor
  · rintro (hhalf | ⟨hne, -⟩) heq
    · linarith
    · exact hne heq
  · intro hne
    rcases le_or_gt ((em.mantissa : ℚ) + 1 / 2) x with hhalf | hhalf
    · exact .inl hhalf
    · exact .inr ⟨hne, hhalf.ne⟩

theorem shiftRightOne (h : Truncates em x) : Truncates em.shiftRightOne (x / 2) := by
  have hlow := h.mantissa_le
  have hhigh := h.lt_mantissa_add
  have hbits := h.bits_iff
  have hm : (em.mantissa : ℚ) = 2 * (em.mantissa / 2 : ℕ) + (em.mantissa % 2 : ℕ) := by
    exact_mod_cast (Nat.div_add_mod em.mantissa 2).symm
  -- the last bit of the mantissa becomes the round bit
  rcases Nat.mod_two_eq_zero_or_one em.mantissa with hbit | hbit
  · rw [hbit, Nat.cast_zero, add_zero] at hm
    refine ⟨?_, ?_, ?_, ?_⟩ <;> simp only [ExtendedMantissa.shiftRightOne, hbit]
    · linarith
    · linarith
    · exact iff_of_false (by simp) (by linarith)
    · rw [hbits]
      refine ⟨fun hne => ⟨fun heq => hne (by linarith), by linarith⟩, fun hne heq => ?_⟩
      exact hne.1 (by linarith)
  · rw [hbit, Nat.cast_one] at hm
    refine ⟨?_, ?_, ?_, ?_⟩ <;> simp only [ExtendedMantissa.shiftRightOne, hbit]
    · linarith
    · linarith
    · exact iff_of_true (by simp) (by linarith)
    · rw [hbits]
      refine ⟨fun hne => ⟨by linarith, fun heq => hne (by linarith)⟩, fun hne heq => ?_⟩
      exact hne.2 (by linarith)

theorem shiftRight (h : Truncates em x) (k : Nat) : Truncates (em >>> k) (x / 2 ^ k) := by
  induction k with
  | zero =>
    rw [pow_zero, div_one]
    exact h
  | succ k ih =>
    rw [pow_succ, ← div_div]
    exact ih.shiftRightOne

theorem abs_rounded_sub_le (h : Truncates em x) : |(em.roundedMantissa : ℚ) - x| ≤ 1 / 2 := by
  obtain ⟨hlow, hhigh, hround, hsticky⟩ := h
  obtain ⟨m, roundBit, stickyBit⟩ := em
  rw [abs_le]
  cases roundBit with
  | false =>
    have hhalf : x < m + 1 / 2 := not_le.1 fun hle => absurd (hround.2 hle) (by simp)
    have hrounded : (⟨m, false, stickyBit⟩ : ExtendedMantissa).roundedMantissa = m := by
      cases stickyBit <;> rfl
    rw [hrounded]
    constructor <;> linarith
  | true =>
    have hhalf : (m : ℚ) + 1 / 2 ≤ x := hround.1 rfl
    cases stickyBit with
    | false =>
      have heq : x = m + 1 / 2 := by
        by_contra hne
        have hmantissa : x ≠ m := by linarith
        exact absurd (hsticky.2 ⟨hmantissa, hne⟩) (by simp)
      have hrounded : (⟨m, true, false⟩ : ExtendedMantissa).roundedMantissa = m + m % 2 := rfl
      rw [hrounded, heq]
      rcases Nat.mod_two_eq_zero_or_one m with hbit | hbit <;> rw [hbit] <;> push_cast <;>
        constructor <;> linarith
    | true =>
      have hrounded : (⟨m, true, true⟩ : ExtendedMantissa).roundedMantissa = m + 1 := rfl
      rw [hrounded]
      push_cast
      constructor <;> linarith

end Truncates

theorem roundedMantissa_bounds (em : ExtendedMantissa) :
    em.mantissa ≤ em.roundedMantissa ∧ em.roundedMantissa ≤ em.mantissa + 1 := by
  obtain ⟨m, roundBit, stickyBit⟩ := em
  unfold ExtendedMantissa.roundedMantissa
  cases roundBit <;> cases stickyBit <;>
    simp only [ExtendedMantissa.accuracy, Accuracy.roundToNearestEven] <;> omega

theorem mantissa_shiftRight (em : ExtendedMantissa) (k : Nat) :
    (em >>> k).mantissa = em.mantissa / 2 ^ k := by
  induction k with
  | zero => exact (Nat.div_one _).symm
  | succ k ih =>
    show (em >>> k).mantissa / 2 = _
    rw [ih, Nat.div_div_eq_div_mul, Nat.pow_succ]

@[simp] theorem mantissa_ofMantissaAndAccuracy (m : Nat) (a : Accuracy) :
    (ExtendedMantissa.ofMantissaAndAccuracy m a).mantissa = m := by
  rcases a with _ | _ | _ | _ <;> rfl

theorem truncates_exact (m : Nat) :
    Truncates (ExtendedMantissa.ofMantissaAndAccuracy m .exact) m where
  mantissa_le := le_rfl
  lt_mantissa_add := lt_add_one _
  roundBit := iff_of_false Bool.false_ne_true (not_le.2 (lt_add_of_pos_right _ (by norm_num)))
  stickyBit := iff_of_false Bool.false_ne_true fun hne => hne.1 rfl

theorem truncates_inexact (m : Nat) {f : ℚ} (hpos : 0 < f) (hone : f < 1) {o : Ordering}
    (hlt : o = .lt ↔ f < 1 / 2) (heq : o = .eq ↔ f = 1 / 2) :
    Truncates (ExtendedMantissa.ofMantissaAndAccuracy m (.inexact o)) (m + f) := by
  have hne : (m : ℚ) + f ≠ m := by linarith
  refine ⟨?_, ?_, ?_, ?_⟩ <;> simp only [mantissa_ofMantissaAndAccuracy]
  · linarith
  · linarith
  · rw [add_le_add_iff_left, ← not_lt, ← hlt]
    cases o <;> simp [ExtendedMantissa.ofMantissaAndAccuracy]
  · rw [Ne, Ne, add_right_inj, ← heq, and_iff_right hne]
    cases o <;> simp [ExtendedMantissa.ofMantissaAndAccuracy]

/-- The quotient of whole numbers with what its remainder tells about the fraction. -/
theorem truncates_quotient (n : Nat) {d : Nat} (hd : 0 < d) :
    Truncates (ExtendedMantissa.ofMantissaAndAccuracy (n / d) (accuracyOfFraction (n % d) d))
      (n / d : ℚ) := by
  have hpos : (0 : ℚ) < d := by exact_mod_cast hd
  have hsplit : (n : ℚ) / d = (n / d : ℕ) + (n % d : ℕ) / d := by
    rw [div_eq_iff hpos.ne', add_mul, div_mul_cancel₀ _ hpos.ne']
    exact_mod_cast (Nat.div_add_mod' n d).symm
  rw [hsplit]
  unfold accuracyOfFraction
  split
  · next hzero =>
    rw [hzero, Nat.cast_zero, zero_div, add_zero]
    exact truncates_exact _
  · next hrest =>
    refine truncates_inexact _ (div_pos ?_ hpos) ?_ ?_ ?_
    · exact_mod_cast Nat.pos_of_ne_zero hrest
    · rw [div_lt_iff₀ hpos, one_mul]
      exact_mod_cast Nat.mod_lt n hd
    · rw [Nat.compare_eq_lt, div_lt_div_iff₀ hpos two_pos, one_mul, mul_comm]
      exact_mod_cast Iff.rfl
    · rw [Nat.compare_eq_eq, div_eq_div_iff hpos.ne' two_ne_zero, one_mul, mul_comm]
      exact_mod_cast Iff.rfl

/-! ## The exponent -/

theorem targetExponent_binary64 (total : Int) :
    Format.binary64.targetExponent total = max (total - 53) (-1074) := rfl

/-- A mantissa of 53 bits or more is cut to 53. -/
theorem shiftToTargetExponent_eq {m : Nat} {e : Int} (hm : 52 ≤ m.log2) (he : -1074 ≤ e)
    (a : Accuracy) :
    shiftToTargetExponent .binary64 m e a =
      (ExtendedMantissa.ofMantissaAndAccuracy m a >>> (m.log2 - 52), e + (m.log2 - 52 : ℕ)) := by
  have htarget : Format.binary64.targetExponent (totalExponent m e) = m.log2 + e - 52 := by
    rw [targetExponent_binary64, totalExponent]
    omega
  have hshift : (Format.binary64.targetExponent (totalExponent m e) - e).toNat = m.log2 - 52 := by
    omega
  unfold shiftToTargetExponent shiftToExponent
  simp only [hshift]

theorem log2_shiftLeft {m : Nat} (hm : m ≠ 0) (k : Nat) : (m <<< k).log2 = m.log2 + k := by
  induction k with
  | zero => rfl
  | succ k ih =>
    have hne : m <<< k ≠ 0 := by rwa [Ne, Nat.shiftLeft_eq_zero_iff]
    rw [Nat.shiftLeft_succ, Nat.log2_two_mul hne, ih, Nat.add_assoc]

/-- The 53 leading bits of a number. -/
theorem leading_bounds {m : Nat} (hm : 2 ^ 52 ≤ m) :
    2 ^ 52 ≤ m / 2 ^ (m.log2 - 52) ∧ m / 2 ^ (m.log2 - 52) < 2 ^ 53 := by
  have hne : m ≠ 0 := by omega
  have hlog : 52 ≤ m.log2 := (Nat.le_log2 hne).2 hm
  constructor
  · rw [Nat.le_div_iff_mul_le (by positivity), ← Nat.pow_add, Nat.add_sub_cancel' hlog]
    exact Nat.log2_self_le hne
  · rw [Nat.div_lt_iff_lt_mul (by positivity), ← Nat.pow_add,
      show 53 + (m.log2 - 52) = m.log2 + 1 by omega]
    exact Nat.lt_log2_self

/-- Rounding keeps the value of the 53 bits that it rounds to. When these carry into one bit more,
the last of them is a zero and is dropped. -/
theorem exists_roundWithAccuracy (s : Sign) {m : Nat} {e : Int} (hm : 2 ^ 52 ≤ m)
    (he : -1074 ≤ e) (a : Accuracy) :
    ∃ (M : Nat) (E : Int) (hM : 0 < M),
      roundWithAccuracy .binary64 s m e a = .finite s M E hM ∧
      2 ^ 52 ≤ M ∧ M < 2 ^ 53 ∧ e ≤ E ∧ E ≤ e + m.log2 - 51 ∧
      (M : ℚ) * 2 ^ E =
        (ExtendedMantissa.ofMantissaAndAccuracy m a >>> (m.log2 - 52)).roundedMantissa *
          2 ^ (e + (m.log2 - 52 : ℕ)) := by
  have hlog : 52 ≤ m.log2 := (Nat.le_log2 (by omega)).2 hm
  obtain ⟨hlow, hhigh⟩ := leading_bounds hm
  have hbounds := roundedMantissa_bounds
    (ExtendedMantissa.ofMantissaAndAccuracy m a >>> (m.log2 - 52))
  rw [mantissa_shiftRight, mantissa_ofMantissaAndAccuracy] at hbounds
  unfold roundWithAccuracy
  rw [shiftToTargetExponent_eq hlog he]
  dsimp only
  generalize (ExtendedMantissa.ofMantissaAndAccuracy m a >>> (m.log2 - 52)).roundedMantissa = R at *
  generalize hE : e + ((m.log2 - 52 : ℕ) : Int) = E at *
  have hRlog : 52 ≤ R.log2 := (Nat.le_log2 (by omega)).2 (by omega)
  have hfinal : (ExtendedMantissa.ofMantissaAndAccuracy R .exact >>> (R.log2 - 52)).mantissa =
      R / 2 ^ (R.log2 - 52) := by
    rw [mantissa_shiftRight, mantissa_ofMantissaAndAccuracy]
  obtain ⟨hRlow, hRhigh⟩ := leading_bounds (by omega : 2 ^ 52 ≤ R)
  rw [shiftToTargetExponent_eq hRlog (by omega)]
  dsimp only
  rw [dif_neg (by omega)]
  refine ⟨_, _, _, rfl, by omega, by omega, ?_⟩
  rw [hfinal]
  rcases Nat.lt_or_ge R (2 ^ 53) with hR | hR
  · have hR52 : R.log2 = 52 := (Nat.log2_eq_iff (by omega)).2 ⟨by omega, hR⟩
    rw [hR52, Nat.sub_self, Nat.pow_zero, Nat.div_one, Nat.cast_zero, add_zero]
    exact ⟨by omega, by omega, rfl⟩
  · obtain rfl : R = 2 ^ 53 := by omega
    have hcarry : E + ((Nat.log2 (2 ^ 53) - 52 : ℕ) : Int) = E + 1 := by rw [Nat.log2_two_pow]; rfl
    rw [hcarry, Nat.log2_two_pow, zpow_add_one₀ two_ne_zero]
    refine ⟨by omega, by omega, ?_⟩
    push_cast
    ring

/-- What is rounded to is within one part in `2 ^ 53` of the exact result. -/
theorem Truncates.abs_rounded_value_sub_le {m : Nat} (hm : 2 ^ 52 ≤ m) {a : Accuracy} {x : ℚ}
    (h : Truncates (ExtendedMantissa.ofMantissaAndAccuracy m a) x) (e : Int) :
    |((ExtendedMantissa.ofMantissaAndAccuracy m a >>> (m.log2 - 52)).roundedMantissa : ℚ) *
        2 ^ (e + (m.log2 - 52 : ℕ)) - x * 2 ^ e| ≤ x * 2 ^ e / 2 ^ 53 := by
  have hshift := h.shiftRight (m.log2 - 52)
  have hlow : (2 : ℚ) ^ 52 ≤ x / 2 ^ (m.log2 - 52) := by
    refine le_trans ?_ hshift.mantissa_le
    rw [mantissa_shiftRight, mantissa_ofMantissaAndAccuracy]
    exact_mod_cast (leading_bounds hm).1
  have hround := hshift.abs_rounded_sub_le
  have hunit : (0 : ℚ) < 2 ^ (e + (m.log2 - 52 : ℕ)) := by positivity
  have hx : x * 2 ^ e = x / 2 ^ (m.log2 - 52) * 2 ^ (e + (m.log2 - 52 : ℕ)) := by
    rw [zpow_add₀ two_ne_zero, zpow_natCast]
    field_simp
  rw [hx, ← sub_mul, abs_mul, abs_of_pos hunit, mul_div_right_comm]
  refine mul_le_mul_of_nonneg_right (hround.trans ?_) hunit.le
  rw [div_le_div_iff₀ two_pos (by positivity)]
  linarith

end LayerLint
