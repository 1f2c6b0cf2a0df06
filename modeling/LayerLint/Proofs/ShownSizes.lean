import Mathlib.Tactic.GCongr
import Mathlib.Tactic.LinearCombination
import LayerLint.History.Size
import LayerLint.Proofs.Doubles
import LayerLint.Proofs.SizeGrammar

/-!
# Sizes as they are shown

A size is shown in the largest unit that it reaches, with one decimal place. The unit is chosen by
the size itself (`formatBytes_eq`), but the number is the nearest tenth of the quotient
(`nearestTenth_tenths`). A size at most half a tenth below a thousand of its unit is therefore shown
as `1000.0` of it and not as `1.0` of the next one (`unitHolds_iff`).
-/

namespace LayerLint

/-! ## Numbers with one place -/

namespace Decimal

theorem value_ofNat (n : Nat) : value (Text.ofNat n) = n := Nat.ofDigitChars_ten_toDigits

theorem isDigit_of_mem_ofNat {n : Nat} {c : Char} (h : c ∈ Text.ofNat n) : isDigit c = true :=
  Nat.isDigit_of_mem_toDigits (by decide) (by decide) h

/-- The tenths that a double is rounded to. -/
def tenths (x : Float) : Nat :=
  Fraction.roundHalfEven ⟨(Fraction.ofFloat x).num * 10, (Fraction.ofFloat x).den⟩

end Decimal

namespace History

open Decimal (tenths withPoint)

def Amount.ofTenths (n : Nat) : Amount := ⟨Text.ofNat (n / 10), Text.ofNat (n % 10)⟩

namespace Amount

theorem length_places_ofTenths (n : Nat) : (ofTenths n).places.length = 1 := by
  show (Nat.toDigits 10 (n % 10)).length = 1
  rw [Nat.toDigits_of_lt_base (Nat.mod_lt n (by decide)), List.length_singleton]

theorem ofDigits_ofTenths (n : Nat) : (ofTenths n).OfDigits where
  whole_ne_nil := Nat.toDigits_ne_nil
  whole_digits _ hc := Decimal.isDigit_of_mem_ofNat hc
  places_digits _ hc := Decimal.isDigit_of_mem_ofNat hc

theorem text_ofTenths (n : Nat) : (ofTenths n).text = withPoint n 1 := by
  have hplaces : (ofTenths n).places ≠ [] := Nat.toDigits_ne_nil
  have hlength := length_places_ofTenths n
  unfold text
  rw [if_neg hplaces]
  show _ = Text.ofNat (n / 10) ++
    '.' :: (List.replicate (1 - (ofTenths n).places.length) '0' ++ (ofTenths n).places)
  rw [hlength]
  rfl

/-- A number is written in one way only. -/
theorem text_inj {a b : Amount} (ha : a.OfDigits) (hb : b.OfDigits) (h : a.text = b.text) :
    a = b := by
  have hread : ∀ {a : Amount}, a.OfDigits → amount? a.text = some (a, []) := fun {a} ha => by
    have := amount?_text_append ha (show EndsBefore [] by simp [EndsBefore])
    rwa [List.append_nil] at this
  have := (hread ha).symm.trans (h ▸ hread hb)
  exact congrArg Prod.fst (Option.some.inj this)

end Amount

/-! ## The unit and the nearest tenth -/

/-- A quotient of sizes is neither negative nor infinite. -/
theorem fixed_div {n s : UInt64} (hn : 0 < n.toNat) (hs : 0 < s.toNat) :
    Decimal.fixed 1 (n.toFloat / s.toFloat) = withPoint (tenths (n.toFloat / s.toFloat)) 1 := by
  obtain ⟨a, ha, hamoderate, -, -⟩ := NormalDouble.exists_ofUInt64 hn
  obtain ⟨b, hb, hbmoderate, -, -⟩ := NormalDouble.exists_ofUInt64 hs
  obtain ⟨d, hd, -⟩ := NormalDouble.exists_div hamoderate hbmoderate
  rw [ha, hb, hd]
  have hsign : Decimal.sign d.toFloat = [] := by
    unfold Decimal.sign
    rw [d.isNegative_toFloat]
    rfl
  unfold Decimal.fixed
  rw [if_pos d.isFinite_toFloat, hsign]
  rfl

theorem formatBytes_eq (bytes : UInt64) :
    formatBytes bytes =
      if 1000000000 ≤ bytes.toNat then
        withPoint (tenths (bytes.toFloat / UInt64.toFloat 1000000000)) 1 ++ "GB".toList
      else if 1000000 ≤ bytes.toNat then
        withPoint (tenths (bytes.toFloat / UInt64.toFloat 1000000)) 1 ++ "MB".toList
      else if 1000 ≤ bytes.toNat then
        withPoint (tenths (bytes.toFloat / UInt64.toFloat 1000)) 1 ++ "kB".toList
      else Text.ofNat bytes.toNat ++ ['B'] := by
  have hunits : units = [("GB".toList, UInt64.toFloat 1000000000),
      ("MB".toList, UInt64.toFloat 1000000), ("kB".toList, UInt64.toFloat 1000)] := rfl
  have hreaches : ∀ s : UInt64, 0 < s.toNat → s.toNat < 2 ^ 53 →
      decide (s.toFloat ≤ bytes.toFloat) = decide (s.toNat ≤ bytes.toNat) := fun s hs hsmall =>
    decide_eq_decide.2 (NormalDouble.toFloat_le_toFloat_iff hs hsmall)
  have hfind : units.find? (fun u => u.2 ≤ bytes.toFloat) =
      if 1000000000 ≤ bytes.toNat then some ("GB".toList, UInt64.toFloat 1000000000)
      else if 1000000 ≤ bytes.toNat then some ("MB".toList, UInt64.toFloat 1000000)
      else if 1000 ≤ bytes.toNat then some ("kB".toList, UInt64.toFloat 1000)
      else none := by
    rw [hunits]
    simp only [List.find?_cons, List.find?_nil, hreaches 1000000000 (by decide) (by decide),
      hreaches 1000000 (by decide) (by decide), hreaches 1000 (by decide) (by decide),
      UInt64.reduceToNat]
    split_ifs <;> simp only [*, decide_true, decide_false]
  unfold formatBytes
  split
  · next unit scale hfound =>
    have hunit := hfind.symm.trans hfound
    split_ifs at hunit ⊢ with hG hM hk <;> cases hunit
    · rw [fixed_div (by omega) (by decide)]
    · rw [fixed_div (by omega) (by decide)]
    · rw [fixed_div (by omega) (by decide)]
  · next hnone =>
    have hunit := hfind.symm.trans hnone
    split_ifs at hunit ⊢
    rfl

/-- No number of tenths is nearer to `n / s`. -/
def NearestTenth (t n s : Nat) : Prop := 20 * n ≤ 2 * s * t + s ∧ 2 * s * t ≤ 20 * n + s

theorem nearestTenth_tenths {n s : UInt64} (hn : 0 < n.toNat) (hs : 0 < s.toNat)
    (hnsmall : 20 * n.toNat < 2 ^ 53) (hssmall : s.toNat < 2 ^ 53) :
    NearestTenth (tenths (n.toFloat / s.toFloat)) n.toNat s.toNat := by
  obtain ⟨a, ha, hamoderate, -, havalue⟩ := NormalDouble.exists_ofUInt64 hn
  obtain ⟨b, hb, hbmoderate, -, hbvalue⟩ := NormalDouble.exists_ofUInt64 hs
  obtain ⟨d, hd, hnear⟩ := NormalDouble.exists_div hamoderate hbmoderate
  unfold NormalDouble.Near at hnear
  rw [havalue (by omega), hbvalue hssmall] at hnear
  rw [ha, hb, hd]
  have hround : |(tenths d.toFloat : ℚ) - 10 * d.value| ≤ 1 / 2 := by
    have hden : 0 < (Fraction.ofFloat d.toFloat).den := by
      rw [d.ofFloat_toFloat]
      exact Fraction.den_scaled_pos ..
    have hvalue : (⟨(Fraction.ofFloat d.toFloat).num * 10, (Fraction.ofFloat d.toFloat).den⟩ :
        Fraction).value = 10 * d.value := by
      rw [← NormalDouble.value_ofFloat]
      unfold Fraction.value
      push_cast
      ring
    rw [← hvalue]
    exact Fraction.abs_roundHalfEven_sub_le hden
  have hspos : (0 : ℚ) < s.toNat := by exact_mod_cast hs
  have hquotient : (n.toNat : ℚ) / s.toNat * s.toNat = n.toNat := div_mul_cancel₀ _ hspos.ne'
  have hsmall : (20 : ℚ) * n.toNat < 2 ^ 53 := by exact_mod_cast hnsmall
  -- the error of the quotient is too small to matter between whole numbers
  have herror : |(2 : ℚ) * s.toNat * tenths d.toFloat - 20 * n.toNat| < s.toNat + 1 := by
    calc |(2 : ℚ) * s.toNat * tenths d.toFloat - 20 * n.toNat|
        = |2 * s.toNat * (tenths d.toFloat - 10 * d.value) +
            20 * s.toNat * (d.value - n.toNat / s.toNat)| := by
          congr 1
          linear_combination 20 * hquotient
      _ ≤ 2 * s.toNat * |tenths d.toFloat - 10 * d.value| +
            20 * s.toNat * |d.value - n.toNat / s.toNat| := by
          refine (abs_add_le _ _).trans_eq ?_
          rw [abs_mul (2 * _), abs_mul (20 * _), abs_of_pos (by positivity : (0 : ℚ) < 2 * s.toNat),
            abs_of_pos (by positivity : (0 : ℚ) < 20 * s.toNat)]
      _ ≤ 2 * s.toNat * (1 / 2) + 20 * s.toNat * (n.toNat / s.toNat / 2 ^ 53) := by gcongr
      _ = s.toNat + 20 * n.toNat / 2 ^ 53 := by linear_combination 20 / 2 ^ 53 * hquotient
      _ < s.toNat + 1 := by
          rw [add_lt_add_iff_left, div_lt_iff₀ (by positivity), one_mul]
          exact hsmall
  obtain ⟨hlow, hhigh⟩ := abs_lt.1 herror
  have hlow : (20 : ℚ) * n.toNat < 2 * s.toNat * tenths d.toFloat + s.toNat + 1 := by linarith
  have hhigh : (2 : ℚ) * s.toNat * tenths d.toFloat < 20 * n.toNat + s.toNat + 1 := by linarith
  exact ⟨Nat.lt_succ_iff.1 (by exact_mod_cast hlow), Nat.lt_succ_iff.1 (by exact_mod_cast hhigh)⟩

/-! ## Sizes just below the next unit -/

/-- The size is less than a thousand of the unit, by half a tenth of it or less. -/
def RoundsToThousand (scale bytes : UInt64) : Prop :=
  99995 * scale.toNat ≤ 100 * bytes.toNat ∧ bytes.toNat < 1000 * scale.toNat

/-- A unit between bytes and the largest one: sizes from one to a thousand of it are shown in it,
and the size that lies half a tenth below a thousand is rounded up. -/
structure MiddleUnit (unit : Text) (scale : UInt64) : Prop where
  pos : 0 < scale.toNat
  small : scale.toNat ≤ 1000000
  shown : ∀ bytes : UInt64, scale.toNat ≤ bytes.toNat → bytes.toNat < 1000 * scale.toNat →
    formatBytes bytes = withPoint (tenths (bytes.toFloat / scale.toFloat)) 1 ++ unit
  tie : ∃ bytes : UInt64, 100 * bytes.toNat = 99995 * scale.toNat ∧
    tenths (bytes.toFloat / scale.toFloat) = 10000

theorem middleUnit_kB : MiddleUnit "kB".toList 1000 where
  pos := by decide
  small := by decide
  shown bytes hlow hhigh := by
    have hlow : 1000 ≤ bytes.toNat := hlow
    have hhigh : bytes.toNat < 1000000 := hhigh
    rw [formatBytes_eq, if_neg (by omega), if_neg (by omega), if_pos hlow]
  tie := ⟨999950, by decide, by decide⟩

theorem middleUnit_MB : MiddleUnit "MB".toList 1000000 where
  pos := by decide
  small := by decide
  shown bytes hlow hhigh := by
    have hlow : 1000000 ≤ bytes.toNat := hlow
    have hhigh : bytes.toNat < 1000000000 := hhigh
    rw [formatBytes_eq, if_neg (by omega), if_pos hlow]
  tie := ⟨999950000, by decide, by decide⟩

namespace MiddleUnit

variable {unit : Text} {scale bytes : UInt64}

theorem nearestTenth (h : MiddleUnit unit scale) (hlow : scale.toNat ≤ bytes.toNat)
    (hhigh : bytes.toNat < 1000 * scale.toNat) :
    NearestTenth (tenths (bytes.toFloat / scale.toFloat)) bytes.toNat scale.toNat := by
  have hpos := h.pos
  have hsmall := h.small
  exact nearestTenth_tenths (by omega) hpos (by omega) (by omega)

theorem tenths_lt (h : MiddleUnit unit scale) (hlow : scale.toNat ≤ bytes.toNat)
    (hbelow : 100 * bytes.toNat < 99995 * scale.toNat) :
    tenths (bytes.toFloat / scale.toFloat) < 10000 := by
  obtain ⟨-, hhigh⟩ := h.nearestTenth hlow (by omega)
  refine Nat.lt_of_mul_lt_mul_left (a := 2 * scale.toNat) ?_
  omega

theorem tenths_eq (h : MiddleUnit unit scale) (hrounds : RoundsToThousand scale bytes) :
    tenths (bytes.toFloat / scale.toFloat) = 10000 := by
  obtain ⟨hbelow, hhigh⟩ := hrounds
  obtain ⟨hleast, hmost⟩ := h.nearestTenth (by omega) hhigh
  obtain ⟨tie, htie, htenths⟩ := h.tie
  rcases Nat.eq_or_lt_of_le hbelow with heq | hlt
  · obtain rfl : bytes = tie := UInt64.toNat_inj.1 (by omega)
    exact htenths
  · have hlow : 9999 < tenths (bytes.toFloat / scale.toFloat) :=
      Nat.lt_of_mul_lt_mul_left (a := 2 * scale.toNat) (by omega)
    have hhigh : tenths (bytes.toFloat / scale.toFloat) < 10001 :=
      Nat.lt_of_mul_lt_mul_left (a := 2 * scale.toNat) (by omega)
    omega

theorem formatBytes_of_rounds (h : MiddleUnit unit scale) (hrounds : RoundsToThousand scale bytes) :
    formatBytes bytes = "1000.0".toList ++ unit := by
  have hbelow := hrounds.1
  rw [h.shown bytes (by omega) hrounds.2, h.tenths_eq hrounds]
  rfl

end MiddleUnit

/-! ## The number in front of the unit -/

/-- Whatever stands in front of `kB` or `MB` is a number with one place and less than a thousand. -/
def UnitHolds (bytes : UInt64) : Prop :=
  ∀ number unit : Text, unit = "kB".toList ∨ unit = "MB".toList →
    formatBytes bytes = number ++ unit →
      ∃ a : Amount, a.OfDigits ∧ a.places.length = 1 ∧ a.text = number ∧
        Decimal.value a.whole < 1000

section
variable {bytes : UInt64} {n : Nat} {unit : Text}

theorem length_unit (h : unit = "kB".toList ∨ unit = "MB".toList) : unit.length = 2 := by
  rcases h with rfl | rfl <;> decide

theorem unitHolds_iff_of_eq (hunit : unit = "kB".toList ∨ unit = "MB".toList)
    (h : formatBytes bytes = withPoint n 1 ++ unit) : UnitHolds bytes ↔ n < 10000 := by
  have hvalue : Decimal.value (Amount.ofTenths n).whole = n / 10 := Decimal.value_ofNat _
  constructor
  · intro hholds
    obtain ⟨a, ha, -, htext, hlt⟩ := hholds _ unit hunit h
    obtain rfl : a = .ofTenths n :=
      Amount.text_inj ha (Amount.ofDigits_ofTenths n) (htext.trans (Amount.text_ofTenths n).symm)
    omega
  · intro hn number unit' hunit' heq
    have hlength : unit.length = unit'.length := by rw [length_unit hunit, length_unit hunit']
    obtain ⟨rfl, -⟩ := List.append_inj' (h.symm.trans heq) hlength
    exact ⟨.ofTenths n, Amount.ofDigits_ofTenths n, Amount.length_places_ofTenths n,
      Amount.text_ofTenths n, by omega⟩

/-- A text that ends in another unit says nothing about these. -/
theorem unitHolds_of_largest {t : Text} (h : formatBytes bytes = t ++ "GB".toList) :
    UnitHolds bytes := by
  intro number unit hunit heq
  have hlength : "GB".toList.length = unit.length := by
    rw [length_unit hunit]
    decide
  obtain ⟨-, rfl⟩ := List.append_inj' (h.symm.trans heq) hlength
  exact absurd hunit (by decide)

theorem unitHolds_of_bytes (h : formatBytes bytes = Text.ofNat n ++ ['B']) : UnitHolds bytes := by
  intro number unit hunit heq
  obtain ⟨c, rfl, hc⟩ : ∃ c, unit = [c] ++ ['B'] ∧ Decimal.isDigit c = false := by
    rcases hunit with rfl | rfl
    · exact ⟨'k', rfl, by decide⟩
    · exact ⟨'M', rfl, by decide⟩
  rw [← List.append_assoc] at heq
  have hdigits := (List.append_inj' (h.symm.trans heq) rfl).1
  have hmem : c ∈ Text.ofNat n := hdigits ▸ List.mem_append_right number (List.mem_singleton_self c)
  rw [Decimal.isDigit_of_mem_ofNat hmem] at hc
  cases hc

end

theorem MiddleUnit.unitHolds_iff_of_reached {unit : Text} {scale bytes : UInt64}
    (h : MiddleUnit unit scale) (hunit : unit = "kB".toList ∨ unit = "MB".toList)
    (hlow : scale.toNat ≤ bytes.toNat) (hhigh : bytes.toNat < 1000 * scale.toNat) :
    UnitHolds bytes ↔ ¬ RoundsToThousand scale bytes := by
  rw [unitHolds_iff_of_eq hunit (h.shown bytes hlow hhigh)]
  constructor
  · intro hlt hrounds
    rw [h.tenths_eq hrounds] at hlt
    exact absurd hlt (by decide)
  · intro hnot
    exact h.tenths_lt hlow (Nat.lt_of_not_le fun hle => hnot ⟨hle, hhigh⟩)

theorem unitHolds_iff_not_rounds (bytes : UInt64) :
    UnitHolds bytes ↔
      ¬ RoundsToThousand 1000 bytes ∧ ¬ RoundsToThousand 1000000 bytes := by
  have hkB : RoundsToThousand 1000 bytes ↔ 999950 ≤ bytes.toNat ∧ bytes.toNat < 1000000 := by
    show 99995 * 1000 ≤ 100 * bytes.toNat ∧ bytes.toNat < 1000 * 1000 ↔ _
    omega
  have hMB : RoundsToThousand 1000000 bytes ↔
      999950000 ≤ bytes.toNat ∧ bytes.toNat < 1000000000 := by
    show 99995 * 1000000 ≤ 100 * bytes.toNat ∧ bytes.toNat < 1000 * 1000000 ↔ _
    omega
  by_cases hlargest : 1000000000 ≤ bytes.toNat
  · have hshown := formatBytes_eq bytes
    rw [if_pos hlargest] at hshown
    exact iff_of_true (unitHolds_of_largest hshown) ⟨by rw [hkB]; omega, by rw [hMB]; omega⟩
  by_cases hmega : 1000000 ≤ bytes.toNat
  · rw [middleUnit_MB.unitHolds_iff_of_reached (.inr rfl) hmega (Nat.lt_of_not_le hlargest),
      and_iff_right (by rw [hkB]; omega)]
  by_cases hkilo : 1000 ≤ bytes.toNat
  · rw [middleUnit_kB.unitHolds_iff_of_reached (.inl rfl) hkilo (Nat.lt_of_not_le hmega),
      and_iff_left (by rw [hMB]; omega)]
  · have hshown := formatBytes_eq bytes
    rw [if_neg hlargest, if_neg hmega, if_neg hkilo] at hshown
    exact iff_of_true (unitHolds_of_bytes hshown) ⟨by rw [hkB]; omega, by rw [hMB]; omega⟩

/-- A size in `kB` or `MB` shows a number below a thousand, except for the sizes that are less than
a thousand of their unit by half a tenth or less. These, and no others, show `1000.0`, although they
would be `1.0` in the next unit. -/
theorem unitHolds_iff (bytes : UInt64) :
    (UnitHolds bytes ↔ ¬ RoundsToThousand 1000 bytes ∧ ¬ RoundsToThousand 1000000 bytes) ∧
    (formatBytes bytes = "1000.0kB".toList ↔ RoundsToThousand 1000 bytes) ∧
    (formatBytes bytes = "1000.0MB".toList ↔ RoundsToThousand 1000000 bytes) := by
  have hiff := unitHolds_iff_not_rounds bytes
  have hkB : RoundsToThousand 1000 bytes → formatBytes bytes = "1000.0kB".toList :=
    middleUnit_kB.formatBytes_of_rounds
  have hMB : RoundsToThousand 1000000 bytes → formatBytes bytes = "1000.0MB".toList :=
    middleUnit_MB.formatBytes_of_rounds
  refine ⟨hiff, ⟨fun h => ?_, hkB⟩, ⟨fun h => ?_, hMB⟩⟩
  · have hnot : ¬ UnitHolds bytes :=
      (unitHolds_iff_of_eq (n := 10000) (.inl rfl) h).not.2 (by decide)
    by_contra hrounds
    refine hnot (hiff.2 ⟨hrounds, fun hmega => ?_⟩)
    exact absurd (h.symm.trans (hMB hmega)) (by decide)
  · have hnot : ¬ UnitHolds bytes :=
      (unitHolds_iff_of_eq (n := 10000) (.inr rfl) h).not.2 (by decide)
    by_contra hrounds
    refine hnot (hiff.2 ⟨fun hkilo => ?_, hrounds⟩)
    exact absurd (h.symm.trans (hkB hkilo)) (by decide)

/-- One byte below a megabyte. -/
theorem not_unitHolds_below_megabyte :
    formatBytes 999999 = "1000.0kB".toList ∧ ¬ UnitHolds 999999 := by
  have hshown : formatBytes 999999 = "1000.0kB".toList := by decide
  exact ⟨hshown, (unitHolds_iff_of_eq (n := 10000) (.inl rfl) hshown).not.2 (by decide)⟩

example : formatBytes 999949 = "999.9kB".toList := by decide

end History

end LayerLint
