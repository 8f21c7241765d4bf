import Dec.Proofs.Number.Quotients
import Dec.Proofs.Number.Shortest
import Dec.Token.Numeral
import Mathlib.Algebra.Order.Field.Rat
import Mathlib.Tactic.NormNum
import Mathlib.Tactic.Ring

/-!
Overflow of numerals. Whether a numeral is read as an infinity depends on the rational number that
it means and on nothing else: it is just from half way between the largest double and the next power
of two on. The place of the point, which is looked at first, tells only what is clear from it.
-/
namespace Dec

/-- Half way between the largest double and the next power of two. -/
def overflowThreshold : ℚ := 2 ^ 1024 - 2 ^ 970

theorem overflowThreshold_eq : overflowThreshold = (2 ^ 54 - 1) * 2 ^ 970 := by
  rw [overflowThreshold, sub_mul, one_mul, ← pow_add]

theorem one_lt_overflowThreshold : 1 < overflowThreshold := by
  rw [overflowThreshold_eq]
  calc
    (1 : ℚ) < 2 ^ 54 - 1 := by norm_num
    _ ≤ (2 ^ 54 - 1) * 2 ^ 970 :=
      le_mul_of_one_le_right (by norm_num) (one_le_pow₀ (by norm_num))

-- stated for powers of the core library, and with a variable, so that no large power is computed
theorem cast_pow_nat (b k : Nat) : ((b ^ k : Nat) : ℚ) = (b : ℚ) ^ k := Nat.cast_pow b k

theorem overflowThreshold_le_pow : overflowThreshold ≤ 10 ^ 309 := by
  have hpow : (2 : Nat) ^ 1024 ≤ 10 ^ 309 := by decide +kernel
  calc
    overflowThreshold ≤ 2 ^ 1024 := sub_le_self _ (pow_nonneg (by norm_num) _)
    _ = (2 ^ 1024 : Nat) := (cast_pow_nat 2 1024).symm
    _ ≤ (10 ^ 309 : Nat) := Nat.cast_le.mpr hpow
    _ = 10 ^ 309 := cast_pow_nat 10 309

/-- The threshold, counted in halves of the least positive double. -/
theorem halfwayBeyond_eq :
    (Binary64.halfwayBeyond : ℚ) = overflowThreshold * (2 * unitsPerOne) := by
  have hbits : ((2 ^ (significandBits + 1) - 1 : Nat) : ℚ) = 2 ^ 54 - 1 := by
    rw [significandBits]
    norm_num
  have hshift : (2 : ℚ) ^ maxShift = 2 ^ 970 * (2 * 2 ^ 1074) := by
    rw [← pow_succ', ← pow_add, maxShift]
  rw [Binary64.halfwayBeyond, overflowThreshold_eq, unitsPerOne, Nat.cast_mul, hbits, mul_assoc,
    cast_pow_nat 2 maxShift, cast_pow_nat 2 1074, Nat.cast_ofNat, hshift]

theorem Binary64.ofRatio_isFinite_iff_lt (negative : Bool) {num den : Nat} (hden : 0 < den) :
    (ofRatio negative num den).isFinite = true ↔ (num : ℚ) / den < overflowThreshold := by
  have hpos : (0 : ℚ) < den := by exact_mod_cast hden
  have hunits : (0 : ℚ) < 2 * unitsPerOne := by
    rw [unitsPerOne]
    positivity
  calc
    (ofRatio negative num den).isFinite = true
        ↔ 2 * (num * unitsPerOne) < halfwayBeyond * den := ofRatio_isFinite_iff negative hden
    _ ↔ (2 * (num * unitsPerOne) : ℚ) < halfwayBeyond * den := by exact_mod_cast Iff.rfl
    _ ↔ num * (2 * unitsPerOne : ℚ) < overflowThreshold * den * (2 * unitsPerOne) := by
      rw [halfwayBeyond_eq, mul_left_comm, mul_right_comm]
    _ ↔ (num : ℚ) < overflowThreshold * den := mul_lt_mul_iff_left₀ hunits
    _ ↔ (num : ℚ) / den < overflowThreshold := (div_lt_iff₀ hpos).symm

namespace Decimal

def magnitude (d : Decimal) : ℚ := d.digits * 10 ^ d.exponent

variable (d : Decimal)

theorem magnitude_lt_point : d.magnitude < 10 ^ d.point := by
  have hdigits : (d.digits : ℚ) < 10 ^ digitCount d.digits := by
    exact_mod_cast lt_pow_digitCount d.digits
  have hpos : (0 : ℚ) < 10 ^ d.exponent := zpow_pos (by norm_num) _
  rw [magnitude, point, zpow_add₀ (by norm_num), zpow_natCast]
  exact mul_lt_mul_of_pos_right hdigits hpos

theorem point_le_magnitude (h : d.digits ≠ 0) : 10 ^ (d.point - 1) ≤ d.magnitude := by
  have hdigits : (10 : ℚ) ^ (digitCount d.digits - 1) ≤ d.digits := by
    exact_mod_cast pow_digitCount_le h
  have hcount := digitCount_pos d.digits
  have hpoint : d.point - 1 = (digitCount d.digits - 1 : Nat) + d.exponent := by
    rw [point]
    omega
  have hpos : (0 : ℚ) ≤ 10 ^ d.exponent := zpow_nonneg (by norm_num) _
  rw [magnitude, hpoint, zpow_add₀ (by norm_num), zpow_natCast]
  exact mul_le_mul_of_nonneg_right hdigits hpos

/-- A numeral is read as a finite double just below the threshold. -/
theorem toBinary64_isFinite_iff (negative : Bool) :
    (d.toBinary64 negative).isFinite = true ↔ d.magnitude < overflowThreshold := by
  rw [toBinary64]
  split
  · rename_i hsmall
    -- zero, or too small to matter
    refine iff_of_true rfl ?_
    rcases hsmall with hzero | hpoint
    · rw [magnitude, hzero, Nat.cast_zero, zero_mul]
      exact lt_trans one_pos one_lt_overflowThreshold
    · rw [pointOfZero] at hpoint
      calc
        d.magnitude < 10 ^ d.point := d.magnitude_lt_point
        _ ≤ 1 := zpow_le_one_of_nonpos₀ (by norm_num) (by omega)
        _ < overflowThreshold := one_lt_overflowThreshold
  · rename_i hdigits
    rw [not_or] at hdigits
    split
    · rename_i hlarge
      rw [pointOfInfinity] at hlarge
      refine iff_of_false Bool.false_ne_true (not_lt.mpr ?_)
      calc
        overflowThreshold ≤ 10 ^ (309 : ℤ) := by exact_mod_cast overflowThreshold_le_pow
        _ ≤ 10 ^ (d.point - 1) := zpow_le_zpow_right₀ (by norm_num) (by omega)
        _ ≤ d.magnitude := d.point_le_magnitude hdigits.1
    · split
      · rename_i hexponent
        obtain ⟨places, hplaces⟩ := Int.eq_ofNat_of_zero_le hexponent
        rw [Binary64.ofRatio_isFinite_iff_lt negative one_pos, magnitude, hplaces]
        simp
      · rename_i hexponent
        obtain ⟨places, hplaces⟩ := Int.eq_ofNat_of_zero_le (show 0 ≤ -d.exponent by omega)
        have hexponent : d.exponent = -(places : ℤ) := by omega
        rw [hplaces, Int.toNat_natCast,
          Binary64.ofRatio_isFinite_iff_lt negative (by positivity), magnitude, hexponent,
          zpow_neg, zpow_natCast, ← div_eq_mul_inv]
        push_cast
        rfl

/-- A normal form means the same number. -/
theorem magnitude_normal (digits : Nat) (exponent : Int) :
    (normal digits exponent).magnitude = digits * 10 ^ exponent := by
  obtain ⟨zeros, hexponent, hdigits⟩ := normal_value digits exponent
  calc
    (normal digits exponent).magnitude
        = (normal digits exponent).digits * (10 ^ zeros * 10 ^ exponent) := by
      rw [magnitude, hexponent, zpow_add₀ (by norm_num), zpow_natCast]
      ring
    _ = ((normal digits exponent).digits * 10 ^ zeros : Nat) * 10 ^ exponent := by
      push_cast
      ring
    _ = digits * 10 ^ exponent := by rw [hdigits]

end Decimal

namespace Numeral

def magnitude (n : Numeral) : ℚ :=
  Nat.ofDigitChars 10 (n.whole ++ n.fraction.getD []) 0 *
    10 ^ ((n.exponent.map Exponent.value).getD 0 - (n.fraction.getD []).length)

/-- The value of a numeral is finite but for a float from the threshold on. -/
theorem value_isFinite_iff (n : Numeral) :
    n.value.isFinite = true ↔ (n.isFloat = true → n.magnitude < overflowThreshold) := by
  rw [value]
  split
  · rename_i hfloat
    show n.toBinary64.isFinite = true ↔ _
    rw [toBinary64, Decimal.toBinary64_isFinite_iff, Decimal.ofDigits, Decimal.magnitude_normal]
    exact ⟨fun h _ => h, fun h => h hfloat⟩
  · rename_i hwhole
    exact iff_of_true rfl fun hfloat => absurd hfloat hwhole

end Numeral

end Dec
