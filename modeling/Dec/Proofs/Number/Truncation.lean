import Dec.Evaluation.Arithmetic
import Dec.Proofs.Number.Value
import Mathlib.Algebra.Order.Ring.Abs
import Mathlib.Data.Rat.Floor
import Mathlib.Tactic.Linarith

namespace Dec

def towardZero (t : ℚ) : ℤ := if 0 ≤ t then ⌊t⌋ else ⌈t⌉

/-- What is left when a fraction is dropped is nothing just for proper fractions. -/
theorem towardZero_eq_zero_iff {t : ℚ} : towardZero t = 0 ↔ |t| < 1 := by
  rw [abs_lt, towardZero]
  split
  · rename_i hpos
    rw [Int.floor_eq_zero_iff, Set.mem_Ico]
    exact ⟨fun h => ⟨by linarith, h.2⟩, fun h => ⟨hpos, h.2⟩⟩
  · rename_i hneg
    rw [Int.ceil_eq_zero_iff, Set.mem_Ioc]
    exact ⟨fun h => ⟨h.1, by linarith⟩, fun h => ⟨h.1, by linarith⟩⟩

/-- Of an integer and a proper fraction with the sign of their sum the integer is left. -/
theorem towardZero_add {q : ℤ} {f : ℚ} (hf : |f| < 1) (hpos : 0 ≤ q + f → 0 ≤ f)
    (hneg : q + f < 0 → f ≤ 0) : towardZero (q + f) = q := by
  obtain ⟨hlow, hhigh⟩ := abs_lt.mp hf
  rw [towardZero]
  split
  · rename_i hwhole
    have hfraction := hpos hwhole
    exact Int.floor_eq_iff.mpr ⟨by linarith, by linarith⟩
  · rename_i hwhole
    have hfraction := hneg (not_le.mp hwhole)
    exact Int.ceil_eq_iff.mpr ⟨by linarith, by linarith⟩

theorem towardZero_intCast (n : ℤ) : towardZero n = n := by
  rw [towardZero, Int.floor_intCast, Int.ceil_intCast, ite_self]

/-- A division of integers that truncates: the quotient and the remainder make up the dividend, and
the remainder is smaller than the divisor and has the sign of the dividend, unless it is zero. -/
structure TruncatedDivision (a b q m : ℤ) : Prop where
  dividend : a = q * b + m
  smaller : |m| < |b|
  sign : m = 0 ∨ m.sign = a.sign

namespace TruncatedDivision

variable {a b q m : ℤ}

section Conditions

variable (h : TruncatedDivision a b q m)

include h

theorem divisor_ne_zero : b ≠ 0 := abs_pos.mp (lt_of_le_of_lt (abs_nonneg m) h.smaller)

theorem remainder_nonneg (ha : 0 ≤ a) : 0 ≤ m := by
  rcases h.sign with hm | hm
  · exact hm.ge
  · exact Int.sign_nonneg_iff.mp (hm ▸ Int.sign_nonneg_iff.mpr ha)

theorem remainder_nonpos (ha : a ≤ 0) : m ≤ 0 := by
  rcases h.sign with hm | hm
  · exact hm.le
  · exact Int.sign_nonpos_iff.mp (hm ▸ Int.sign_nonpos_iff.mpr ha)

/-- The fraction that a quotient drops is nonnegative where the quotient of the rationals is. -/
theorem fraction_nonneg (hpos : 0 ≤ (a : ℚ) / b) : 0 ≤ (m : ℚ) / b := by
  rcases div_nonneg_iff.mp hpos with ⟨ha, hb⟩ | ⟨ha, hb⟩
  · exact div_nonneg (Int.cast_nonneg (h.remainder_nonneg (Int.cast_nonneg_iff.mp ha))) hb
  · exact div_nonneg_of_nonpos
      (Int.cast_nonpos.mpr (h.remainder_nonpos (Int.cast_nonpos.mp ha))) hb

theorem fraction_nonpos (hneg : (a : ℚ) / b < 0) : (m : ℚ) / b ≤ 0 := by
  rcases div_neg_iff.mp hneg with ⟨ha, hb⟩ | ⟨ha, hb⟩
  · exact div_nonpos_of_nonneg_of_nonpos
      (Int.cast_nonneg (h.remainder_nonneg (Int.cast_pos.mp ha).le)) hb.le
  · exact div_nonpos_of_nonpos_of_nonneg
      (Int.cast_nonpos.mpr (h.remainder_nonpos (Int.cast_lt_zero.mp ha).le)) hb.le

/-- The quotient is the rational one, rounded toward zero. -/
theorem quotient_eq : q = towardZero (a / b) := by
  have hb : (b : ℚ) ≠ 0 := Int.cast_ne_zero.mpr h.divisor_ne_zero
  have hsplit : (a : ℚ) / b = q + m / b := by
    calc
      (a : ℚ) / b = (q * b + m) / b := by rw [← Int.cast_mul, ← Int.cast_add, ← h.dividend]
      _ = q + m / b := by rw [add_div, mul_div_cancel_right₀ _ hb]
  have hrest : |(m : ℚ) / b| < 1 := by
    rw [abs_div, div_lt_one (abs_pos.mpr hb)]
    exact_mod_cast h.smaller
  -- what is dropped has the sign of the whole, so that it is dropped toward zero
  rw [hsplit]
  refine (towardZero_add hrest ?_ ?_).symm
  · rw [← hsplit]
    exact h.fraction_nonneg
  · rw [← hsplit]
    exact h.fraction_nonpos

/-- There is no other such division of the same integers. -/
theorem unique {q' m' : ℤ} (h' : TruncatedDivision a b q' m') : q' = q ∧ m' = m := by
  have hq : q' = q := h'.quotient_eq.trans h.quotient_eq.symm
  subst hq
  exact ⟨rfl, add_left_cancel (h'.dividend.symm.trans h.dividend)⟩

end Conditions

theorem of_tdiv (a : ℤ) (hb : b ≠ 0) : TruncatedDivision a b (a.tdiv b) (a.tmod b) where
  dividend := by rw [mul_comm, Int.mul_tdiv_add_tmod]
  smaller := by
    rw [← Int.natCast_natAbs, ← Int.natCast_natAbs, Int.natAbs_tmod]
    exact_mod_cast Nat.mod_lt _ (Int.natAbs_pos.mpr hb)
  sign := by
    rw [Int.sign_tmod]
    split
    · rename_i hdvd
      exact Or.inl (Int.tmod_eq_zero_of_dvd hdvd)
    · exact Or.inr rfl

end TruncatedDivision

theorem towardZero_div (a b : ℤ) : towardZero (a / b) = a.tdiv b := by
  by_cases hb : b = 0
  · rw [hb, Int.cast_zero, div_zero, Int.tdiv_zero]
    exact towardZero_eq_zero_iff.mpr (by simp)
  · exact (TruncatedDivision.of_tdiv a hb).quotient_eq.symm

/-- A truncated quotient is that of the sizes, negated where just one integer is negative. -/
theorem tdiv_eq_of_sizes (a b : ℤ) : a.tdiv b =
    if (a < 0) ≠ (b < 0) then -((a.natAbs : ℤ) / b.natAbs) else (a.natAbs : ℤ) / b.natAbs := by
  have hpositive : ∀ n : ℕ, ¬ (n : ℤ) < 0 := fun n => Int.not_lt.mpr (Int.natCast_nonneg n)
  have hnegative : ∀ n : ℕ, Int.negSucc n < 0 := Int.negSucc_lt_zero
  -- `tdiv` goes by the signs, with a quotient of the sizes in each case
  cases a with
  | ofNat m =>
    cases b with
    | ofNat n =>
      rw [if_neg (by simp [hpositive])]
      rfl
    | negSucc n =>
      rw [if_pos (by simp [hnegative])]
      rfl
  | negSucc m =>
    cases b with
    | ofNat n =>
      rw [if_pos (by simp [hnegative])]
      rfl
    | negSucc n =>
      rw [if_neg (by simp [hnegative])]
      rfl

theorem truncatedDivMod_eq (a b : ℤ) : truncatedDivMod a b = (a.tdiv b, a.tmod b) := by
  rw [Int.tmod_def, tdiv_eq_of_sizes]
  rfl

/-- The quotient and the remainder of integers are those of one division that truncates. -/
theorem truncatedDivMod_truncates (a : ℤ) {b : ℤ} (hb : b ≠ 0) :
    TruncatedDivision a b (truncatedDivMod a b).1 (truncatedDivMod a b).2 := by
  rw [truncatedDivMod_eq]
  exact .of_tdiv a hb

example : [truncatedDivMod 7 2, truncatedDivMod (-7) 2, truncatedDivMod 7 (-2),
    truncatedDivMod (-7) (-2)] = [(3, 1), (-3, -1), (-3, 1), (3, -1)] := by decide

def Binary64.rational (x : Binary64) : ℚ := x.signedUnits / unitsPerOne

theorem Binary64.truncate?_eq {x : Binary64} (hx : x.isFinite = true) :
    x.truncate? = some (towardZero x.rational) := by
  have hsize : (x.units : ℤ) / unitsPerOne = (x.units : ℤ).tdiv unitsPerOne :=
    (Int.tdiv_eq_ediv_of_nonneg (Int.natCast_nonneg _)).symm
  have htruncate : x.truncate? = some (x.signedUnits.tdiv unitsPerOne) := by
    cases x with
    | finite negative s k h =>
      cases negative with
      | false => exact congrArg some hsize
      | true => exact congrArg some ((congrArg Neg.neg hsize).trans (Int.neg_tdiv _ _).symm)
    | infinite negative => cases hx
    | nan => cases hx
  rw [htruncate, rational, ← towardZero_div, Int.cast_natCast]

namespace Number

def rational : Number → ℚ
  | int n => n
  | float x => x.rational

/-- The integer part of a finite number is its value, rounded toward zero. -/
theorem truncate?_eq {v : Number} (hv : v.isFinite = true) :
    v.truncate? = some (towardZero v.rational) := by
  cases v with
  | int n => exact congrArg some (towardZero_intCast n).symm
  | float x => exact Binary64.truncate?_eq hv

end Number

end Dec
