import Dec.Decimal
import Mathlib.Tactic.Linarith

namespace Dec

theorem isDigit_bounds {c : Char} (h : c.isDigit = true) : 48 ≤ c.toNat ∧ c.toNat ≤ 57 := by
  simp only [Char.isDigit, Bool.and_eq_true, decide_eq_true_eq] at h
  exact h

theorem ofDigitChars_lt (cs : List Char) (h : ∀ c ∈ cs, c.isDigit = true) :
    Nat.ofDigitChars 10 cs 0 < 10 ^ cs.length := by
  induction cs with
  | nil => simp
  | cons c cs ih =>
    have hc : c.toNat - '0'.toNat ≤ 9 := by
      have hd := isDigit_bounds (h c (by simp))
      have hz : '0'.toNat = 48 := rfl
      omega
    have ht := ih fun d hd => h d (by simp [hd])
    rw [Nat.ofDigitChars_cons, Nat.ofDigitChars_eq_ofDigitChars_zero, List.length_cons, pow_succ]
    nlinarith

namespace Decimal

theorem length_repr (n : Nat) : n.repr.toList.length = digitCount n := String.length_toList

theorem repr_isDigit (n : Nat) : ∀ c ∈ n.repr.toList, c.isDigit = true := by
  intro c hc
  rw [Nat.toList_repr] at hc
  exact Nat.isDigit_of_mem_toDigits (by decide) (by decide) hc

theorem digitCount_pos (n : Nat) : 0 < digitCount n := Nat.length_repr_pos

theorem repr_ne_nil (n : Nat) : n.repr.toList ≠ [] := by
  apply List.ne_nil_of_length_pos
  rw [length_repr]
  exact digitCount_pos n

theorem lt_pow_digitCount (n : Nat) : n < 10 ^ digitCount n :=
  (Nat.length_repr_le_iff (digitCount_pos n)).mp le_rfl

/-- A number other than zero is at least the power of ten with as many digits. -/
theorem pow_digitCount_le {n : Nat} (hn : n ≠ 0) : 10 ^ (digitCount n - 1) ≤ n := by
  by_contra hlt
  rcases Nat.eq_zero_or_pos (digitCount n - 1) with hz | hp
  · rw [hz] at hlt
    omega
  · have hle := (Nat.length_repr_le_iff hp).mpr (not_le.mp hlt)
    have := digitCount_pos n
    change digitCount n ≤ digitCount n - 1 at hle
    omega

theorem ofDigitChars_repr (n : Nat) : Nat.ofDigitChars 10 n.repr.toList 0 = n := by
  rw [Nat.toList_repr, Nat.ofDigitChars_ten_toDigits]

theorem ofDigitChars_zeros_append (zeros : Nat) (ds : List Char) :
    Nat.ofDigitChars 10 (List.replicate zeros '0' ++ ds) 0 = Nat.ofDigitChars 10 ds 0 := by
  rw [Nat.ofDigitChars_append, Nat.ofDigitChars_replicate_zero, Nat.mul_zero]

theorem ofDigitChars_append_zeros (zeros : Nat) (ds : List Char) :
    Nat.ofDigitChars 10 (ds ++ List.replicate zeros '0') 0 =
      Nat.ofDigitChars 10 ds 0 * 10 ^ zeros := by
  rw [Nat.ofDigitChars_append, Nat.ofDigitChars_replicate_zero, Nat.mul_comm]

theorem isDigit_of_mem_zeros_append {zeros : Nat} {ds : List Char}
    (hd : ∀ c ∈ ds, c.isDigit = true) : ∀ c ∈ List.replicate zeros '0' ++ ds, c.isDigit = true := by
  intro c hc
  rcases List.mem_append.mp hc with hz | hc
  · rw [List.eq_of_mem_replicate hz]
    rfl
  · exact hd c hc

end Decimal

end Dec
