import Dec.Binary64
import Mathlib.Tactic.Linarith

namespace Dec

theorem Canonical.log2_of_full {significand shift : Nat}
    (h : 2 ^ (significandBits - 1) ≤ significand) (hlt : significand < 2 ^ significandBits) :
    (significand * 2 ^ shift).log2 = significandBits - 1 + shift := by
  have hpos : 0 < significand := lt_of_lt_of_le (by decide) h
  have hne : significand * 2 ^ shift ≠ 0 := by positivity
  rw [Nat.log2_eq_iff hne]
  constructor
  · rw [pow_add]
    exact Nat.mul_le_mul_right _ h
  · have hbits : significandBits - 1 + shift + 1 = significandBits + shift := by
      simp only [significandBits]
      omega
    rw [hbits, pow_add]
    exact (Nat.mul_lt_mul_right (by positivity)).mpr hlt

theorem Canonical.shiftFor_eq {significand shift : Nat} (h : Canonical significand shift) :
    Binary64.shiftFor (significand * 2 ^ shift) = shift := by
  obtain ⟨hlt, -, hfull⟩ := h
  -- a significand that is not full goes with no shift; a full one tells the shift by its length
  rcases Nat.lt_or_ge significand (2 ^ (significandBits - 1)) with hlow | hhigh
  · have hz : shift = 0 := by
      rcases hfull with hz | hfull
      · exact hz
      · omega
    subst hz
    rw [pow_zero, mul_one, Binary64.shiftFor]
    rcases Nat.eq_zero_or_pos significand with rfl | hpos
    · decide
    · have hlog : significand.log2 < significandBits :=
        (Nat.log2_lt (by omega)).mpr hlt
      omega
  · rw [Binary64.shiftFor, Canonical.log2_of_full hhigh hlt]
    simp only [significandBits]
    omega

/-- Two canonical pairs with the same value are the same. -/
theorem Canonical.eq_of_value_eq {s s' k k' : Nat} (h : Canonical s k) (h' : Canonical s' k')
    (he : s * 2 ^ k = s' * 2 ^ k') : s = s' ∧ k = k' := by
  have hk : k = k' := by
    rw [← h.shiftFor_eq, he, h'.shiftFor_eq]
  subst hk
  exact ⟨Nat.eq_of_mul_eq_mul_right (by positivity) he, rfl⟩

namespace Binary64

theorem roundHalfEven_mul {den : Nat} (hden : 0 < den) (n : Nat) :
    roundHalfEven (n * den) den = n := by
  have hdiv : n * den / den = n := Nat.mul_div_cancel n hden
  have hmod : n * den % den = 0 := Nat.mul_mod_left n den
  simp only [roundHalfEven, hdiv, hmod, mul_zero, if_pos hden]

/-- A count that is a double is rounded to that double. -/
theorem ofUnits_of_canonical (negative : Bool) {significand shift den : Nat}
    (h : Canonical significand shift) (hden : 0 < den) :
    ofUnits negative (significand * 2 ^ shift * den) den = .finite negative significand shift h := by
  have hdiv : significand * 2 ^ shift * den / den = significand * 2 ^ shift :=
    Nat.mul_div_cancel _ hden
  have hround : roundHalfEven (significand * 2 ^ shift * den) (den * 2 ^ shift) = significand := by
    have he : significand * 2 ^ shift * den = significand * (den * 2 ^ shift) := by
      rw [mul_assoc, mul_comm (2 ^ shift)]
    rw [he]
    exact roundHalfEven_mul (by positivity) significand
  have hne : significand ≠ 2 ^ significandBits := ne_of_lt h.1
  simp only [ofUnits, hdiv, h.shiftFor_eq, hround, if_neg hne, ofParts, dif_pos h]

theorem ofUnits_eq_finite {num den significand shift : Nat} {h : Canonical significand shift}
    (he : ofUnits false num den = .finite false significand shift h) (negative : Bool) :
    ofUnits negative num den = .finite negative significand shift h := by
  have hparts : ∀ s k, ofParts false s k = .finite false significand shift h →
      ofParts negative s k = .finite negative significand shift h := by
    intro s k hp
    unfold ofParts at hp ⊢
    split at hp
    · rename_i hc
      obtain ⟨-, rfl, rfl⟩ := Binary64.finite.inj hp
      rw [dif_pos hc]
    · cases hp
  simp only [ofUnits] at he ⊢
  split at he
  · rename_i hs
    rw [if_pos hs]
    exact hparts _ _ he
  · rename_i hs
    rw [if_neg hs]
    exact hparts _ _ he

theorem ofUnits_isNegative (negative : Bool) (num den : Nat) :
    (ofUnits negative num den).isNegative = negative := by
  have hparts : ∀ s k, (ofParts negative s k).isNegative = negative := by
    intro s k
    unfold ofParts
    split <;> rfl
  simp only [ofUnits]
  split
  · exact hparts _ _
  · exact hparts _ _

/-- A finite double is told by its sign and its count of the least positive double. -/
theorem eq_of_units_eq {negative : Bool} {s s' k k' : Nat} {h : Canonical s k}
    {h' : Canonical s' k'} (he : (finite negative s k h).units = (finite negative s' k' h').units) :
    finite negative s k h = finite negative s' k' h' := by
  obtain ⟨rfl, rfl⟩ := h.eq_of_value_eq h' he
  rfl

end Binary64

end Dec
