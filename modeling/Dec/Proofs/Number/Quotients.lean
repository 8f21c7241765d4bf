import Dec.Proofs.Number.Rounding

namespace Dec.Binary64

theorem div_le_roundHalfEven (num den : Nat) : num / den ≤ roundHalfEven num den := by
  simp only [roundHalfEven]
  split_ifs <;> omega

theorem roundHalfEven_le (num den : Nat) : roundHalfEven num den ≤ num / den + 1 := by
  simp only [roundHalfEven]
  split_ifs <;> omega

/-- A quotient is rounded up to an even number just from half way on. -/
theorem roundHalfEven_lt_iff {num den m : Nat} (hden : 0 < den) (hm : m % 2 = 0) :
    roundHalfEven num den < m ↔ 2 * num + den < 2 * (m * den) := by
  have hsplit : num / den * den + num % den = num := Nat.div_add_mod' num den
  have hrest : num % den < den := Nat.mod_lt num hden
  have hlow := div_le_roundHalfEven num den
  have hhigh := roundHalfEven_le num den
  -- the floor is one less than the number, or it is too far from it for rounding to matter
  rcases Nat.lt_trichotomy (num / den + 1) m with hlt | rfl | hgt
  · have hmul : (num / den + 2) * den ≤ m * den := Nat.mul_le_mul_right den (by omega)
    have hadd : (num / den + 2) * den = num / den * den + 2 * den := Nat.add_mul _ _ _
    omega
  · have hadd : (num / den + 1) * den = num / den * den + den := Nat.succ_mul _ _
    have hodd : ¬ num / den % 2 = 0 := by omega
    -- here a tie goes up
    simp only [roundHalfEven, if_neg hodd]
    split_ifs <;> omega
  · have hmul : m * den ≤ num / den * den := Nat.mul_le_mul_right den (by omega)
    omega

section Shift

variable (count : Nat)

theorem lt_pow_shiftFor : count < 2 ^ (significandBits + shiftFor count) := by
  have hle : count.log2 + 1 ≤ significandBits + shiftFor count := by
    rw [shiftFor]
    omega
  exact lt_of_lt_of_le Nat.lt_log2_self (Nat.pow_le_pow_right (by decide) hle)

variable {count}

theorem pow_shiftFor_le (hc : 0 < count) : 2 ^ shiftFor count ≤ count := by
  have hle : shiftFor count ≤ count.log2 := by
    rw [shiftFor, significandBits]
    omega
  exact le_trans (Nat.pow_le_pow_right (by decide) hle) (Nat.log2_self_le (by omega))

/-- A count that is shifted at all leaves a full significand. -/
theorem pow_le_of_shiftFor_pos (h : 0 < shiftFor count) :
    2 ^ (significandBits - 1 + shiftFor count) ≤ count := by
  have hlog : significandBits - 1 + shiftFor count = count.log2 := by
    rw [shiftFor, significandBits] at h ⊢
    omega
  have hne : count ≠ 0 := by
    rintro rfl
    exact absurd h (by decide)
  rw [hlog]
  exact Nat.log2_self_le hne

end Shift

/-- A quotient of at least one count is not rounded to zero. -/
theorem ofUnits_isZero (negative : Bool) {num den : Nat} (h : 0 < num / den) :
    (ofUnits negative num den).isZero = false := by
  have hparts : ∀ s k, 0 < s → (ofParts negative s k).isZero = false := by
    intro s k hs
    unfold ofParts
    split
    · exact beq_false_of_ne (by omega)
    · rfl
  have hround : 0 < roundHalfEven num (den * 2 ^ shiftFor (num / den)) := by
    refine lt_of_lt_of_le ?_ (div_le_roundHalfEven _ _)
    rw [← Nat.div_div_eq_div_mul]
    exact Nat.div_pos (pow_shiftFor_le h) (by positivity)
  simp only [ofUnits]
  split
  · exact hparts _ _ (by positivity)
  · exact hparts _ _ hround

theorem ofParts_isFinite (negative : Bool) (significand shift : Nat) :
    (ofParts negative significand shift).isFinite = true ↔ Canonical significand shift := by
  unfold ofParts
  split
  · rename_i h
    exact ⟨fun _ => h, fun _ => rfl⟩
  · rename_i h
    constructor
    · intro hf
      cases hf
    · exact fun hc => absurd hc h

/-- Half way between the largest double and the next power of two, in half counts of the least positive
double. -/
def halfwayBeyond : Nat := (2 ^ (significandBits + 1) - 1) * 2 ^ maxShift

theorem roundHalfEven_shifted_le (num den : Nat) :
    roundHalfEven num (den * 2 ^ shiftFor (num / den)) ≤ 2 ^ significandBits := by
  have hlt : num / den / 2 ^ shiftFor (num / den) < 2 ^ significandBits := by
    rw [Nat.div_lt_iff_lt_mul (by positivity), ← pow_add]
    exact lt_pow_shiftFor (num / den)
  have hle := roundHalfEven_le num (den * 2 ^ shiftFor (num / den))
  rw [← Nat.div_div_eq_div_mul] at hle
  omega

theorem full_le_roundHalfEven {num den : Nat} (h : 0 < shiftFor (num / den)) :
    2 ^ (significandBits - 1) ≤ roundHalfEven num (den * 2 ^ shiftFor (num / den)) := by
  refine le_trans ?_ (div_le_roundHalfEven _ _)
  rw [← Nat.div_div_eq_div_mul, Nat.le_div_iff_mul_le (by positivity), ← pow_add]
  exact pow_le_of_shiftFor_pos h

/-- A quotient is rounded to a finite double unless its shift is too large, or as large as can be and
the significand is rounded up to the next power of two. -/
theorem ofUnits_isFinite_iff_shift (negative : Bool) (num den : Nat) :
    (ofUnits negative num den).isFinite = true ↔
      shiftFor (num / den) < maxShift ∨ shiftFor (num / den) = maxShift ∧
        roundHalfEven num (den * 2 ^ shiftFor (num / den)) < 2 ^ significandBits := by
  have hle := roundHalfEven_shifted_le num den
  have hfull := @full_le_roundHalfEven num den
  have hhalf : 2 ^ (significandBits - 1) < 2 ^ significandBits := by decide
  simp only [ofUnits]
  generalize roundHalfEven num (den * 2 ^ shiftFor (num / den)) = significand at hle hfull ⊢
  generalize shiftFor (num / den) = shift at hfull ⊢
  split
  · rename_i hup
    rw [ofParts_isFinite, Canonical]
    omega
  · rw [ofParts_isFinite, Canonical]
    omega

theorem halfwayBeyond_add :
    halfwayBeyond + 2 ^ maxShift = 2 * (2 ^ significandBits * 2 ^ maxShift) := by
  have hbits : 2 ^ (significandBits + 1) - 1 + 1 = 2 * 2 ^ significandBits := by decide
  rw [halfwayBeyond, ← Nat.succ_mul, Nat.succ_eq_add_one, hbits, mul_assoc]

/-- A quotient is rounded to a finite double just below the point half way beyond all of them. -/
theorem ofUnits_isFinite_iff (negative : Bool) {num den : Nat} (hden : 0 < den) :
    (ofUnits negative num den).isFinite = true ↔ 2 * num < halfwayBeyond * den := by
  have hlow : num / den * den ≤ num := Nat.div_mul_le_self num den
  have hhigh : num < (num / den + 1) * den := by
    rw [Nat.add_mul, Nat.one_mul]
    exact Nat.lt_div_mul_add hden
  have hsum : halfwayBeyond * den + 2 ^ maxShift * den =
      2 * (2 ^ significandBits * 2 ^ maxShift * den) := by
    rw [← Nat.add_mul, halfwayBeyond_add, mul_assoc]
  have hless : 2 ^ maxShift * den ≤ 2 ^ significandBits * 2 ^ maxShift * den :=
    Nat.mul_le_mul_right den (Nat.le_mul_of_pos_left _ (by positivity))
  rw [ofUnits_isFinite_iff_shift]
  -- the quotient is far below the next power of two, within one bit of it, or not below it
  rcases Nat.lt_trichotomy (shiftFor (num / den)) maxShift with hlt | heq | hgt
  · have hle : 2 * (num / den + 1) ≤ 2 ^ significandBits * 2 ^ maxShift := by
      calc 2 * (num / den + 1) ≤ 2 * 2 ^ (significandBits + shiftFor (num / den)) :=
            Nat.mul_le_mul_left 2 (lt_pow_shiftFor (num / den))
        _ = 2 ^ (significandBits + shiftFor (num / den) + 1) := by rw [pow_succ, mul_comm]
        _ ≤ 2 ^ (significandBits + maxShift) := Nat.pow_le_pow_right (by decide) (by omega)
        _ = 2 ^ significandBits * 2 ^ maxShift := by rw [pow_add]
    have hmul := Nat.mul_le_mul_right den hle
    rw [mul_assoc] at hmul
    exact iff_of_true (Or.inl hlt) (by omega)
  · have hround := @roundHalfEven_lt_iff num (den * 2 ^ maxShift) (2 ^ significandBits)
      (by positivity) (by decide)
    rw [mul_comm den] at hround
    rw [mul_assoc (2 ^ significandBits)] at hsum
    rw [heq, mul_comm den, hround]
    omega
  · have hge : 2 ^ significandBits * 2 ^ maxShift ≤ num / den := by
      rw [← pow_add]
      refine le_trans (Nat.pow_le_pow_right (by decide) ?_) (pow_le_of_shiftFor_pos (by omega))
      simp only [significandBits]
      omega
    have hmul := Nat.mul_le_mul_right den hge
    exact iff_of_false (by omega) (by omega)

theorem ofRatio_isFinite_iff (negative : Bool) {num den : Nat} (hden : 0 < den) :
    (ofRatio negative num den).isFinite = true ↔ 2 * (num * unitsPerOne) < halfwayBeyond * den :=
  ofUnits_isFinite_iff negative hden

/-- The double of an integer other than zero is not zero. -/
theorem ofInt_isZero {n : Int} (hn : n ≠ 0) : (ofInt n).isZero = false := by
  refine ofUnits_isZero _ ?_
  have hone : 0 < unitsPerOne := by
    rw [unitsPerOne]
    positivity
  rw [Nat.div_one]
  exact Nat.mul_pos (Int.natAbs_pos.mpr hn) hone

/-- A finite double that is not zero has a count that is not. -/
theorem units_pos {x : Binary64} (hx : x.isFinite = true) (hz : x.isZero = false) : 0 < x.units := by
  cases x with
  | finite negative s k h =>
    have hs : s ≠ 0 := by simpa [isZero] using hz
    exact Nat.mul_pos (Nat.pos_of_ne_zero hs) (by positivity)
  | infinite negative => cases hx
  | nan => cases hx

/-- A double is infinite or finite after rounding, and never not-a-number. -/
theorem ofUnits_eq_infinite {negative : Bool} {num den : Nat}
    (h : (ofUnits negative num den).isFinite = false) :
    ofUnits negative num den = .infinite negative := by
  have hparts : ∀ s k, (ofParts negative s k).isFinite = false →
      ofParts negative s k = .infinite negative := by
    intro s k hs
    unfold ofParts at hs ⊢
    split
    · rename_i hc
      rw [dif_pos hc] at hs
      cases hs
    · rfl
  simp only [ofUnits] at h ⊢
  split
  · rename_i hup
    rw [if_pos hup] at h
    exact hparts _ _ h
  · rename_i hup
    rw [if_neg hup] at h
    exact hparts _ _ h

/-- The quotient of two finite doubles, rounded by their counts. -/
theorem div_eq_ofRatio {x y : Binary64} (hx : x.isFinite = true) (hy : y.isFinite = true)
    (hz : y.isZero = false) :
    x.div y = ofRatio (x.isNegative != y.isNegative) x.units y.units := by
  cases x with
  | finite s m k h =>
    cases y with
    | finite t m' k' h' => simp only [div, hz, Bool.false_eq_true, if_false]
    | infinite t => cases hy
    | nan => cases hy
  | infinite s => cases hx
  | nan => cases hx

/-- The quotient of two finite doubles is finite just when it lies below that point. -/
theorem div_isFinite_iff {x y : Binary64} (hx : x.isFinite = true) (hy : y.isFinite = true)
    (hz : y.isZero = false) :
    (x.div y).isFinite = true ↔ 2 * (x.units * unitsPerOne) < halfwayBeyond * y.units := by
  rw [div_eq_ofRatio hx hy hz]
  exact ofRatio_isFinite_iff _ (units_pos hy hz)

/-- From that point on it is infinite. -/
theorem div_eq_infinite {x y : Binary64} (hx : x.isFinite = true) (hy : y.isFinite = true)
    (hz : y.isZero = false) (h : (x.div y).isFinite = false) :
    x.div y = .infinite (x.isNegative != y.isNegative) := by
  rw [div_eq_ofRatio hx hy hz] at h ⊢
  exact ofUnits_eq_infinite h

end Dec.Binary64
