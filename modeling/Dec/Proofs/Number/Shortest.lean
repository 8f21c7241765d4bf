import Dec.Decimal.Shortest
import Dec.Proofs.Number.Digits
import Dec.Proofs.Number.Rounding

/-!
The shortest numeral of a double reads back as that double. Each shorter numeral is tried before it
is taken, and all digits of a double, which stand in reserve, are its exact value.
-/
namespace Dec.Decimal

section Normal

theorem normal_zero (exponent : Int) : normal 0 exponent = ⟨0, exponent⟩ := by
  rw [normal, if_neg (by simp)]

theorem normal_mul_ten {digits : Nat} (hd : digits ≠ 0) (exponent : Int) :
    normal (digits * 10) exponent = normal digits (exponent + 1) := by
  rw [normal, if_pos ⟨by omega, by omega⟩, Nat.mul_div_cancel _ (by decide)]

/-- Zeros at the end go into the power of ten. -/
theorem normal_mul_pow {digits : Nat} (hd : digits ≠ 0) (zeros : Nat) (exponent : Int) :
    normal (digits * 10 ^ zeros) exponent = normal digits (exponent + zeros) := by
  induction zeros generalizing exponent with
  | zero => simp
  | succ zeros ih =>
    have hne : digits * 10 ^ zeros ≠ 0 := by positivity
    rw [pow_succ, ← mul_assoc, normal_mul_ten hne, ih]
    congr 1
    push_cast
    omega

theorem normal_normal (digits : Nat) (exponent : Int) :
    normal (normal digits exponent).digits (normal digits exponent).exponent =
      normal digits exponent := by
  induction digits, exponent using normal.induct with
  | case1 digits exponent h ih =>
    have hn : normal digits exponent = normal (digits / 10) (exponent + 1) := by
      rw [normal, if_pos h]
    rw [hn]
    exact ih
  | case2 digits exponent h =>
    have hn : normal digits exponent = ⟨digits, exponent⟩ := by rw [normal, if_neg h]
    rw [hn]
    exact hn

/-- A normal form has the value that it is the normal form of. -/
theorem normal_value (digits : Nat) (exponent : Int) :
    ∃ zeros : Nat, (normal digits exponent).exponent = exponent + zeros ∧
      (normal digits exponent).digits * 10 ^ zeros = digits := by
  induction digits, exponent using normal.induct with
  | case1 digits exponent h ih =>
    obtain ⟨zeros, he, hv⟩ := ih
    rw [normal, if_pos h]
    refine ⟨zeros + 1, ?_, ?_⟩
    · rw [he]
      push_cast
      omega
    · rw [pow_succ, ← mul_assoc, hv]
      omega
  | case2 digits exponent h =>
    rw [normal, if_neg h]
    exact ⟨0, by simp, by simp⟩

end Normal

section Sign

variable {d : Decimal}

theorem toBinary64_isNegative (negative : Bool) (d : Decimal) :
    (d.toBinary64 negative).isNegative = negative := by
  unfold toBinary64
  split
  · rfl
  · split
    · rfl
    · split
      · exact Binary64.ofUnits_isNegative _ _ _
      · exact Binary64.ofUnits_isNegative _ _ _

theorem toBinary64_eq_finite {s k : Nat} {h : Canonical s k}
    (he : d.toBinary64 false = .finite false s k h) (negative : Bool) :
    d.toBinary64 negative = .finite negative s k h := by
  unfold toBinary64 at he ⊢
  split at he
  · rename_i hz
    rw [if_pos hz]
    obtain ⟨-, rfl, rfl⟩ := Binary64.finite.inj he
    rfl
  · rename_i hz
    rw [if_neg hz]
    split at he
    · cases he
    · rename_i hi
      rw [if_neg hi]
      split at he
      · rename_i hp
        rw [if_pos hp]
        exact Binary64.ofUnits_eq_finite he negative
      · rename_i hp
        rw [if_neg hp]
        exact Binary64.ofUnits_eq_finite he negative

end Sign

variable {s k : Nat} (h : Canonical s k)

/-- A numeral that was tried reads back. -/
theorem toBinary64_of_readsAs {d : Decimal} (hd : readsAs (s * 2 ^ k) d = true) (negative : Bool) :
    d.toBinary64 negative = .finite negative s k h := by
  -- the trial was made without sign
  apply toBinary64_eq_finite
  rw [readsAs, Bool.and_eq_true, beq_iff_eq] at hd
  obtain ⟨hfin, hunits⟩ := hd
  have hsign := toBinary64_isNegative false d
  cases hx : d.toBinary64 false with
  | finite b s' k' h' =>
    rw [hx] at hsign hunits
    obtain rfl : b = false := hsign
    exact Binary64.eq_of_units_eq hunits
  | infinite b =>
    rw [hx] at hfin
    cases hfin
  | nan =>
    rw [hx] at hfin
    cases hfin

section Exact

theorem ten_pow_eq (n : Nat) : 10 ^ n = 2 ^ n * 5 ^ n := mul_pow 2 5 n

/-- The exact digits of a double in normal form, with the zeros that were taken off. -/
theorem exact_value (units : Nat) :
    ∃ zeros : Nat, (exact units).exponent = -1074 + zeros ∧
      (exact units).digits * 10 ^ zeros = units * 5 ^ 1074 := by
  have hn (p : Nat) := normal_value (units * p) (-1074)
  unfold exact
  exact hn _

theorem exact_digits_ne_zero {units : Nat} (hu : units ≠ 0) : (exact units).digits ≠ 0 := by
  obtain ⟨zeros, -, hv⟩ := exact_value units
  intro hz
  rw [hz, zero_mul] at hv
  have hpos : 0 < units * 5 ^ 1074 := Nat.mul_pos (Nat.pos_of_ne_zero hu) (by positivity)
  omega

include h in
theorem units_lt : s * 2 ^ k < 2 ^ 2098 := by
  obtain ⟨hs, hk, -⟩ := h
  have hpow : 2 ^ k ≤ 2 ^ maxShift := Nat.pow_le_pow_right (by decide) hk
  have hbits : significandBits + maxShift = 2098 := rfl
  calc s * 2 ^ k < 2 ^ significandBits * 2 ^ k := (Nat.mul_lt_mul_right (by positivity)).mpr hs
    _ ≤ 2 ^ significandBits * 2 ^ maxShift := Nat.mul_le_mul_left _ hpow
    _ = 2 ^ 2098 := by rw [← pow_add, hbits]

theorem pointOfZero_lt_exact {units : Nat} (hu : units ≠ 0) : pointOfZero < (exact units).point := by
  obtain ⟨zeros, he, hv⟩ := exact_value units
  have hlt := lt_pow_digitCount (exact units).digits
  have hbig : 10 ^ 750 < 5 ^ 1074 := by decide +kernel
  have hle : 5 ^ 1074 ≤ units * 5 ^ 1074 := Nat.le_mul_of_pos_left _ (Nat.pos_of_ne_zero hu)
  have hprod : (exact units).digits * 10 ^ zeros <
      10 ^ (digitCount (exact units).digits + zeros) := by
    rw [pow_add]
    exact (Nat.mul_lt_mul_right (by positivity)).mpr hlt
  have hexp : 750 < digitCount (exact units).digits + zeros := by
    apply (pow_lt_pow_iff_right₀ (show 1 < 10 by decide)).mp
    exact (hbig.trans_le hle).trans (hv ▸ hprod)
  simp only [point, pointOfZero, he]
  omega

include h in
theorem exact_lt_pointOfInfinity (hu : s * 2 ^ k ≠ 0) :
    (exact (s * 2 ^ k)).point < pointOfInfinity := by
  obtain ⟨zeros, he, hv⟩ := exact_value (s * 2 ^ k)
  have hle := pow_digitCount_le (exact_digits_ne_zero hu)
  have hpos := digitCount_pos (exact (s * 2 ^ k)).digits
  have hbig : 2 ^ 2098 * 5 ^ 1074 < 10 ^ 1383 := by decide +kernel
  have hprod : 10 ^ (digitCount (exact (s * 2 ^ k)).digits - 1 + zeros) ≤ s * 2 ^ k * 5 ^ 1074 := by
    rw [← hv, pow_add]
    exact Nat.mul_le_mul_right _ hle
  have hlt : s * 2 ^ k * 5 ^ 1074 < 2 ^ 2098 * 5 ^ 1074 :=
    (Nat.mul_lt_mul_right (by positivity)).mpr (units_lt h)
  have hexp : digitCount (exact (s * 2 ^ k)).digits - 1 + zeros < 1383 := by
    apply (pow_lt_pow_iff_right₀ (show 1 < 10 by decide)).mp
    exact (hprod.trans_lt hlt).trans hbig
  simp only [point, pointOfInfinity, he]
  omega

/-- All digits of a double read back as it. -/
theorem toBinary64_exact (hu : s * 2 ^ k ≠ 0) (negative : Bool) :
    (exact (s * 2 ^ k)).toBinary64 negative = .finite negative s k h := by
  obtain ⟨zeros, he, hv⟩ := exact_value (s * 2 ^ k)
  have hzero := pointOfZero_lt_exact hu
  have hinf := exact_lt_pointOfInfinity h hu
  have hdigits := exact_digits_ne_zero hu
  unfold toBinary64
  rw [if_neg (by omega), if_neg (by omega)]
  -- only the relation between digits, power of ten and count matters from here on
  generalize (exact (s * 2 ^ k)).digits = digits at hv ⊢
  generalize (exact (s * 2 ^ k)).exponent = exponent at he ⊢
  split
  · rename_i hp
    -- a whole number: the zeros reach beyond the 1074 places
    have hplaces : zeros = exponent.toNat + 1074 := by omega
    have hcount : digits * 10 ^ exponent.toNat * unitsPerOne = s * 2 ^ k := by
      rw [hplaces, pow_add, ten_pow_eq 1074, ← mul_assoc, ← mul_assoc] at hv
      exact Nat.eq_of_mul_eq_mul_right (by positivity) hv
    rw [Binary64.ofRatio, hcount, ← mul_one (s * 2 ^ k)]
    exact Binary64.ofUnits_of_canonical negative h (by decide)
  · rename_i hp
    -- some places are left: the count is a quotient by their power of ten
    have hplaces : zeros + (-exponent).toNat = 1074 := by omega
    have hcount : digits * unitsPerOne = s * 2 ^ k * 10 ^ (-exponent).toNat := by
      have hscaled : digits * unitsPerOne * 5 ^ 1074 =
          s * 2 ^ k * 10 ^ (-exponent).toNat * 5 ^ 1074 := by
        calc digits * unitsPerOne * 5 ^ 1074 = digits * 10 ^ 1074 := by
              rw [unitsPerOne, mul_assoc, ← ten_pow_eq]
          _ = digits * 10 ^ zeros * 10 ^ (-exponent).toNat := by
              rw [mul_assoc, ← pow_add, hplaces]
          _ = s * 2 ^ k * 5 ^ 1074 * 10 ^ (-exponent).toNat := by rw [hv]
          _ = s * 2 ^ k * 10 ^ (-exponent).toNat * 5 ^ 1074 := Nat.mul_right_comm _ _ _
      exact Nat.eq_of_mul_eq_mul_right (by positivity) hscaled
    rw [Binary64.ofRatio, hcount]
    exact Binary64.ofUnits_of_canonical negative h (by positivity)

end Exact

section Shortest

theorem withPlaces?_eq_some {units : Nat} {places : Int} {d : Decimal}
    (hd : withPlaces? units places = some d) :
    readsAs units d = true ∧ ∃ digits exponent, d = normal digits exponent := by
  simp only [withPlaces?] at hd
  split at hd
  · rename_i hl _
    obtain rfl := Option.some.inj hd
    exact ⟨hl, _, _, rfl⟩
  · rename_i _ hh
    obtain rfl := Option.some.inj hd
    exact ⟨hh, _, _, rfl⟩
  · cases hd
  · rename_i hl hh
    split at hd
    · obtain rfl := Option.some.inj hd
      exact ⟨hl, _, _, rfl⟩
    · obtain rfl := Option.some.inj hd
      exact ⟨hh, _, _, rfl⟩

/-- The shortest numeral of a positive double was tried or is exact. -/
theorem shortest_eq {units : Nat} (hu : units ≠ 0) :
    shortest units = exact units ∨
      ∃ places, withPlaces? units places = some (shortest units) := by
  rw [shortest, if_neg hu]
  dsimp only
  cases hf : (List.range enoughDigits).findSome? fun n : Nat =>
      withPlaces? units (n + 1 - pointOf units) with
  | none => exact .inl (Option.getD_none)
  | some d =>
    obtain ⟨n, -, hd⟩ := List.exists_of_findSome?_eq_some hf
    rw [Option.getD_some]
    exact .inr ⟨_, hd⟩

/-- The shortest numeral of a double is in normal form. -/
theorem normal_shortest (units : Nat) :
    normal (shortest units).digits (shortest units).exponent = shortest units := by
  by_cases hu : units = 0
  · rw [shortest, if_pos hu]
    exact normal_zero 0
  · rcases shortest_eq hu with he | ⟨places, hp⟩
    · rw [he, exact]
      exact normal_normal _ _
    · obtain ⟨-, digits, exponent, hn⟩ := withPlaces?_eq_some hp
      rw [hn]
      exact normal_normal _ _

/-- The shortest numeral of a double reads back as it, with the sign that it is read with. -/
theorem toBinary64_shortest (negative : Bool) :
    (shortest (s * 2 ^ k)).toBinary64 negative = .finite negative s k h := by
  by_cases hu : s * 2 ^ k = 0
  -- zero has one canonical pair
  · have hs : s = 0 := by
      rcases Nat.mul_eq_zero.mp hu with hs | hk
      · exact hs
      · exact absurd hk (by positivity)
    have hk : k = 0 := by
      rcases h.2.2 with hk | hfull
      · exact hk
      · rw [hs] at hfull
        exact absurd hfull (by decide)
    subst hs hk
    rfl
  · rcases shortest_eq hu with he | ⟨places, hp⟩
    · rw [he]
      exact toBinary64_exact h hu negative
    · exact toBinary64_of_readsAs h (withPlaces?_eq_some hp).1 negative

end Shortest

end Dec.Decimal
