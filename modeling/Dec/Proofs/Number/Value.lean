import Dec.Number
import Dec.Proofs.Number.Quotients

namespace Dec

namespace Binary64

/-- The value of a finite double, counted in the least positive double. Both zeros have the same. -/
def signedUnits (x : Binary64) : Int := if x.isNegative then -x.units else x.units

def plain (x : Binary64) : Binary64 := if x.isZero then zero false else x

theorem isZero_plain (x : Binary64) : x.plain.isZero = x.isZero := by
  unfold plain
  split
  · rename_i hzero
    rw [hzero]
    rfl
  · rfl

/-- A zero is told by its sign. -/
theorem eq_zero_of_isZero {x : Binary64} (h : x.isZero = true) : x = zero x.isNegative := by
  cases x with
  | finite negative s k hc =>
    obtain rfl : s = 0 := by simpa [isZero] using h
    obtain rfl : k = 0 := hc.2.2.resolve_right (by simp [significandBits])
    rfl
  | infinite negative => cases h
  | nan => cases h

variable {x y : Binary64} (hx : x.isFinite = true) (hy : y.isFinite = true)

include hx

theorem signedUnits_eq_zero_iff : x.signedUnits = 0 ↔ x.isZero = true := by
  cases x with
  | finite negative s k h => cases negative <;> simp [signedUnits, units, isNegative, isZero]
  | infinite negative => cases hx
  | nan => cases hx

theorem signedUnits_plain : x.plain.signedUnits = x.signedUnits := by
  unfold plain
  split
  · rename_i hzero
    rw [(signedUnits_eq_zero_iff hx).mpr hzero]
    rfl
  · rfl

include hy

/-- A finite double other than zero is told by its value. -/
theorem eq_of_signedUnits_eq (hz : x.isZero = false) (h : x.signedUnits = y.signedUnits) : x = y := by
  have hpos := units_pos hx hz
  cases x with
  | infinite negative => cases hx
  | nan => cases hx
  | finite negative s k hc =>
    cases y with
    | infinite negative => cases hy
    | nan => cases hy
    | finite negative' s' k' hc' =>
      have hsign : negative = negative' := by
        cases negative <;> cases negative' <;> simp [signedUnits, isNegative] at h ⊢ <;> omega
      subst hsign
      refine eq_of_units_eq ?_
      cases negative <;> simpa [signedUnits, isNegative] using h

theorem isZero_eq_of_signedUnits_eq (h : x.signedUnits = y.signedUnits) : x.isZero = y.isZero := by
  rw [Bool.eq_iff_iff, ← signedUnits_eq_zero_iff hx, ← signedUnits_eq_zero_iff hy, h]

/-- Finite doubles of one value are the same up to the sign of zero. -/
theorem plain_eq_plain_iff : x.plain = y.plain ↔ x.signedUnits = y.signedUnits := by
  constructor
  · intro h
    rw [← signedUnits_plain hx, h, signedUnits_plain hy]
  · intro h
    have hzeros := isZero_eq_of_signedUnits_eq hx hy h
    unfold plain
    cases hz : x.isZero with
    | true => rw [if_pos rfl, if_pos (hzeros.symm.trans hz)]
    | false =>
      obtain rfl := eq_of_signedUnits_eq hx hy hz h
      rw [hz]

/-- Equality of finite doubles as numbers is equality of their values. -/
theorem same_iff : x.same y = true ↔ x.signedUnits = y.signedUnits := by
  have hsame : x.same y = ((x.isZero && y.isZero) || x == y) := by
    cases x with
    | infinite negative => cases hx
    | nan => cases hx
    | finite negative s k h =>
      cases y with
      | infinite negative => cases hy
      | nan => cases hy
      | finite negative s k h => rfl
  rw [hsame, Bool.or_eq_true, Bool.and_eq_true, beq_iff_eq]
  constructor
  · rintro (⟨hzero, hzero'⟩ | rfl)
    · rw [(signedUnits_eq_zero_iff hx).mpr hzero, (signedUnits_eq_zero_iff hy).mpr hzero']
    · rfl
  · intro h
    cases hz : x.isZero with
    | true => exact Or.inl ⟨rfl, (isZero_eq_of_signedUnits_eq hx hy h).symm.trans hz⟩
    | false => exact Or.inr (eq_of_signedUnits_eq hx hy hz h)

end Binary64

namespace Number

def plain : Number → Number
  | .int n => .int n
  | .float x => .float x.plain

def SameValue : Number → Number → Prop
  | .int m, .int n => m = n
  | .float x, .float y => x.signedUnits = y.signedUnits
  | _, _ => False

theorem plain_eq_plain_iff {v w : Number} (hv : v.isFinite = true) (hw : w.isFinite = true) :
    v.plain = w.plain ↔ v.SameValue w := by
  cases v with
  | int m =>
    cases w with
    | int n => simp [plain, SameValue]
    | float y => simp [plain, SameValue]
  | float x =>
    cases w with
    | int n => simp [plain, SameValue]
    | float y => simpa [plain, SameValue] using Binary64.plain_eq_plain_iff hv hw

def zeroSign? : Number → Option Bool
  | .int _ => none
  | .float x => if x.isZero then some x.isNegative else none

/-- The signs of zeros, which may be followed by others, are all that numbers lose. -/
theorem eq_of_plain_eq {v w : Number} (h : v.plain = w.plain) {signs signs' : List Bool}
    (hsigns : v.zeroSign?.toList ++ signs = w.zeroSign?.toList ++ signs') :
    v = w ∧ signs = signs' := by
  cases v with
  | int m =>
    cases w with
    | int n => exact ⟨h, hsigns⟩
    | float y => cases h
  | float x =>
    cases w with
    | int n => cases h
    | float y =>
      have hplain : x.plain = y.plain := Number.float.inj h
      have hzeros : x.isZero = y.isZero := by
        rw [← x.isZero_plain, hplain, y.isZero_plain]
      cases hz : x.isZero with
      | true =>
        have hz' := hzeros.symm.trans hz
        simp only [zeroSign?, hz, hz', if_true, Option.toList_some, List.singleton_append] at hsigns
        obtain ⟨hsign, hrest⟩ := List.cons.inj hsigns
        rw [Binary64.eq_zero_of_isZero hz, Binary64.eq_zero_of_isZero hz', hsign]
        exact ⟨rfl, hrest⟩
      | false =>
        have hz' := hzeros.symm.trans hz
        rw [Binary64.plain, Binary64.plain, hz, hz'] at hplain
        simp only [zeroSign?, hz, hz'] at hsigns
        exact ⟨congrArg Number.float hplain, hsigns⟩

end Number

end Dec
