import Dec.Token.Word
import Dec.Proofs.Number.Shortest
import Dec.Proofs.Token.Lexing

namespace Dec

namespace Decimal

/-- Digits that are those of a normal form up to zeros behind them are read as that form. -/
theorem toBinary64_ofDigits {d : Decimal} (hd : normal d.digits d.exponent = d)
    {whole fraction : List Char} {exponent : Int} {zeros : Nat}
    (hv : Nat.ofDigitChars 10 (whole ++ fraction) 0 = d.digits * 10 ^ zeros)
    (he : exponent - fraction.length + zeros = d.exponent) (negative : Bool) :
    (ofDigits whole fraction exponent).toBinary64 negative = d.toBinary64 negative := by
  rw [ofDigits, hv]
  by_cases hz : d.digits = 0
  -- the zeros of zero do not go into its power of ten, which plays no part
  · rw [hz, Nat.zero_mul, normal_zero]
    unfold toBinary64
    rw [if_pos (Or.inl rfl), if_pos (Or.inl hz)]
  · rw [normal_mul_pow hz, he, hd]

structure Writes (negative : Bool) (d : Decimal) (n : Numeral) : Prop where
  written : n.Written
  isFloat : n.isFloat = true
  chars : n.chars = (if negative then ['-'] else []) ++ d.written .plain
  toBinary64 : n.toBinary64 = d.toBinary64 negative

section Layouts

variable {d : Decimal} (negative : Bool)

def powerOfTen (exponent : Int) : Exponent :=
  ⟨'e', some (if exponent < 0 then '-' else '+'),
    padded Layout.plain.exponentDigits exponent.natAbs⟩

theorem powerOfTen_written (exponent : Int) : (powerOfTen exponent).Written := by
  refine ⟨.inl rfl, ?_, ?_, isDigit_of_mem_zeros_append (repr_isDigit _)⟩
  · intro c hc
    obtain rfl := Option.some.inj hc
    split
    · exact .inr rfl
    · exact .inl rfl
  · exact List.append_ne_nil_of_right_ne_nil _ (repr_ne_nil _)

theorem powerOfTen_value (exponent : Int) : (powerOfTen exponent).value = exponent := by
  have hn : Nat.ofDigitChars 10 (powerOfTen exponent).digits 0 = exponent.natAbs := by
    rw [powerOfTen, padded, ofDigitChars_zeros_append, ofDigitChars_repr]
  rw [Exponent.value, hn, powerOfTen]
  by_cases hlt : exponent < 0
  · rw [if_pos hlt, if_pos rfl]
    omega
  · rw [if_neg hlt, if_neg (by simp)]
    omega

/-- A decimal number is the numeral whose characters and value are its own. -/
theorem writes_of_parts (hd : normal d.digits d.exponent = d) {n : Numeral}
    (hw : n.Written) (hf : n.isFloat = true) (hneg : n.negative = negative)
    (hc : n.whole ++ (Numeral.fractionChars n.fraction ++ Numeral.exponentChars n.exponent) =
      d.written .plain)
    (zeros : Nat)
    (hv : Nat.ofDigitChars 10 (n.whole ++ n.fraction.getD []) 0 = d.digits * 10 ^ zeros)
    (he : (n.exponent.map Exponent.value).getD 0 - (n.fraction.getD []).length + zeros =
      d.exponent) :
    Writes negative d n := by
  refine ⟨hw, hf, ?_, ?_⟩
  · rw [Numeral.chars_eq, hneg, hc]
  · rw [Numeral.toBinary64, hneg]
    exact toBinary64_ofDigits hd hv he negative

/-- A number below one is written with zeros after the point. -/
theorem exists_writes_below_one (hd : normal d.digits d.exponent = d)
    (hl : Layout.plain.leastPoint ≤ d.point ∧ d.point ≤ Layout.plain.mostPoint)
    (hp : d.point ≤ 0) : ∃ n, Writes negative d n := by
  refine ⟨⟨negative, ['0'], some (List.replicate (-d.point).toNat '0' ++ d.digits.repr.toList),
    none⟩, writes_of_parts negative hd ?_ rfl rfl ?_ 0 ?_ ?_⟩
  · refine ⟨⟨List.cons_ne_nil _ _, List.forall_mem_singleton.mpr rfl⟩, ?_, fun e he => by cases he⟩
    intro ds hds
    obtain rfl := Option.some.inj hds
    exact isDigit_of_mem_zeros_append (repr_isDigit d.digits)
  · rw [Decimal.written, if_pos hl, positional, if_pos hp]
    simp [Numeral.fractionChars, Numeral.exponentChars]
  · rw [Option.getD_some, ← List.append_assoc]
    -- the zero before the point is one zero more
    change Nat.ofDigitChars 10 (List.replicate ((-d.point).toNat + 1) '0' ++ _) 0 = _
    rw [ofDigitChars_zeros_append, ofDigitChars_repr, pow_zero, mul_one]
  · simp only [Option.getD_some, Option.map_none, Option.getD_none, List.length_append,
      List.length_replicate, length_repr, point] at hp ⊢
    omega

/-- A whole number is written with zeros before the point and one behind it. -/
theorem exists_writes_whole (hd : normal d.digits d.exponent = d)
    (hl : Layout.plain.leastPoint ≤ d.point ∧ d.point ≤ Layout.plain.mostPoint)
    (hp : ¬ d.point ≤ 0) (hw : (digitCount d.digits : Int) ≤ d.point) :
    ∃ n, Writes negative d n := by
  refine ⟨⟨negative, d.digits.repr.toList ++
    List.replicate (d.point.toNat - d.digits.repr.toList.length) '0', some ['0'], none⟩,
    writes_of_parts negative hd ?_ rfl rfl ?_ (d.point.toNat - digitCount d.digits + 1) ?_ ?_⟩
  · refine ⟨⟨?_, ?_⟩, ?_, fun e he => by cases he⟩
    · exact List.append_ne_nil_of_left_ne_nil (repr_ne_nil _) _
    · intro c hc
      rcases List.mem_append.mp hc with hc | hz
      · exact repr_isDigit _ c hc
      · rw [List.eq_of_mem_replicate hz]
        rfl
    · intro ds hds
      obtain rfl := Option.some.inj hds
      exact List.forall_mem_singleton.mpr rfl
  · rw [Decimal.written, if_pos hl, positional, if_neg hp, length_repr, if_pos hw]
    simp [Numeral.fractionChars, Numeral.exponentChars]
  · rw [Option.getD_some, List.append_assoc]
    -- so is the zero behind the point
    change Nat.ofDigitChars 10 (_ ++ (List.replicate _ '0' ++ List.replicate 1 '0')) 0 = _
    rw [List.replicate_append_replicate, ofDigitChars_append_zeros, ofDigitChars_repr, length_repr]
  · simp only [Option.getD_some, Option.map_none, Option.getD_none, List.length_singleton,
      point] at hp hw ⊢
    omega

/-- The point of any other number near one stands among its digits. -/
theorem exists_writes_between (hd : normal d.digits d.exponent = d)
    (hl : Layout.plain.leastPoint ≤ d.point ∧ d.point ≤ Layout.plain.mostPoint)
    (hp : ¬ d.point ≤ 0) (hw : ¬ (digitCount d.digits : Int) ≤ d.point) :
    ∃ n, Writes negative d n := by
  refine ⟨⟨negative, d.digits.repr.toList.take d.point.toNat,
    some (d.digits.repr.toList.drop d.point.toNat), none⟩,
    writes_of_parts negative hd ?_ rfl rfl ?_ 0 ?_ ?_⟩
  · refine ⟨⟨?_, fun c hc => repr_isDigit _ c (List.mem_of_mem_take hc)⟩, ?_,
      fun e he => by cases he⟩
    · apply List.ne_nil_of_length_pos
      rw [List.length_take, length_repr]
      have hpos := digitCount_pos d.digits
      omega
    · intro ds hds
      obtain rfl := Option.some.inj hds
      exact fun c hc => repr_isDigit _ c (List.mem_of_mem_drop hc)
  · rw [Decimal.written, if_pos hl, positional, if_neg hp, length_repr, if_neg hw]
    simp [Numeral.fractionChars, Numeral.exponentChars]
  · rw [Option.getD_some, List.take_append_drop, ofDigitChars_repr, pow_zero, mul_one]
  · simp only [Option.getD_some, Option.map_none, Option.getD_none, List.length_drop, length_repr,
      point] at hp hw ⊢
    omega

/-- A number far from one is written with its point after the first digit. -/
theorem exists_writes_scientific (hd : normal d.digits d.exponent = d)
    (hl : ¬ (Layout.plain.leastPoint ≤ d.point ∧ d.point ≤ Layout.plain.mostPoint)) :
    ∃ n, Writes negative d n := by
  have hpos := digitCount_pos d.digits
  -- a single digit has no point, and no fraction either
  have hdrop : (if d.digits.repr.toList.length ≤ 1 then (none : Option (List Char))
      else some (d.digits.repr.toList.drop 1)).getD [] = d.digits.repr.toList.drop 1 := by
    split
    · rename_i hone
      rw [Option.getD_none, List.drop_eq_nil_of_le hone]
    · rfl
  refine ⟨⟨negative, d.digits.repr.toList.take 1,
    if d.digits.repr.toList.length ≤ 1 then none else some (d.digits.repr.toList.drop 1),
    some (powerOfTen (d.point - 1))⟩, writes_of_parts negative hd ?_ ?_ rfl ?_ 0 ?_ ?_⟩
  · refine ⟨⟨?_, fun c hc => repr_isDigit _ c (List.mem_of_mem_take hc)⟩, ?_, ?_⟩
    · apply List.ne_nil_of_length_pos
      rw [List.length_take, length_repr]
      omega
    · intro ds hds
      dsimp only at hds
      split at hds
      · cases hds
      · obtain rfl := Option.some.inj hds
        exact fun c hc => repr_isDigit _ c (List.mem_of_mem_drop hc)
    · intro e he
      obtain rfl := Option.some.inj he
      exact powerOfTen_written _
  · exact Bool.or_true _
  · rw [Decimal.written, if_neg hl, scientific]
    split <;> simp [Numeral.fractionChars, Numeral.exponentChars, Exponent.chars, powerOfTen]
  · rw [hdrop, List.take_append_drop, ofDigitChars_repr, pow_zero, mul_one]
  · dsimp only
    rw [hdrop, Option.map_some, Option.getD_some, powerOfTen_value, List.length_drop, length_repr,
      point]
    omega

/-- Every decimal number in normal form is written as a numeral that is read as it. -/
theorem exists_writes (hd : normal d.digits d.exponent = d) : ∃ n, Writes negative d n := by
  by_cases hl : Layout.plain.leastPoint ≤ d.point ∧ d.point ≤ Layout.plain.mostPoint
  · by_cases hp : d.point ≤ 0
    · exact exists_writes_below_one negative hd hl hp
    · by_cases hw : (digitCount d.digits : Int) ≤ d.point
      · exact exists_writes_whole negative hd hl hp hw
      · exact exists_writes_between negative hd hl hp hw
  · exact exists_writes_scientific negative hd hl

end Layouts

end Decimal

namespace Number

def literalKind : Number → TokenKind
  | .int _ => .integer
  | .float _ => .float

def literal (v : Number) : Word := ⟨v.literalKind, (v.text?.getD "").toList, some (.number v)⟩

/-- A number that can be written is written as a numeral that means it. -/
theorem exists_numeral {v : Number} (hv : v.Writable) :
    ∃ n : Numeral, n.Written ∧ v.text? = some (.ofList n.chars) ∧ n.value = v ∧
      (n.isFloat = false → n.whole.length ≤ maxIntegerDigits) := by
  cases v with
  | int m =>
    have hlt : m.natAbs < 10 ^ maxIntegerDigits := hv
    have hwritten : Numeral.Written ⟨decide (m < 0), m.natAbs.repr.toList, none, none⟩ :=
      ⟨⟨Decimal.repr_ne_nil _, Decimal.repr_isDigit _⟩, (fun ds hds => by cases hds),
        (fun e he => by cases he)⟩
    refine ⟨_, hwritten, ?_, ?_, ?_⟩
    · rw [text?, decimalText?, if_pos hlt, decimalText, Numeral.chars_eq]
      simp [Numeral.fractionChars, Numeral.exponentChars]
    -- the sign comes off with the absolute value and goes on again
    · have hvalue : (Nat.ofDigitChars 10 m.natAbs.repr.toList 0 : Int) = m.natAbs := by
        rw [Decimal.ofDigitChars_repr]
      simp only [Numeral.value, Numeral.isFloat, Option.isSome_none, Bool.or_self,
        Bool.false_eq_true, if_false, hvalue, decide_eq_true_eq]
      congr 1
      split <;> omega
    · intro _
      rw [Decimal.length_repr]
      exact (Nat.length_repr_le_iff (by decide)).mpr hlt
  | float x =>
    cases x with
    | finite negative s k h =>
      obtain ⟨n, hw⟩ := Decimal.exists_writes negative (Decimal.normal_shortest (s * 2 ^ k))
      refine ⟨n, hw.written, ?_, ?_, fun hf => ?_⟩
      · rw [hw.chars]
        rfl
      · rw [Numeral.value, if_pos hw.isFloat, hw.toBinary64, Decimal.toBinary64_shortest h]
      · rw [hw.isFloat] at hf
        cases hf
    | infinite negative => cases hv
    | nan => cases hv

theorem isFinite_of_writable {v : Number} (hv : v.Writable) : v.isFinite = true := by
  cases v with
  | int m => rfl
  | float x => exact hv

end Number

namespace Numeral

variable {rest : List Char}

theorem literalKind_value (n : Numeral) :
    n.value.literalKind = if n.isFloat then .float else .integer := by
  unfold value
  split <;> rfl

/-- A numeral starts a numeral where a minus may be a sign. -/
theorem exists_chars_eq_cons {n : Numeral} (hn : n.Written) (rest : List Char) :
    ∃ c cs, n.chars = c :: cs ∧ startsWord c = true ∧
      Word.startsNumeral true c (cs ++ rest) = true := by
  obtain ⟨d, ds, hw⟩ := List.exists_cons_of_ne_nil hn.whole.1
  have hd : d.isDigit = true := hn.whole.2 d (by simp [hw])
  rw [chars_eq, hw]
  cases n.negative with
  | true => exact ⟨'-', _, rfl, rfl, by simp [Word.startsNumeral, hd]⟩
  | false =>
    have hbounds := isDigit_bounds hd
    have hhash : '#'.toNat = 35 := rfl
    exact ⟨d, _, rfl, startsWord_of_plain (by omega), by simp [Word.startsNumeral, hd]⟩

theorem ofNumeral_eq_ok {n : Numeral} (hl : n.isFloat = false → n.whole.length ≤ maxIntegerDigits)
    (hf : n.value.isFinite = true) (hr : EndsWord rest) :
    Word.ofNumeral n rest = .ok ⟨n.value.literalKind, n.chars, some (.number n.value)⟩ := by
  have hname : rest.head?.filter Word.isNameStart = none := by
    rw [Option.filter_eq_none_iff]
    intro c hc
    simpa using hr.head_eq_false (p := Word.isNameStart) (by decide) c hc
  have hlong : (!n.isFloat && decide (n.whole.length > maxIntegerDigits)) = false := by
    cases hfloat : n.isFloat with
    | true => rfl
    | false => simpa using hl hfloat
  simp only [Word.ofNumeral, hname, hlong, hf, literalKind_value, Bool.false_eq_true, if_false,
    if_true]

end Numeral

/-- The literal of a number is read as that number where a minus may be a sign. -/
theorem Word.readBefore_literal {v : Number} (hv : v.Writable) {rest : List Char}
    (hr : EndsWord rest) : ReadBefore true rest v.literal := by
  obtain ⟨n, hn, htext, hvalue, hlength⟩ := Number.exists_numeral hv
  obtain ⟨c, cs, hchars, hstart, hnumeral⟩ := Numeral.exists_chars_eq_cons hn rest
  have hliteral : v.literal = ⟨n.value.literalKind, n.chars, some (.number n.value)⟩ := by
    rw [Number.literal, htext, Option.getD_some, String.toList_ofList, hvalue]
  have hfinite : n.value.isFinite = true := by
    rw [hvalue]
    exact Number.isFinite_of_writable hv
  rw [hliteral]
  refine ⟨c, cs, hchars, hstart, ?_⟩
  rw [Word.scan, if_pos hnumeral, ← List.cons_append, ← hchars,
    Numeral.scan_append n hn (n.stops_of_endsWord hr)]
  dsimp only
  rw [List.drop_left, Numeral.ofNumeral_eq_ok hlength hfinite hr]

/-- A number that can be written is read as its literal where a minus may be a sign. -/
theorem Lexes.literal {v : Number} (hv : v.Writable) {text : String} (ht : v.text? = some text)
    {rest : List Char} (he : EndsWord rest) {ws : List Word} (hr : Lexes false rest ws) :
    Lexes true (text.toList ++ rest) (v.literal :: ws) := by
  have hchars : v.literal.chars = text.toList := by rw [Number.literal, ht, Option.getD_some]
  have hkind : v.literal.kind.expectsOperand = false := by cases v <;> rfl
  rw [← hchars]
  exact word (Word.readBefore_literal hv he) (by rw [hkind]; exact hr)

end Dec
