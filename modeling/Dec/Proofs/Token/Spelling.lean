import Dec.Token.Stream
import Dec.Proofs.Number.Digits

namespace Dec

def Number.Writable : Number → Prop
  | .int n => n.natAbs < 10 ^ maxIntegerDigits
  | .float x => x.isFinite = true

namespace Word

def isName : List Char → Bool
  | [] => false
  | c :: cs => isNameStart c && cs.all isNamePart

/-- A word is spelled as its kind says and has the value that goes with it. -/
structure Spelled (w : Word) : Prop where
  notEnd : w.kind ≠ .endOfInput
  sign : ∀ s, w.kind.sign? = some s → String.ofList w.chars = s
  name : w.kind = .identifier → isName w.chars = true ∧ w.chars ≠ returnWord
  integer : w.kind = .integer → ∃ n, w.value = some (.number (.int n)) ∧ (Number.int n).Writable
  float : w.kind = .float → ∃ x, w.value = some (.number (.float x)) ∧ (Number.float x).Writable

end Word

namespace TokenKind

theorem sign?_of_mem_signs : ∀ p ∈ signs, p.2.sign? = some p.1 := by decide

theorem plain_of_mem_signs :
    ∀ p ∈ signs, p.2 ≠ .integer ∧ p.2 ≠ .float ∧ p.2 ≠ .identifier ∧ p.2 ≠ .endOfInput := by
  decide

theorem mem_signs_of_ofSign? {s : String} {k : TokenKind} (h : ofSign? s = some k) :
    (s, k) ∈ signs := by
  obtain ⟨front, back, he, -⟩ := List.lookup_eq_some_iff.mp h
  rw [he]
  simp

end TokenKind

namespace Numeral

theorem scan_whole_isDigit (cs : List Char) : ∀ c ∈ (scan cs).whole, c.isDigit = true := by
  have hu (negative : Bool) (ds : List Char) :
      (scanUnsigned negative ds).whole = ds.takeWhile Char.isDigit := by
    unfold scanUnsigned
    split <;> rfl
  intro c hc
  unfold scan at hc
  split at hc <;> rw [hu] at hc <;> exact List.all_eq_true.mp List.all_takeWhile c hc

/-- A numeral without fraction and exponent whose digits are few enough is an integer that can be
written. -/
theorem value_writable {n : Numeral} (hn : n.isFloat = false)
    (hd : ∀ c ∈ n.whole, c.isDigit = true) (hl : n.whole.length ≤ maxIntegerDigits) :
    ∃ m, n.value = .int m ∧ (Number.int m).Writable := by
  refine ⟨_, by rw [value, hn]; rfl, ?_⟩
  have hlt := ofDigitChars_lt n.whole hd
  have hle : 10 ^ n.whole.length ≤ 10 ^ maxIntegerDigits := Nat.pow_le_pow_right (by decide) hl
  simp only [Number.Writable]
  split
  · rw [Int.natAbs_neg, Int.natAbs_natCast]
    exact lt_of_lt_of_le hlt hle
  · rw [Int.natAbs_natCast]
    exact lt_of_lt_of_le hlt hle

end Numeral

namespace Word

theorem ofNumeral_spelled {n : Numeral} {rest : List Char} {w : Word}
    (hd : ∀ c ∈ n.whole, c.isDigit = true) (h : ofNumeral n rest = .ok w) : w.Spelled := by
  -- the faults first: a letter after it, too many digits, too large
  unfold ofNumeral at h
  split at h
  · cases h
  · split at h
    · cases h
    · rename_i hl
      split at h
      · rename_i hfin
        obtain rfl := Except.ok.inj h
        cases hf : n.isFloat with
        | true =>
          have hv : n.value = .float n.toBinary64 := by rw [Numeral.value, hf]; rfl
          rw [hv] at hfin
          exact ⟨by simp, (fun s hs => by cases hs), by simp, by simp,
            fun _ => ⟨_, by rw [hv], hfin⟩⟩
        | false =>
          have hle : n.whole.length ≤ maxIntegerDigits := by simpa [hf] using hl
          obtain ⟨m, hm, hw⟩ := Numeral.value_writable hf hd hle
          exact ⟨by simp, (fun s hs => by cases hs), by simp, fun _ => ⟨m, by rw [hm], hw⟩,
            by simp⟩
      · cases h

theorem ofName_spelled {name : List Char} (hn : isName name = true) : (ofName name).Spelled := by
  unfold ofName
  split
  · exact ⟨by simp, (fun s hs => by cases hs), by simp, by simp, by simp⟩
  · exact ⟨by simp, (fun s hs => by cases hs), fun _ => ⟨hn, by assumption⟩, by simp, by simp⟩

theorem isNamePart_of_isNameStart {c : Char} (hc : isNameStart c = true) : isNamePart c = true := by
  simp only [isNameStart, Bool.or_eq_true] at hc
  rcases hc with hc | hc
  · simp [isNamePart, Char.isAlphanum, hc]
  · simp [isNamePart, hc]

theorem isName_takeWhile {c : Char} (hc : isNameStart c = true) (rest : List Char) :
    isName ((c :: rest).takeWhile isNamePart) = true := by
  rw [List.takeWhile_cons, isNamePart_of_isNameStart hc]
  simp [isName, hc, List.all_takeWhile]

theorem spelled_of_ofSign? {cs : List Char} {k : TokenKind}
    (h : TokenKind.ofSign? (.ofList cs) = some k) : Spelled ⟨k, cs, none⟩ := by
  have hm := TokenKind.mem_signs_of_ofSign? h
  obtain ⟨hi, hf, hn, he⟩ := TokenKind.plain_of_mem_signs _ hm
  refine ⟨he, fun s hs => ?_, fun hk => absurd hk hn, fun hk => absurd hk hi,
    fun hk => absurd hk hf⟩
  have hk := TokenKind.sign?_of_mem_signs _ hm
  exact Option.some.inj (hk.symm.trans hs)

theorem sign?_spelled {cs : List Char} {w : Word} (h : sign? cs = some w) : w.Spelled := by
  have single {c : Char}
      (hc : (TokenKind.ofSign? (.singleton c)).map (fun kind => (⟨kind, [c], none⟩ : Word)) =
        some w) : w.Spelled := by
    obtain ⟨k, hk, rfl⟩ := Option.map_eq_some_iff.mp hc
    exact spelled_of_ofSign? (by rwa [String.singleton_eq_ofList] at hk)
  unfold sign? at h
  split at h
  · split at h
    · rename_i k hk
      obtain rfl := Option.some.inj h
      exact spelled_of_ofSign? hk
    · exact single h
  · exact single h
  · cases h

/-- Whatever a text starts with, the word read there is spelled as its kind says. -/
theorem scan_spelled {allowed : Bool} {c : Char} {rest : List Char} {w : Word}
    (h : scan allowed c rest = .ok w) : w.Spelled := by
  unfold scan at h
  split at h
  · exact ofNumeral_spelled (Numeral.scan_whole_isDigit _) h
  · split at h
    · rename_i hc
      obtain rfl := Except.ok.inj h
      exact ofName_spelled (isName_takeWhile hc rest)
    · split at h
      · rename_i word hs
        obtain rfl := Except.ok.inj h
        exact sign?_spelled hs
      · split at h
        · obtain rfl := Except.ok.inj h
          exact ⟨by simp, (fun s hs => by cases hs), by simp, by simp, by simp⟩
        · cases h

end Word

namespace Token

def word (t : Token) : Word := ⟨t.kind, t.lexeme.toList, t.value⟩

def Spelled (t : Token) : Prop := t.word.Spelled

end Token

section Stream

variable (file : String)

theorem lexFrom_end {previous : Option TokenKind} {here : Cursor} {cs : List Char}
    (hg : (splitGap false cs).2 = []) :
    lexFrom file previous here cs = ⟨[], none, here.advance (splitGap false cs).1⟩ := by
  rw [lexFrom]
  split
  · rfl
  · rename_i hc
    rw [hg] at hc
    cases hc

theorem lexFrom_error {previous : Option TokenKind} {here : Cursor} {cs : List Char} {c : Char}
    {rest : List Char} {fault : LexicalFault} (hg : (splitGap false cs).2 = c :: rest)
    (hw : Word.scan (signAllowedAfter previous) c rest = .error fault) :
    lexFrom file previous here cs =
      let start := here.advance (splitGap false cs).1
      ⟨[], some ⟨fault, start.location file⟩, start.advance fault.consumed⟩ := by
  rw [lexFrom]
  split
  · rename_i hc
    rw [hg] at hc
    cases hc
  · rename_i hc
    obtain ⟨rfl, rfl⟩ := List.cons.inj (hg.symm.trans hc)
    rw [hw]

theorem lexFrom_word {previous : Option TokenKind} {here : Cursor} {cs : List Char} {c : Char}
    {rest : List Char} {w : Word} (hg : (splitGap false cs).2 = c :: rest)
    (hw : Word.scan (signAllowedAfter previous) c rest = .ok w) :
    lexFrom file previous here cs =
      let start := here.advance (splitGap false cs).1
      let later := lexFrom file (some w.kind) (start.advance w.chars)
        (rest.drop (w.chars.length - 1))
      { later with
        tokens := ⟨w.kind, .ofList w.chars, w.value, some (start.location file)⟩ ::
          later.tokens } := by
  rw [lexFrom]
  split
  · rename_i hc
    rw [hg] at hc
    cases hc
  · rename_i hc
    obtain ⟨rfl, rfl⟩ := List.cons.inj (hg.symm.trans hc)
    rw [hw]

/-- All tokens of a text are spelled as their kinds say. -/
theorem lexFrom_spelled (previous : Option TokenKind) (here : Cursor) (cs : List Char) :
    ∀ t ∈ (lexFrom file previous here cs).tokens, t.Spelled := by
  induction previous, here, cs using lexFrom.induct file with
  | case1 previous here cs gap hg =>
    rw [lexFrom_end file hg]
    simp
  | case2 previous here cs gap c rest hg fault hw =>
    rw [lexFrom_error file hg hw]
    simp
  | case3 previous here cs gap start c rest hg w hw ih =>
    rw [lexFrom_word file hg hw]
    intro t ht
    rcases List.mem_cons.mp ht with rfl | ht
    · have hs := Word.scan_spelled hw
      simpa only [Token.Spelled, Token.word, String.toList_ofList] using hs
    · exact ih t ht

end Stream

/-- The tokens of a text are spelled tokens and then the end of the input. -/
theorem tokenize_eq_ok {source file : String} {tokens : List Token}
    (h : tokenize source file = .ok tokens) :
    ∃ ts place, tokens = ts ++ [.endOfInput place] ∧ ∀ t ∈ ts, t.Spelled := by
  simp only [tokenize] at h
  split at h
  · cases h
  · obtain rfl := Except.ok.inj h
    exact ⟨_, _, rfl, lexFrom_spelled file none .start source.toList⟩

end Dec
