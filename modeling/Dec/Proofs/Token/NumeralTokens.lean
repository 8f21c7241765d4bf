import Dec.Proofs.Number.Overflow
import Dec.Proofs.Token.Layout
import Dec.Proofs.Token.LongestNumeral

namespace Dec

section Start

def stopOf (tokens : List Token) : Nat := tokens.getLast?.elim 0 Token.stop

/-- A token starts at an offset: some tokens are read before it, and nothing but blanks and whole
comments stands between them and the offset. -/
structure StartsToken (source file : String) (before : List Token) (offset : Nat) : Prop where
  read : before <+: (lex source file).tokens
  behind : stopOf before ≤ offset
  gap : Separates (source.toList.extract (stopOf before) offset) (source.toList.drop offset)

variable (file : String)

/-- The first token that a reading finds, and the reading that goes on behind it. -/
theorem lexFrom_eq_cons {previous : Option TokenKind} {here : Cursor} {cs : List Char} {t : Token}
    {more : List Token} (h : (lexFrom file previous here cs).tokens = t :: more) :
    ∃ gap chars rest, cs = gap ++ (chars ++ rest) ∧ t.lexeme = .ofList chars ∧
      t.location = some ((here.advance gap).location file) ∧
      let later := lexFrom file (some t.kind) (here.advance (gap ++ chars)) rest
      more = later.tokens ∧ (lexFrom file previous here cs).error = later.error := by
  have hsplit := splitGap_append false cs
  cases hgap : (splitGap false cs).2 with
  | nil =>
    rw [lexFrom_end file hgap] at h
    cases h
  | cons c rest =>
    cases hscan : Word.scan (signAllowedAfter previous) c rest with
    | error fault =>
      rw [lexFrom_error file hgap hscan] at h
      cases h
    | ok w =>
      rw [lexFrom_word file hgap hscan] at h ⊢
      obtain ⟨rfl, rfl⟩ := List.cons.inj h
      refine ⟨(splitGap false cs).1, w.chars, rest.drop (w.chars.length - 1), ?_, rfl, rfl, ?_⟩
      · rw [Word.append_drop_of_scan hscan, ← hgap, hsplit]
      · rw [Cursor.advance_append]
        exact ⟨rfl, rfl⟩

/-- A reading goes on behind any of its tokens as if the text started anew there, but for the place
and the kind of the token before. -/
theorem lex_resume (source : String) {before : List Token}
    (h : before <+: (lex source file).tokens) :
    ∃ front back, source.toList = front ++ back ∧ front.length = stopOf before ∧
      let later := lexFrom file (before.getLast?.map Token.kind) (Cursor.start.advance front) back
      (lex source file).tokens = before ++ later.tokens ∧
        (lex source file).error = later.error := by
  induction before using List.reverseRecOn with
  | nil => exact ⟨[], source.toList, rfl, rfl, rfl, rfl⟩
  | append_singleton before t ih =>
    obtain ⟨front, back, htext, hfront, htokens, herror⟩ := ih ((List.prefix_append _ _).trans h)
    rw [htokens, List.prefix_append_right_inj] at h
    obtain ⟨more, hmore⟩ := h
    rw [List.singleton_append] at hmore
    obtain ⟨gap, chars, rest, hback, hlexeme, hplace, hlater, hfault⟩ :=
      lexFrom_eq_cons file hmore.symm
    have hstop : stopOf (before ++ [t]) = (front ++ (gap ++ chars)).length := by
      have hoffset : t.offset = (front ++ gap).length := by
        rw [Token.offset, hplace, ← Cursor.advance_append, Cursor.location_advance]
        rfl
      have hlength : t.lexeme.length = chars.length := by rw [hlexeme, String.length_ofList]
      rw [stopOf, List.getLast?_concat]
      show t.offset + t.lexeme.length = _
      rw [hoffset, hlength, ← List.length_append, List.append_assoc]
    refine ⟨front ++ (gap ++ chars), rest, ?_, hstop.symm, ?_⟩
    · rw [htext, hback, List.append_assoc, List.append_assoc]
    · rw [List.getLast?_concat, Option.map_some, Cursor.advance_append]
      refine ⟨?_, herror.trans hfault⟩
      rw [htokens, ← hmore, ← hlater, List.append_assoc, List.singleton_append]

variable {file} {source : String} {before : List Token} {offset : Nat} {c : Char}
  {rest : List Char}

/-- Where a token starts, the reading that goes on there skips no more than the gap before it. -/
theorem StartsToken.resume (h : StartsToken source file before offset)
    (htext : source.toList.drop offset = c :: rest) (hc : startsWord c = true) :
    ∃ here cs, (splitGap false cs).2 = c :: rest ∧
      here.advance (splitGap false cs).1 = Cursor.start.advance (source.toList.take offset) ∧
      let later := lexFrom file (before.getLast?.map Token.kind) here cs
      (lex source file).tokens = before ++ later.tokens ∧
        (lex source file).error = later.error := by
  obtain ⟨front, back, hsource, hfront, htokens, herror⟩ := lex_resume file source h.read
  have hgap := h.gap
  have hbehind := h.behind
  rw [← hfront] at hgap hbehind
  -- the text behind the tokens is the gap and then the rest of the text
  obtain ⟨gap, hextract⟩ : ∃ gap, source.toList.extract front.length offset = gap := ⟨_, rfl⟩
  have htake : source.toList.take offset = front ++ gap := by
    rw [← Nat.add_sub_of_le hbehind, List.take_add, ← hextract, List.extract_eq_take_drop, hsource,
      List.take_left]
  have hback : back = gap ++ c :: rest := by
    have hall : front ++ back = front ++ (gap ++ c :: rest) := by
      rw [← hsource, ← List.take_append_drop offset source.toList, htake, htext, List.append_assoc]
    exact List.append_cancel_left hall
  rw [hextract, htext] at hgap
  have hfeed : c ≠ '\n' := by
    rintro rfl
    cases hc
  have hsplit := (hgap.filler rfl hfeed).spaces (c :: rest)
  rw [splitGap_cons hc, List.append_nil, ← hback] at hsplit
  refine ⟨_, back, congrArg Prod.snd hsplit, ?_, htokens, herror⟩
  rw [congrArg Prod.fst hsplit, htake, Cursor.advance_append]

end Start

section Numerals

open Numeral

def signedDecimal : List Char → Int
  | '-' :: digits => -Nat.ofDigitChars 10 digits 0
  | digits => Nat.ofDigitChars 10 digits 0

/-- What makes a numeral of a text no token: a letter or an underscore behind it, too many digits for
an integer, or a magnitude that rounds to infinity. -/
def Refused (w next : List Char) : Prop :=
  (∃ d ∈ next.head?, Word.isNameStart d = true) ∨
  (w ∈ integers ∧ maxIntegerDigits < w.countP Char.isDigit) ∨
  ∃ n : Numeral, n.Written ∧ n.isFloat = true ∧ n.chars = w ∧ overflowThreshold ≤ n.magnitude

/-- What a numeral says of its token: it is a float if it has a point or a power of ten, and an integer
with the value that is written otherwise. -/
structure Token.OfNumeral (w : List Char) (t : Token) : Prop where
  lexeme : t.lexeme = .ofList w
  literal : t.kind = .float ∨ t.kind = .integer
  isFloat : t.kind = .float ↔ ∃ d ∈ w, d = '.' ∨ d = 'e' ∨ d = 'E'
  integer : t.kind = .integer → t.value = some (.number (.int (signedDecimal w)))
  float : t.kind = .float → ∃ n : Numeral, n.Written ∧ n.chars = w ∧
    t.value = some (.number (.float n.toBinary64)) ∧ n.toBinary64.isFinite = true

namespace Numeral

variable {n n' : Numeral}

/-- A numeral is written in one way only. -/
theorem Written.eq_of_chars_eq (hn : n.Written) (hn' : n'.Written) (h : n.chars = n'.chars) :
    n = n' := by
  have hscan (m : Numeral) (hm : m.Written) : scan (m.chars ++ []) = m :=
    scan_append m hm fun c hc => by cases hc
  calc
    n = scan (n.chars ++ []) := (hscan n hn).symm
    _ = scan (n'.chars ++ []) := by rw [h]
    _ = n' := hscan n' hn'

/-- A point or a letter tells a float. -/
theorem Written.isFloat_iff (hn : n.Written) :
    n.isFloat = true ↔ ∃ d ∈ n.chars, d = '.' ∨ d = 'e' ∨ d = 'E' := by
  constructor
  · intro hfloat
    rw [chars_eq]
    rw [isFloat, Bool.or_eq_true, Option.isSome_iff_exists, Option.isSome_iff_exists] at hfloat
    rcases hfloat with ⟨digits, hdigits⟩ | ⟨e, he⟩
    · exact ⟨'.', by simp [hdigits, fractionChars], .inl rfl⟩
    · exact ⟨e.mark, by simp [he, exponentChars, Exponent.chars], .inr (hn.exponent e he).mark⟩
  · rintro ⟨d, hd, hmark⟩
    by_contra hfloat
    rw [Bool.not_eq_true] at hfloat
    rw [chars_of_isFloat_eq_false hfloat, List.mem_append] at hd
    -- neither a minus nor a digit is one of these characters
    have hplain : d = '-' ∨ d.isDigit = true := by
      rcases hd with hd | hd
      · split at hd
        · exact .inl (List.mem_singleton.mp hd)
        · cases hd
      · exact .inr (hn.whole.2 d hd)
    rcases hmark with rfl | rfl | rfl <;> rcases hplain with h | h <;> cases h

theorem countP_isDigit_of_isFloat_eq_false (hn : n.Written) (h : n.isFloat = false) :
    n.chars.countP Char.isDigit = n.whole.length := by
  have hsign : (if n.negative then ['-'] else []).countP Char.isDigit = 0 := by
    cases n.negative <;> rfl
  rw [chars_of_isFloat_eq_false h, List.countP_append, hsign, Nat.zero_add,
    List.countP_eq_length.mpr hn.whole.2]

theorem Written.refused_iff (hn : n.Written) (next : List Char) :
    Refused n.chars next ↔ (∃ d ∈ next.head?, Word.isNameStart d = true) ∨
      (n.isFloat = false ∧ maxIntegerDigits < n.whole.length) ∨
      (n.isFloat = true ∧ overflowThreshold ≤ n.magnitude) := by
  rw [Refused]
  refine or_congr Iff.rfl (or_congr ?_ ?_)
  · constructor
    · rintro ⟨hmem, hlong⟩
      obtain ⟨n', hn', hfloat, hchars⟩ := mem_integers.mp hmem
      obtain rfl := hn'.eq_of_chars_eq hn hchars
      rw [countP_isDigit_of_isFloat_eq_false hn hfloat] at hlong
      exact ⟨hfloat, hlong⟩
    · rintro ⟨hfloat, hlong⟩
      rw [countP_isDigit_of_isFloat_eq_false hn hfloat]
      exact ⟨mem_integers.mpr ⟨n, hn, hfloat, rfl⟩, hlong⟩
  · constructor
    · rintro ⟨n', hn', hfloat, hchars, hlarge⟩
      obtain rfl := hn'.eq_of_chars_eq hn hchars
      exact ⟨hfloat, hlarge⟩
    · rintro ⟨hfloat, hlarge⟩
      exact ⟨n, hn, hfloat, rfl, hlarge⟩

/-- An integer has the value that is written. -/
theorem Written.value_of_isFloat_eq_false (hn : n.Written) (h : n.isFloat = false) :
    n.value = .int (signedDecimal n.chars) := by
  rw [value, h, chars_of_isFloat_eq_false h]
  cases n.negative with
  | true => rfl
  | false =>
    show Number.int _ = .int (signedDecimal n.whole)
    rw [signedDecimal]
    · rfl
    -- the first digit is no minus
    · intro digits hdigits
      have hminus := hn.whole.2 '-' (by rw [hdigits]; exact List.mem_cons_self)
      cases hminus

theorem Written.ofNumeral_of_refused (hn : n.Written) {next : List Char}
    (h : Refused n.chars next) :
    ∃ fault, Word.ofNumeral n next = .error fault ∧
      ∀ location, (fault.diagnostic location).code = some "L003" := by
  rw [hn.refused_iff] at h
  rw [Word.ofNumeral]
  split
  · exact ⟨_, rfl, fun _ => rfl⟩
  · rename_i hnone
    split
    · exact ⟨_, rfl, fun _ => rfl⟩
    · rename_i hshort
      rcases h with ⟨d, hd, hname⟩ | ⟨hfloat, hlong⟩ | ⟨hfloat, hlarge⟩
      · rw [Option.mem_def.mp hd, Option.filter_some, if_pos hname] at hnone
        cases hnone
      · exact absurd (by simp [hfloat, hlong]) hshort
      · rw [if_neg]
        · exact ⟨_, rfl, fun _ => rfl⟩
        · rw [value_isFinite_iff]
          exact fun hfinite => absurd (hfinite hfloat) (not_lt.mpr hlarge)

theorem Written.isFinite_of_not_refused (hn : n.Written) {next : List Char}
    (h : ¬ Refused n.chars next) : n.value.isFinite = true := by
  rw [hn.refused_iff, not_or, not_or] at h
  rw [value_isFinite_iff]
  exact fun hfloat => not_le.mp fun hle => h.2.2 ⟨hfloat, hle⟩

theorem Written.ofNumeral_of_not_refused (hn : n.Written) {next : List Char}
    (h : ¬ Refused n.chars next) :
    Word.ofNumeral n next =
      .ok ⟨if n.isFloat then .float else .integer, n.chars, some (.number n.value)⟩ := by
  have hfinite := hn.isFinite_of_not_refused h
  rw [hn.refused_iff, not_or, not_or] at h
  obtain ⟨hname, hlong, -⟩ := h
  rw [Word.ofNumeral]
  split
  · rename_i d hd
    obtain ⟨hd, hstart⟩ := Option.filter_eq_some_iff.mp hd
    exact absurd ⟨d, hd, hstart⟩ hname
  · have hshort : (!n.isFloat && decide (n.whole.length > maxIntegerDigits)) = false := by
      rw [← Bool.not_eq_true, Bool.and_eq_true, Bool.not_eq_true', decide_eq_true_eq]
      exact hlong
    rw [hshort, if_neg Bool.false_ne_true, if_pos hfinite]

theorem Written.token_ofNumeral (hn : n.Written) (hfinite : n.value.isFinite = true)
    (location : Option Location) :
    Token.OfNumeral n.chars ⟨if n.isFloat then .float else .integer, .ofList n.chars,
      some (.number n.value), location⟩ := by
  cases hfloat : n.isFloat with
  | true =>
    have hvalue : n.value = .float n.toBinary64 := by rw [value, hfloat, if_pos rfl]
    rw [hvalue] at hfinite
    exact ⟨rfl, .inl rfl, iff_of_true rfl (hn.isFloat_iff.mp hfloat), (fun hk => by cases hk),
      fun _ => ⟨n, hn, rfl, by rw [hvalue], hfinite⟩⟩
  | false =>
    have hmarks : ¬ ∃ d ∈ n.chars, d = '.' ∨ d = 'e' ∨ d = 'E' := by
      rw [← hn.isFloat_iff, hfloat]
      exact Bool.false_ne_true
    exact ⟨rfl, .inr rfl, iff_of_false (fun hk => by cases hk) hmarks,
      fun _ => by rw [hn.value_of_isFloat_eq_false hfloat], (fun hk => by cases hk)⟩

end Numeral

/-- Two longest prefixes of a text are one. -/
theorem LongestPrefix.unique {l : Language Char} {v w text : List Char}
    (hv : LongestPrefix l v text) (hw : LongestPrefix l w text) : v = w := by
  have hle := hw.longest v hv.mem hv.isPrefix
  exact (List.prefix_of_prefix_length_le hv.isPrefix hw.isPrefix hle).eq_of_length
    (Nat.le_antisymm hle (hv.longest w hw.mem hw.isPrefix))

variable {source file : String} {before : List Token} {offset : Nat} {c : Char} {rest : List Char}

/-- Numerals are scanned exactly. Wherever a token starts with a digit, or with a minus before a digit
where an operand is expected, the longest numeral that the text goes on with is its text, unless the
numeral is refused: then the text has no tokens but an error of its own code, which is placed there.
-/
theorem tokenize_longestNumeral (hstart : StartsToken source file before offset)
    (htext : source.toList.drop offset = c :: rest)
    (hc : c.isDigit = true ∨ c = '-' ∧
      signAllowedAfter (before.getLast?.map Token.kind) = true ∧ ∃ d ∈ rest.head?, d.isDigit = true) :
    (∃ w, LongestPrefix numerals w (c :: rest)) ∧ ∀ w, LongestPrefix numerals w (c :: rest) →
      (Refused w ((c :: rest).drop w.length) → ∃ e, tokenize source file = .error e ∧
        e.location = .after file (source.toList.take offset) ∧ e.diagnostic.code = some "L003") ∧
      (¬ Refused w ((c :: rest).drop w.length) → ∃ t, before ++ [t] <+: (lex source file).tokens ∧
        t.location = some (.after file (source.toList.take offset)) ∧ t.OfNumeral w) := by
  have hnumeral : Word.startsNumeral (signAllowedAfter (before.getLast?.map Token.kind)) c rest =
      true := by
    rw [Word.startsNumeral]
    rcases hc with hc | ⟨rfl, hallowed, d, hd, hdigit⟩
    · rw [hc, Bool.true_or]
    · rw [hallowed, Option.mem_def.mp hd, Option.any_some, hdigit]
      rfl
  have hword : startsWord c = true := by
    rcases hc with hc | ⟨rfl, -⟩
    · have hbounds := isDigit_bounds hc
      have hhash : '#'.toNat = 35 := rfl
      exact startsWord_of_plain (by omega)
    · rfl
  obtain ⟨hwritten, hlongest⟩ := scan_longestPrefix hnumeral
  refine ⟨⟨_, hlongest⟩, fun w hw => ?_⟩
  obtain rfl := hlongest.unique hw
  obtain ⟨here, cs, hgap, hplace, htokens, herror⟩ := hstart.resume htext hword
  have hscan : Word.scan (signAllowedAfter (before.getLast?.map Token.kind)) c rest =
      Word.ofNumeral (scan (c :: rest)) ((c :: rest).drop (scan (c :: rest)).chars.length) := by
    rw [Word.scan, if_pos hnumeral]
  have hlocation : (here.advance (splitGap false cs).1).location file =
      .after file (source.toList.take offset) := by
    rw [hplace, Cursor.location_advance]
  constructor
  · intro hrefused
    obtain ⟨fault, hfault, hcode⟩ := hwritten.ofNumeral_of_refused hrefused
    rw [lexFrom_error file hgap (hscan.trans hfault)] at herror
    refine ⟨⟨fault, .after file (source.toList.take offset)⟩, ?_, rfl, hcode _⟩
    rw [tokenize, herror]
    dsimp only
    rw [hlocation]
  · intro haccepted
    rw [lexFrom_word file hgap (hscan.trans (hwritten.ofNumeral_of_not_refused haccepted))] at htokens
    refine ⟨_, ?_, congrArg some hlocation,
      hwritten.token_ofNumeral (hwritten.isFinite_of_not_refused haccepted) _⟩
    rw [htokens, List.prefix_append_right_inj]
    exact List.prefix_append [_] _

/-- A minus behind an operator belongs to the number, which ends before the letter that no digits
follow; and there the reading stops. -/
theorem tokenize_longestNumeral_lone_letter :
    ∃ e, tokenize "a - -1.5e+" "f" = .error e ∧ e.location = ⟨"f", 1, 5, 4⟩ ∧
      e.diagnostic.code = some "L003" := by
  let name : Token := ⟨.identifier, "a", some (.text "a"), some ⟨"f", 1, 1, 0⟩⟩
  let minus : Token := ⟨.operator .minus, "-", none, some ⟨"f", 1, 3, 2⟩⟩
  have htokens : (lex "a - -1.5e+" "f").tokens = [name, minus] := by decide +kernel
  have hstart : StartsToken "a - -1.5e+" "f" [name, minus] 4 := by
    have hgap : "a - -1.5e+".toList.extract (stopOf [name, minus]) 4 = [' '] := by decide +kernel
    refine ⟨?_, by decide, ?_⟩
    · rw [htokens]
    · rw [hgap]
      exact .blank (by decide) .nil
  have hstarts : Word.startsNumeral true '-' ['1', '.', '5', 'e', '+'] = true := by decide
  have hnumeral : LongestPrefix numerals ['-', '1', '.', '5'] ['-', '1', '.', '5', 'e', '+'] :=
    (scan_longestPrefix hstarts).2
  have htext : "a - -1.5e+".toList.drop 4 = ['-', '1', '.', '5', 'e', '+'] := by decide +kernel
  obtain ⟨-, hread⟩ := tokenize_longestNumeral hstart htext (.inr ⟨rfl, rfl, '1', rfl, rfl⟩)
  obtain ⟨e, herror, hplace, hcode⟩ := (hread _ hnumeral).1 (.inl ⟨'e', rfl, rfl⟩)
  refine ⟨e, herror, ?_, hcode⟩
  rw [hplace]
  decide +kernel

end Numerals

end Dec
