import Mathlib
import Dec.Proofs.Token.Numeral
import Dec.Proofs.Token.Spelling

namespace Dec

def startsWord (c : Char) : Bool := !Text.isBlank c && c != '#'

theorem Text.CodeSet.sideOf_of_lt {code : Nat} {edges : List Nat} (h : ∀ e ∈ edges, code < e)
    (inside : Bool) : sideOf code inside edges = inside := by
  cases edges with
  | nil => rfl
  | cons edge rest =>
    have hlt : code < edge := h edge (by simp)
    rw [sideOf, if_neg (by omega)]

/-- The plain characters beyond the number sign start words. -/
theorem startsWord_of_plain {c : Char} (hc : '#'.toNat < c.toNat ∧ c.toNat < 127) :
    startsWord c = true := by
  have hlo : 35 < c.toNat := hc.1
  have hne : c ≠ '#' := by
    rintro rfl
    exact absurd hc.1 (by decide)
  -- four edges lie below the plain characters, all others beyond them
  have hbeyond : ∀ e ∈ Text.blanks.edges.drop 4, 127 ≤ e := by decide
  have hsplit : Text.blanks.edges = 0x9 :: 0xe :: 0x1c :: 0x21 :: Text.blanks.edges.drop 4 := rfl
  have hb : Text.isBlank c = false := by
    rw [Text.isBlank, Text.CodeSet.contains, hsplit]
    simp only [Text.CodeSet.sideOf]
    rw [if_pos (by omega), if_pos (by omega), if_pos (by omega), if_pos (by omega),
      Text.CodeSet.sideOf_of_lt fun e he => by have := hbeyond e he; omega]
    rfl
  simp [startsWord, hne, hb]

theorem splitGap_cons {c : Char} (hc : startsWord c = true) (rest : List Char) :
    splitGap false (c :: rest) = ([], c :: rest) := by
  have hb : Text.isBlank c = false ∧ c ≠ '#' := by simpa [startsWord] using hc
  rw [splitGap, if_neg (by simp [hb])]

/-- What only lengthens the gap of any text that it stands in front of. -/
def Spaces (gap : List Char) : Prop :=
  ∀ cs, splitGap false (gap ++ cs) = (gap ++ (splitGap false cs).1, (splitGap false cs).2)

theorem spaces_of_blanks {gap : List Char} (hg : ∀ c ∈ gap, Text.isBlank c = true) : Spaces gap := by
  intro cs
  induction gap with
  | nil => rfl
  | cons b gap ih =>
    have hb : Text.isBlank b = true := hg b (by simp)
    -- a blank opens no comment
    have hne : (b == '#') = false := by
      rw [beq_eq_false_iff_ne]
      rintro rfl
      cases hb
    have hi := ih fun d hd => hg d (by simp [hd])
    rw [List.cons_append, splitGap, if_pos (by simp [hb]), hne]
    simp only [Bool.false_eq_true, if_false, hi, List.cons_append]

theorem Cursor.advance_append (here : Cursor) (cs ds : List Char) :
    here.advance (cs ++ ds) = (here.advance cs).advance ds := List.foldl_append

/-- Spaces in front of a text only move the place where its reading starts. -/
theorem lexFrom_spaces_append (file : String) {gap : List Char} (hg : Spaces gap)
    (previous : Option TokenKind) (here : Cursor) (cs : List Char) :
    lexFrom file previous here (gap ++ cs) = lexFrom file previous (here.advance gap) cs := by
  have hs := hg cs
  have hfst := congrArg Prod.fst hs
  have hsnd := congrArg Prod.snd hs
  dsimp only at hfst hsnd
  -- the two readings look at the same rest from the same place
  cases hc : (splitGap false cs).2 with
  | nil =>
    rw [lexFrom_end file (hsnd.trans hc), lexFrom_end file hc, hfst, Cursor.advance_append]
  | cons c rest =>
    cases hw : Word.scan (signAllowedAfter previous) c rest with
    | error fault =>
      rw [lexFrom_error file (hsnd.trans hc) hw, lexFrom_error file hc hw, hfst,
        Cursor.advance_append]
    | ok w =>
      rw [lexFrom_word file (hsnd.trans hc) hw, lexFrom_word file hc hw, hfst,
        Cursor.advance_append]

def Word.ReadBefore (allowed : Bool) (rest : List Char) (w : Word) : Prop :=
  ∃ c cs, w.chars = c :: cs ∧ startsWord c = true ∧ Word.scan allowed c (cs ++ rest) = .ok w

/-- A text is read as the given words, wherever it stands and whatever comes before it, where a minus
may be a sign or not. -/
def Lexes (allowed : Bool) (cs : List Char) (ws : List Word) : Prop :=
  ∀ file previous here, signAllowedAfter previous = allowed →
    ∃ ts stop, lexFrom file previous here cs = ⟨ts, none, stop⟩ ∧ ts.map Token.word = ws

namespace Lexes

/-- An empty text has no words. -/
theorem nil (allowed : Bool) : Lexes allowed [] [] := by
  intro file previous here _
  exact ⟨[], _, lexFrom_end file rfl, rfl⟩

variable {allowed : Bool} {rest : List Char} {ws : List Word}

/-- Spaces in front do not count. -/
theorem spaces {gap : List Char} (hg : Spaces gap) (hr : Lexes allowed rest ws) :
    Lexes allowed (gap ++ rest) ws := by
  intro file previous here hp
  rw [lexFrom_spaces_append file hg]
  exact hr file previous _ hp

theorem blanks {gap : List Char} (hg : ∀ c ∈ gap, Text.isBlank c = true)
    (hr : Lexes allowed rest ws) : Lexes allowed (gap ++ rest) ws := hr.spaces (spaces_of_blanks hg)

theorem space (hr : Lexes allowed rest ws) : Lexes allowed (' ' :: rest) ws :=
  blanks (List.forall_mem_singleton.mpr rfl) hr

theorem newline (hr : Lexes allowed rest ws) : Lexes allowed ('\n' :: rest) ws :=
  blanks (List.forall_mem_singleton.mpr rfl) hr

/-- Words are read one after the other. -/
theorem word {w : Word} (hw : w.ReadBefore allowed rest)
    (hr : Lexes w.kind.expectsOperand rest ws) : Lexes allowed (w.chars ++ rest) (w :: ws) := by
  intro file previous here hp
  obtain ⟨c, cs, hc, hstart, hscan⟩ := hw
  have hs := splitGap_cons hstart (cs ++ rest)
  have hdrop : (cs ++ rest).drop (w.chars.length - 1) = rest := by
    rw [hc, List.length_cons, Nat.add_sub_cancel, List.drop_left]
  obtain ⟨ts, stop, hl, ht⟩ := hr file (some w.kind) ((here.advance []).advance w.chars) rfl
  rw [hc, List.cons_append, lexFrom_word file (by rw [hs]) (by rw [hp]; exact hscan)]
  simp only [hs, hdrop, hl]
  refine ⟨_, stop, rfl, ?_⟩
  rw [List.map_cons, ht, Token.word, String.toList_ofList]

end Lexes

namespace TokenKind

theorem longSign_of_mem_signs :
    ∀ p ∈ signs, p.1.toList.length = 2 → p.1.toList.head? = some '/' ∨ p.1.toList.head? = some ':' := by
  decide

/-- Only two characters start a sign of two characters. -/
theorem ofSign?_pair {c : Char} (hc : c ≠ '/' ∧ c ≠ ':') (d : Char) :
    ofSign? (.ofList [c, d]) = none := by
  rw [Option.eq_none_iff_forall_ne_some]
  intro kind hk
  have hlong := longSign_of_mem_signs _ (mem_signs_of_ofSign? hk)
  simp only [String.toList_ofList, List.length_cons, List.length_nil, List.head?_cons,
    Option.some.injEq, forall_const] at hlong
  rcases hlong with h | h
  · exact hc.1 h
  · exact hc.2 h

end TokenKind

namespace Word

variable (allowed : Bool) (rest : List Char)

def ofSign (kind : TokenKind) : Word := ⟨kind, (kind.sign?.getD "").toList, none⟩

/-- A character that starts no other word is a sign whatever follows. -/
theorem readBefore_single {c : Char} {kind : TokenKind} (hstart : startsWord c = true)
    (hnumeral : startsNumeral allowed c rest = false) (hname : isNameStart c = false)
    (hne : c ≠ '/' ∧ c ≠ ':') (hsign : TokenKind.ofSign? (.singleton c) = some kind) :
    ReadBefore allowed rest ⟨kind, [c], none⟩ := by
  refine ⟨c, [], rfl, hstart, ?_⟩
  have hword : sign? (c :: rest) = some ⟨kind, [c], none⟩ := by
    cases rest with
    | nil => simp only [sign?, hsign, Option.map_some]
    | cons d rest => simp only [sign?, TokenKind.ofSign?_pair hne d, hsign, Option.map_some]
  simp only [List.nil_append, scan, hnumeral, hname, hword, Bool.false_eq_true, if_false]

/-- An operator is read before a blank. -/
theorem readBefore_operator (op : BinaryOp) :
    ReadBefore allowed (' ' :: rest) (ofSign (.operator op)) := by
  cases op <;> cases allowed <;> exact ⟨_, _, rfl, rfl, rfl⟩

/-- The sign of assignment is read whatever follows. -/
theorem readBefore_assign : ReadBefore allowed rest (ofSign .assign) := by
  cases allowed <;> exact ⟨_, _, rfl, rfl, rfl⟩

variable {rest}

theorem isName_all {cs : List Char} (hn : isName cs = true) : ∀ c ∈ cs, isNamePart c = true := by
  cases cs with
  | nil => simp
  | cons c cs =>
    simp only [isName, Bool.and_eq_true, List.all_eq_true] at hn
    intro d hd
    rcases List.mem_cons.mp hd with rfl | hd
    · exact isNamePart_of_isNameStart hn.1
    · exact hn.2 d hd

theorem plain_of_isNameStart {c : Char} (hc : isNameStart c = true) :
    '9'.toNat < c.toNat ∧ c.toNat < 127 := by
  have h9 : '9'.toNat = 57 := rfl
  simp only [isNameStart, Char.isAlpha, Char.isUpper, Char.isLower, Bool.or_eq_true,
    Bool.and_eq_true, decide_eq_true_eq, beq_iff_eq] at hc
  rcases hc with (⟨hlo, hhi⟩ | ⟨hlo, hhi⟩) | rfl
  · have h1 : 65 ≤ c.toNat := hlo
    have h2 : c.toNat ≤ 90 := hhi
    omega
  · have h1 : 97 ≤ c.toNat := hlo
    have h2 : c.toNat ≤ 122 := hhi
    omega
  · decide

/-- A name is read to its end. -/
theorem readBefore_name {cs : List Char} (hn : isName cs = true) (hr : EndsWord rest) :
    ReadBefore allowed rest (ofName cs) := by
  cases cs with
  | nil => cases hn
  | cons c cs =>
    have hpart := isName_all hn
    have hstart : isNameStart c = true := by
      simp only [isName, Bool.and_eq_true] at hn
      exact hn.1
    have hplain := plain_of_isNameStart hstart
    have h9 : '9'.toNat = 57 := rfl
    have hhash : '#'.toNat = 35 := rfl
    have hchars : (ofName (c :: cs)).chars = c :: cs := by
      unfold ofName
      split <;> rfl
    have hdigit : c.isDigit = false := by
      rw [Bool.eq_false_iff]
      intro hd
      have hle := (isDigit_bounds hd).2
      omega
    have hminus : (c == '-') = false := by
      rw [beq_eq_false_iff_ne]
      rintro rfl
      cases hstart
    have htake : (c :: (cs ++ rest)).takeWhile isNamePart = c :: cs :=
      takeWhile_append_stop hpart (hr.head_eq_false (by decide))
    refine ⟨c, cs, hchars, startsWord_of_plain (by omega), ?_⟩
    simp only [scan, startsNumeral, hdigit, hminus, Bool.false_and, Bool.false_or,
      Bool.false_eq_true, if_false, hstart, if_true, htake]

end Word

namespace Lexes

variable {allowed : Bool} {rest : List Char} {ws : List Word}

theorem leftParen (hr : Lexes true rest ws) :
    Lexes allowed ('(' :: rest) (.ofSign .leftParen :: ws) :=
  word (Word.readBefore_single allowed rest rfl rfl rfl (by decide) rfl) hr

theorem rightParen (hr : Lexes false rest ws) :
    Lexes allowed (')' :: rest) (.ofSign .rightParen :: ws) :=
  word (Word.readBefore_single allowed rest rfl rfl rfl (by decide) rfl) hr

theorem leftBrace (hr : Lexes true rest ws) :
    Lexes allowed ('\x7b' :: rest) (.ofSign .leftBrace :: ws) :=
  word (Word.readBefore_single allowed rest rfl rfl rfl (by decide) rfl) hr

theorem rightBrace (hr : Lexes false rest ws) :
    Lexes allowed ('\x7d' :: rest) (.ofSign .rightBrace :: ws) :=
  word (Word.readBefore_single allowed rest rfl rfl rfl (by decide) rfl) hr

theorem operator (op : BinaryOp) (hr : Lexes true (' ' :: rest) ws) :
    Lexes allowed (op.symbol.toList ++ ' ' :: rest) (.ofSign (.operator op) :: ws) := by
  have hchars : (Word.ofSign (.operator op)).chars = op.symbol.toList := by cases op <;> rfl
  rw [← hchars]
  exact word (Word.readBefore_operator allowed rest op) hr

theorem assign (hr : Lexes true rest ws) :
    Lexes allowed (':' :: '=' :: rest) (.ofSign .assign :: ws) :=
  word (Word.readBefore_assign allowed rest) hr

theorem name {name : List Char} (hn : Word.isName name = true) (hne : name ≠ Word.returnWord)
    (he : EndsWord rest) (hr : Lexes false rest ws) :
    Lexes allowed (name ++ rest) (.ofName name :: ws) := by
  have hname := Word.readBefore_name allowed hn he
  rw [Word.ofName, if_neg hne] at hname ⊢
  exact word hname hr

theorem returnWord (he : EndsWord rest) (hr : Lexes true rest ws) :
    Lexes allowed (Word.returnWord ++ rest) (.ofName Word.returnWord :: ws) := by
  have hword := Word.readBefore_name allowed (show Word.isName Word.returnWord = true by decide) he
  rw [Word.ofName, if_pos rfl] at hword ⊢
  exact word hword hr

end Lexes

/-- The tokens of a text that is read as the given words have those words. -/
theorem tokenize_of_lexes {source : String} {ws : List Word} (h : Lexes true source.toList ws)
    (file : String) :
    ∃ ts place, tokenize source file = .ok (ts ++ [.endOfInput place]) ∧
      ts.map Token.word = ws ∧ ∀ t ∈ ts, t.Spelled := by
  obtain ⟨ts, stop, hl, ht⟩ := h file none .start rfl
  have hs := lexFrom_spelled file none .start source.toList
  rw [hl] at hs
  refine ⟨ts, some (stop.location file), ?_, ht, hs⟩
  simp only [tokenize, lex, hl]

end Dec
