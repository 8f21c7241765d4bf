import Dec.Proofs.Grammar.Making
import Dec.Proofs.Token.Lexing

/-!
The signs of literals. A minus before a digit can be read as the sign of a literal or as an operator,
and a text has as many readings as there are choices. In a program literals stand just where an operand
is expected and operators just where none is, so at most one reading is a program, and it is the one
that looks at the token before the minus.
-/
namespace Dec

/-- The ways of reading a text that continues at position `here`: at each word it is free whether a
minus before a digit is a sign. -/
inductive MayRead (file : String) : Cursor → List Char → List Token → Prop
  | nil {here : Cursor} {cs : List Char} (hg : (splitGap false cs).2 = []) : MayRead file here cs []
  | word {here : Cursor} {cs : List Char} {c : Char} {rest : List Char} {w : Word}
      {later : List Token} (signed : Bool) (hg : (splitGap false cs).2 = c :: rest)
      (hw : Word.scan signed c rest = .ok w)
      (hl : MayRead file ((here.advance (splitGap false cs).1).advance w.chars)
        (rest.drop (w.chars.length - 1)) later) :
      MayRead file here cs
        (⟨w.kind, .ofList w.chars, w.value,
          some ((here.advance (splitGap false cs).1).location file)⟩ :: later)

/-- The reading that looks at the token before each minus is one of the ways, if it finds no fault. -/
theorem mayRead_lexFrom (file : String) (previous : Option TokenKind) (here : Cursor)
    (cs : List Char) :
    (lexFrom file previous here cs).error = none →
      MayRead file here cs (lexFrom file previous here cs).tokens := by
  induction previous, here, cs using lexFrom.induct file with
  | case1 previous here cs gap hg =>
    rw [lexFrom_end file hg]
    exact fun _ => .nil hg
  | case2 previous here cs gap c rest hg fault hw =>
    rw [lexFrom_error file hg hw]
    intro h
    cases h
  | case3 previous here cs gap start c rest hg w hw ih =>
    rw [lexFrom_word file hg hw]
    exact fun h => .word _ hg hw (ih h)

example : ∃ ts, MayRead "f" .start "1 -2".toList ts ∧ ts.map Token.kind = [.integer, .integer] :=
  ⟨_, .word true rfl rfl (.word true rfl rfl (.nil rfl)), rfl⟩

example : ∃ ts, MayRead "f" .start "1 -2".toList ts ∧
    ts.map Token.kind = [.integer, .operator .minus, .integer] :=
  ⟨_, .word true rfl rfl (.word false rfl rfl (.word true rfl rfl (.nil rfl))), rfl⟩

/-- Along these tokens, literals stand where an operand is expected and operators where none is; the
flag says whether one is expected at first. -/
def SignsFit : Bool → List Token → Prop
  | _, [] => True
  | expected, t :: rest =>
    (t.kind.isLiteral = true → expected = true) ∧ (t.kind.isBinary = true → expected = false) ∧
      SignsFit t.kind.expectsOperand rest

namespace TokenKind

theorem of_isLiteral {kind : TokenKind} (h : kind.isLiteral = true) :
    kind.isBinary = false ∧ kind.expectsOperand = false := by
  cases kind <;> first | exact ⟨rfl, rfl⟩ | cases h

theorem of_isBinary {kind : TokenKind} (h : kind.isBinary = true) :
    kind.isLiteral = false ∧ kind.expectsOperand = true := by
  cases kind <;> first | exact ⟨rfl, rfl⟩ | cases h

end TokenKind

section Scan

namespace Word

theorem ofNumeral_isLiteral {n : Numeral} {rest : List Char} {w : Word}
    (h : ofNumeral n rest = .ok w) : w.kind.isLiteral = true := by
  unfold ofNumeral at h
  split at h
  · cases h
  · split at h
    · cases h
    · split at h
      · obtain rfl := Except.ok.inj h
        cases n.isFloat <;> rfl
      · cases h

theorem scan_congr {signed signed' : Bool} {c : Char} {rest : List Char}
    (h : startsNumeral signed c rest = startsNumeral signed' c rest) :
    scan signed c rest = scan signed' c rest := by
  rw [scan, scan, h]

/-- A minus that is no sign is an operator. -/
theorem scan_minus (rest : List Char) :
    scan false '-' rest = .ok ⟨.operator .minus, ['-'], none⟩ := by
  have hread : ReadBefore false rest ⟨.operator .minus, ['-'], none⟩ :=
    readBefore_single false rest (by decide) rfl (by decide) (by decide) (by decide)
  obtain ⟨c, cs, hc, -, hscan⟩ := hread
  cases hc
  exact hscan

/-- Where a word that is read one way fits, the other way of reading its minus gives the same word. -/
theorem scan_of_fits {signed expected : Bool} {c : Char} {rest : List Char} {w : Word}
    (h : scan signed c rest = .ok w) (hl : w.kind.isLiteral = true → expected = true)
    (hb : w.kind.isBinary = true → expected = false) : scan expected c rest = .ok w := by
  by_cases hs : startsNumeral signed c rest = startsNumeral expected c rest
  · rw [← scan_congr hs, h]
  -- otherwise the word is a minus before a digit that is read against what is expected
  · exfalso
    obtain ⟨hdigit, hminus⟩ : c.isDigit = false ∧ c = '-' := by
      rw [startsNumeral, startsNumeral] at hs
      cases hd : c.isDigit <;> cases hm : c == '-' <;> simp_all
    cases signed with
    -- read as a sign it is a literal, read as an operator it is binary; neither fits
    | true =>
      have hnumeral : startsNumeral true c rest = true := by
        cases expected <;> simp_all [startsNumeral]
      rw [scan, if_pos hnumeral] at h
      have he := hl (ofNumeral_isLiteral h)
      exact hs (by rw [he])
    | false =>
      rw [hminus, scan_minus] at h
      obtain rfl := Except.ok.inj h
      exact hs (by rw [hb rfl])

end Word

end Scan

/-- A reading whose signs fit is the one that looks at the token before each minus. -/
theorem lexFrom_of_mayRead {file : String} {here : Cursor} {cs : List Char} {ts : List Token}
    (h : MayRead file here cs ts) (previous : Option TokenKind)
    (hf : SignsFit (signAllowedAfter previous) ts) :
    ∃ stop, lexFrom file previous here cs = ⟨ts, none, stop⟩ := by
  -- on the readings: the rest is read after this word, whose kind says what is expected there
  induction h generalizing previous with
  | nil hg => exact ⟨_, lexFrom_end file hg⟩
  | word signed hg hw hl ih =>
    obtain ⟨hliteral, hbinary, hrest⟩ := hf
    obtain ⟨stop, hstop⟩ := ih (some _) hrest
    refine ⟨stop, ?_⟩
    rw [lexFrom_word file hg (Word.scan_of_fits hw hliteral hbinary)]
    simp only [hstop]

namespace Grammar

section Signs

variable {rest : List Token}

theorem Sign.signsFit {kind : TokenKind} (w : Sign kind) (hl : kind.isLiteral = false)
    (hb : kind.isBinary = false) (hr : SignsFit kind.expectsOperand rest) (expected : Bool) :
    SignsFit expected (w.token :: rest) := by
  rw [SignsFit, w.kind_eq, hl, hb]
  exact ⟨nofun, nofun, hr⟩

/-- Before an expression an operand is expected, and after it none is. -/
theorem Expression.signsFit (e : Expression) (hr : SignsFit false rest) :
    SignsFit true (e.tokens ++ rest) := by
  induction e generalizing rest with
  | literal w =>
    have hkind := TokenKind.of_isLiteral w.admitted
    refine ⟨fun _ => rfl, fun hb => absurd (hkind.1.symm.trans hb) (by simp), ?_⟩
    rw [hkind.2]
    exact hr
  | var w => exact w.signsFit rfl rfl hr true
  | group o e c ih =>
    rw [tokens, List.cons_append, List.append_assoc]
    exact o.signsFit rfl rfl (ih (c.signsFit rfl rfl hr false)) true
  | binary o l op r c ihl ihr =>
    have hkind := TokenKind.of_isBinary op.admitted
    have hright : SignsFit op.token.kind.expectsOperand (r.tokens ++ (c.token :: rest)) := by
      rw [hkind.2]
      exact ihr (c.signsFit rfl rfl hr false)
    have hoperator : SignsFit false (op.token :: (r.tokens ++ (c.token :: rest))) :=
      ⟨fun hl => absurd (hkind.1.symm.trans hl) (by simp), fun _ => rfl, hright⟩
    simp only [tokens, List.cons_append, List.append_assoc, List.nil_append]
    exact o.signsFit rfl rfl (ihl hoperator) true

namespace Statement

mutual

/-- A statement fits whatever comes before it, and after it no operand is expected. -/
theorem signsFit (s : Statement) {rest : List Token} (hr : SignsFit false rest) (expected : Bool) :
    SignsFit expected (s.tokens ++ rest) := by
  cases s with
  | assign n g e => exact n.signsFit rfl rfl (g.signsFit rfl rfl (e.signsFit hr) false) expected
  | ret w e => exact w.signsFit rfl rfl (e.signsFit hr) expected
  | block o body c =>
    rw [tokens, List.cons_append, List.append_assoc]
    exact o.signsFit rfl rfl
      (signsFit_allTokens body (fun expected => c.signsFit rfl rfl hr expected) true) expected

theorem signsFit_allTokens (ss : List Statement) {rest : List Token}
    (hr : ∀ expected, SignsFit expected rest) (expected : Bool) :
    SignsFit expected (allTokens ss ++ rest) := by
  cases ss with
  | nil => exact hr expected
  | cons s ss =>
    rw [allTokens, List.append_assoc]
    exact signsFit s (signsFit_allTokens ss hr false) expected

end

end Statement

theorem Derivation.signsFit (d : Derivation) : SignsFit true d.tokens := by
  have hnil : SignsFit false [] := trivial
  have h := d.statement.signsFit hnil true
  rwa [List.append_nil] at h

end Signs

/-- A reading of a text that is a program is the one with which the text is tokenized. -/
theorem tokenize_of_mayRead {source file : String} {d : Derivation}
    (h : MayRead file .start source.toList d.tokens) :
    ∃ place, tokenize source file = .ok (d.tokens ++ [.endOfInput place]) := by
  obtain ⟨stop, hstop⟩ := lexFrom_of_mayRead h none d.signsFit
  refine ⟨some (stop.location file), ?_⟩
  simp only [tokenize, lex, hstop]

theorem mayRead_of_tokenize {source file : String} {tokens : List Token}
    (h : tokenize source file = .ok tokens) :
    ∃ ts place, tokens = ts ++ [.endOfInput place] ∧ MayRead file .start source.toList ts ∧
      ∀ t ∈ ts, t.Spelled := by
  have hreads := mayRead_lexFrom file none .start source.toList
  simp only [tokenize, lex] at h
  split at h
  · cases h
  · rename_i hnone
    obtain rfl := Except.ok.inj h
    exact ⟨_, _, rfl, hreads hnone, lexFrom_spelled file none .start source.toList⟩

/-- The rule for signs misreads no program. Of all the ways of reading a text at most one is a program,
and then it is the one with which the text is tokenized; so the text is read to the tree that this
program means, unless it is nested too deeply. -/
theorem tokenize_is_only_program {source file : String} {tokens : List Token}
    (h : tokenize source file = .ok tokens) (limit : Nat) (f : Forest) :
    ∃ ts place, tokens = ts ++ [.endOfInput place] ∧ MayRead file .start source.toList ts ∧
      ∀ ts' (d : Derivation), MayRead file .start source.toList ts' → d.tokens = ts' →
        ts' = ts ∧
        (d.nesting ≤ limit →
          ∃ n, (Program.ofSource limit .making source file f).result = .ok (some n) ∧
            n.skeleton = d.skeleton) := by
  obtain ⟨ts, place, rfl, hreads, hspelled⟩ := mayRead_of_tokenize h
  refine ⟨ts, place, rfl, hreads, ?_⟩
  rintro ts' d hreads' rfl
  obtain ⟨place', h'⟩ := tokenize_of_mayRead hreads'
  obtain rfl : ts = d.tokens := (List.append_inj' (Except.ok.inj (h.symm.trans h')) rfl).1
  refine ⟨rfl, fun hn => ?_⟩
  have hbefore : d.tokens = (splitEnd (d.tokens ++ [Token.endOfInput place])).1 := by
    rw [splitEnd_of_spelled hspelled place]
  obtain ⟨n, hr, hk, -⟩ := ofTokens_making_of_derivation hbefore hspelled hn f
  refine ⟨n, ?_, hk⟩
  rw [Program.ofSource, h]
  exact hr

/-- A minus after a literal: it could be the sign of another one. -/
theorem tokenize_is_only_program_glued_minus :
    ∃ tokens n, tokenize "\x7breturn (1 -2)\x7d" "f" = .ok tokens ∧
      (Program.ofSource 2 .making "\x7breturn (1 -2)\x7d" "f" .empty).result = .ok (some n) ∧
      n.skeleton = .block [.ret (.binary .minus (.literal (.int 1)) (.literal (.int 2)))] := by
  let place (i : Int) : Option Location := some ⟨"f", 1, i + 1, i⟩
  let opened : Sign .leftBrace := ⟨⟨.leftBrace, "\x7b", none, place 0⟩, rfl⟩
  let word : Sign .returnWord := ⟨⟨.returnWord, "return", none, place 1⟩, rfl⟩
  let paren : Sign .leftParen := ⟨⟨.leftParen, "(", none, place 8⟩, rfl⟩
  let one : Terminal TokenKind.isLiteral :=
    ⟨⟨.integer, "1", some (.number (.int 1)), place 9⟩, rfl⟩
  let minus : Terminal TokenKind.isBinary := ⟨⟨.operator .minus, "-", none, place 11⟩, rfl⟩
  let two : Terminal TokenKind.isLiteral :=
    ⟨⟨.integer, "2", some (.number (.int 2)), place 12⟩, rfl⟩
  let closing : Sign .rightParen := ⟨⟨.rightParen, ")", none, place 13⟩, rfl⟩
  let closed : Sign .rightBrace := ⟨⟨.rightBrace, "\x7d", none, place 14⟩, rfl⟩
  let d : Derivation :=
    ⟨opened, [.ret word (.binary paren (.literal one) minus (.literal two) closing)], closed⟩
  have h : tokenize "\x7breturn (1 -2)\x7d" "f" = .ok (d.tokens ++ [.endOfInput (place 15)]) := by
    cbv
  obtain ⟨ts, place', htokens, hreads, honly⟩ := tokenize_is_only_program h 2 .empty
  obtain rfl : d.tokens = ts := (List.append_inj' htokens rfl).1
  obtain ⟨n, hr, hk⟩ := (honly d.tokens d hreads rfl).2 (by decide)
  exact ⟨_, n, h, hr, hk⟩

end Grammar

end Dec
