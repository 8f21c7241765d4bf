import Dec.Proofs.Token.Layout

namespace Dec

def operatorRun (source : String) (offset : Nat) : List Char :=
  (source.toList.drop offset).takeWhile Word.isOperatorChar

def NoLongSign (cs : List Char) : Prop :=
  ∀ pair, pair.length = 2 → pair <+: cs → TokenKind.ofSign? (.ofList pair) = none

theorem noLongSign_of_take {cs : List Char} (h : TokenKind.ofSign? (.ofList (cs.take 2)) = none) :
    NoLongSign cs := by
  intro pair hlength hpair
  rw [List.prefix_iff_eq_take, hlength] at hpair
  rwa [hpair]

namespace Word

variable {allowed : Bool} {c : Char} {rest : List Char}

/-- Neither a numeral nor a name starts with an operator character, unless it is a minus. -/
theorem scan_of_isOperatorChar (hc : isOperatorChar c = true) (hminus : c ≠ '-') :
    scan allowed c rest =
      match sign? (c :: rest) with
      | some word => .ok word
      | none => .ok ⟨.unknown, (c :: rest).takeWhile isOperatorChar, none⟩ := by
  -- none of the few operator characters is a digit or starts a name
  have hall : operatorChars.all (fun d => !d.isDigit && !isNameStart d) = true := rfl
  have hother := List.all_eq_true.mp hall c (List.contains_iff_mem.mp hc)
  rw [Bool.and_eq_true, Bool.not_eq_true', Bool.not_eq_true'] at hother
  obtain ⟨hdigit, hname⟩ := hother
  have hsign : (c == '-') = false := beq_false_of_ne hminus
  have hnumeral : startsNumeral allowed c rest = false := by
    rw [startsNumeral, hdigit, hsign]
    rfl
  rw [scan, hnumeral, hname, hc]
  rfl

/-- The second character of a sign is an operator character. -/
theorem isOperatorChar_of_ofSign?_pair {d : Char} {kind : TokenKind}
    (h : TokenKind.ofSign? (.ofList [c, d]) = some kind) : isOperatorChar d = true := by
  have hlong : ∀ p ∈ TokenKind.signs, p.1.toList.length = 2 →
      p.1.toList.all isOperatorChar = true := by decide
  have hall := hlong _ (TokenKind.mem_signs_of_ofSign? h) (by simp)
  rw [String.toList_ofList] at hall
  exact List.all_eq_true.mp hall d (by simp)

/-- A run of operator characters without a long sign at its head is read as its first character,
where that is a sign, or as a whole. -/
theorem scan_run (hc : isOperatorChar c = true) (hminus : c ≠ '-')
    (hlong : NoLongSign ((c :: rest).takeWhile isOperatorChar)) :
    scan allowed c rest = .ok
      (match TokenKind.ofSign? (.singleton c) with
      | some kind => ⟨kind, [c], none⟩
      | none => ⟨.unknown, (c :: rest).takeWhile isOperatorChar, none⟩) := by
  have hpairs : ∀ d ∈ rest.head?, TokenKind.ofSign? (.ofList [c, d]) = none := by
    intro d hd
    obtain ⟨later, rfl⟩ := List.head?_eq_some_iff.mp hd
    rw [Option.eq_none_iff_forall_ne_some]
    intro kind hkind
    -- both characters of the sign would belong to the run
    have hd := isOperatorChar_of_ofSign?_pair hkind
    rw [List.takeWhile_cons_of_pos hc, List.takeWhile_cons_of_pos hd] at hlong
    have hnone := hlong [c, d] rfl (List.prefix_append [c, d] _)
    rw [hkind] at hnone
    cases hnone
  rw [scan_of_isOperatorChar hc hminus, sign?_eq_of_pairs hpairs]
  cases TokenKind.ofSign? (.singleton c) <;> rfl

end Word

/-- Each token of a text that is laid out is read where it stands. -/
theorem LaidOut.scan_of_mem {allowed : Bool} {first : Nat} {cs : List Char} {tokens : List Token}
    (h : LaidOut allowed first cs tokens) {t : Token} (ht : t ∈ tokens) :
    ∃ allowed c rest, cs.drop (t.offset - first) = c :: rest ∧
      Word.scan allowed c rest = .ok t.word := by
  induction h with
  | gap hg => cases ht
  | @word allowed first gap rest u tokens hg hu hw hr ih =>
    rcases List.mem_cons.mp ht with rfl | ht
    · obtain ⟨c, cs, hchars, -, hscan⟩ := hw
      refine ⟨allowed, c, cs ++ rest, ?_, hscan⟩
      rw [hu, Nat.add_sub_cancel_left, List.drop_left, hchars, List.cons_append]
    · obtain ⟨allowed', c, later, hdrop, hscan⟩ := ih ht
      refine ⟨allowed', c, later, ?_, hscan⟩
      -- the text behind the first token starts where that one stops
      have hle := hr.first_le_offset t ht
      have hlength : u.word.chars.length = u.lexeme.length := String.length_toList
      have hstop : u.stop = u.offset + u.lexeme.length := rfl
      have hsum : t.offset - first = (gap ++ u.word.chars).length + (t.offset - u.stop) := by
        rw [List.length_append]
        omega
      rw [← List.append_assoc, hsum, List.drop_length_add_append, hdrop]

section Tokens

variable {source file : String} {tokens : List Token}

/-- A token of a text other than the end of the input is read where it stands. -/
theorem scan_of_tokenize (h : tokenize source file = .ok tokens) {t : Token} (ht : t ∈ tokens)
    (hend : t.isEnd = false) :
    ∃ allowed c rest, source.toList.drop t.offset = c :: rest ∧
      Word.scan allowed c rest = .ok t.word := by
  simp only [tokenize] at h
  split at h
  · cases h
  · rename_i hok
    have hlaid : LaidOut true 0 source.toList (lex source file).tokens := lexFrom_laidOut hok
    obtain rfl := Except.ok.inj h
    rcases List.mem_append.mp ht with ht | ht
    · exact hlaid.scan_of_mem ht
    · obtain rfl := List.mem_singleton.mp ht
      cases hend

/-- Nothing stands behind the end of the input. -/
theorem isEnd_eq_false_of_drop (h : tokenize source file = .ok tokens) {t : Token} (ht : t ∈ tokens)
    (hmore : source.toList.drop t.offset ≠ []) : t.isEnd = false := by
  have hcharts := tokenize_charts source file
  rw [h] at hcharts
  obtain ⟨words, rfl, hchart⟩ := hcharts
  rcases List.mem_append.mp ht with ht | ht
  · exact (hchart.piece t ht).1
  · obtain rfl := List.mem_singleton.mp ht
    exact absurd List.drop_length hmore

/-- How a run of operator characters at the start of a token is read, if it starts neither with a
minus nor with a sign of two characters. It is kept whole, as an unknown token, just where its first
character is no sign by itself; where it is one, that character alone is the token. -/
theorem tokenize_operatorRun (h : tokenize source file = .ok tokens) {t : Token} (ht : t ∈ tokens)
    {c : Char} {more : List Char} (hrun : operatorRun source t.offset = c :: more)
    (hminus : c ≠ '-') (hlong : NoLongSign (c :: more)) :
    (t.kind = .unknown ∧ t.lexeme = .ofList (c :: more) ↔
      TokenKind.ofSign? (.singleton c) = none) ∧
    ∀ kind, TokenKind.ofSign? (.singleton c) = some kind →
      t.kind = kind ∧ t.lexeme = .singleton c := by
  have hmore : source.toList.drop t.offset ≠ [] := by
    intro hnil
    rw [operatorRun, hnil] at hrun
    cases hrun
  obtain ⟨allowed, d, rest, hdrop, hscan⟩ :=
    scan_of_tokenize h ht (isEnd_eq_false_of_drop h ht hmore)
  rw [operatorRun, hdrop] at hrun
  -- the character that the token is read from is the first one of the run
  obtain ⟨hd, rfl⟩ : Word.isOperatorChar d = true ∧ d = c := by
    rw [List.takeWhile_cons] at hrun
    split at hrun
    · exact ⟨‹_›, (List.cons.inj hrun).1⟩
    · cases hrun
  rw [Word.scan_run hd hminus (by rwa [hrun]), hrun] at hscan
  have hword := Except.ok.inj hscan
  have hkind : t.kind = t.word.kind := rfl
  have hlexeme : t.lexeme = .ofList t.word.chars := String.ofList_toList.symm
  cases hsign : TokenKind.ofSign? (.singleton d) with
  | none =>
    rw [hsign] at hword
    rw [hkind, hlexeme, ← hword]
    exact ⟨iff_of_true ⟨rfl, rfl⟩ rfl, fun kind hk => by cases hk⟩
  | some kind =>
    rw [hsign] at hword
    rw [hkind, hlexeme, ← hword]
    have hknown : ∀ p ∈ TokenKind.signs, p.2 ≠ .unknown := by decide
    have hne : kind ≠ .unknown := hknown _ (TokenKind.mem_signs_of_ofSign? hsign)
    refine ⟨iff_of_false (fun hu => hne hu.1) (by simp), fun kind' hk => ?_⟩
    obtain rfl := Option.some.inj hk
    exact ⟨rfl, String.singleton_eq_ofList.symm⟩

/-- A run that a smaller sign starts is kept whole, with the star at its end. -/
theorem tokenize_operatorRun_arrow :
    ∃ tokens t, tokenize "<=>*1" "f" = .ok tokens ∧ t ∈ tokens ∧
      operatorRun "<=>*1" t.offset = '<' :: ['=', '>', '*'] ∧ NoLongSign ('<' :: ['=', '>', '*']) ∧
      t.kind = .unknown ∧ t.lexeme = "<=>*" := by
  let run : Token := ⟨.unknown, "<=>*", none, some ⟨"f", 1, 1, 0⟩⟩
  let number : Token := ⟨.integer, "1", some (.number (.int 1)), some ⟨"f", 1, 5, 4⟩⟩
  have htokens : tokenize "<=>*1" "f" =
      .ok [run, number, .endOfInput (some ⟨"f", 1, 6, 5⟩)] := by decide +kernel
  have hrun : operatorRun "<=>*1" run.offset = '<' :: ['=', '>', '*'] := by decide +kernel
  have hlong : NoLongSign ('<' :: ['=', '>', '*']) := noLongSign_of_take rfl
  have hkept := (tokenize_operatorRun htokens List.mem_cons_self hrun (by decide) hlong).1.mpr rfl
  exact ⟨_, run, htokens, List.mem_cons_self, hrun, hlong, hkept⟩

/-- Two stars are no sign of the language, and yet they are read one by one. -/
theorem tokenize_operatorRun_stars :
    ∃ tokens t, tokenize "**" "f" = .ok tokens ∧ t ∈ tokens ∧ t.offset = 0 ∧
      operatorRun "**" t.offset = ['*', '*'] ∧ NoLongSign ['*', '*'] ∧
      TokenKind.ofSign? (.ofList ['*', '*']) = none ∧
      t.kind = .operator .times ∧ t.lexeme = "*" := by
  let star (column offset : Int) : Token :=
    ⟨.operator .times, "*", none, some ⟨"f", 1, column, offset⟩⟩
  have htokens : tokenize "**" "f" =
      .ok [star 1 0, star 2 1, .endOfInput (some ⟨"f", 1, 3, 2⟩)] := by decide +kernel
  have hlong : NoLongSign ['*', '*'] := noLongSign_of_take rfl
  exact ⟨_, star 1 0, htokens, List.mem_cons_self, rfl, by decide +kernel, hlong, rfl, rfl, rfl⟩

end Tokens

end Dec
