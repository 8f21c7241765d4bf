import Dec.Proofs.Token.Separation

namespace Dec

/-- What may be put between words: blanks, and comments up to the line feeds that end them. -/
inductive Filler : List Char → Prop where
  | nil : Filler []
  | blank {c : Char} {gap : List Char} (hc : Text.isBlank c = true) (hg : Filler gap) :
      Filler (c :: gap)
  | comment {body gap : List Char} (hb : '\n' ∉ body) (hg : Filler gap) :
      Filler ('#' :: body ++ '\n' :: gap)

section Gaps

/-- A comment goes on to the first line feed. -/
theorem splitGap_comment {body : List Char} (hb : '\n' ∉ body) (cs : List Char) :
    splitGap true (body ++ '\n' :: cs) =
      (body ++ '\n' :: (splitGap false cs).1, (splitGap false cs).2) := by
  induction body with
  | nil => rfl
  | cons c body ih =>
    rw [List.mem_cons, not_or] at hb
    have hc : (c != '\n') = true := bne_iff_ne.mpr (Ne.symm hb.1)
    rw [List.cons_append, splitGap]
    simp only [Bool.true_or, if_true, hc, ih hb.2, List.cons_append]

/-- Where a comment may be open at the end of a gap, what comes next is a gap as well. -/
theorem splitGap_append_gap {cs gap : List Char} (hgap : ∀ open?, (splitGap open? gap).2 = [])
    {inComment : Bool} (h : (splitGap inComment cs).2 = []) :
    (splitGap inComment (cs ++ gap)).2 = [] := by
  induction cs generalizing inComment with
  | nil => exact hgap inComment
  | cons c cs ih =>
    rw [splitGap] at h
    rw [List.cons_append, splitGap]
    split at h
    · rename_i hskip
      rw [if_pos hskip]
      exact ih h
    · cases h

/-- A gap ends at a character that starts a word. -/
theorem startsWord_of_splitGap {inComment : Bool} {cs rest : List Char} {c : Char}
    (h : (splitGap inComment cs).2 = c :: rest) : startsWord c = true := by
  induction cs generalizing inComment with
  | nil => cases h
  | cons d cs ih =>
    rw [splitGap] at h
    split at h
    · exact ih h
    · rename_i hstop
      obtain ⟨rfl, -⟩ := List.cons.inj h
      simp only [Bool.or_eq_true, not_or, Bool.not_eq_true] at hstop
      rw [startsWord, hstop.2, bne, hstop.1.2]
      rfl

namespace Filler

variable {gap : List Char}

theorem spaces (h : Filler gap) : Spaces gap := by
  induction h with
  | nil => exact fun _ => rfl
  | @blank c gap hc hg ih =>
    have hblank : Spaces [c] := spaces_of_blanks (List.forall_mem_singleton.mpr hc)
    intro cs
    have hc' := hblank (gap ++ cs)
    rw [ih cs] at hc'
    exact hc'
  | @comment body gap hb hg ih =>
    intro cs
    have hopen := splitGap_comment hb (gap ++ cs)
    rw [ih cs] at hopen
    rw [List.append_assoc, List.cons_append, List.cons_append, splitGap]
    simp [hopen]

/-- Nothing is left of a filler, in a comment or not. -/
theorem splitGap_eq_nil (h : Filler gap) (inComment : Bool) : (splitGap inComment gap).2 = [] := by
  induction h generalizing inComment with
  | nil => rfl
  | @blank c gap hc hg ih =>
    rw [splitGap, if_pos (by simp [hc])]
    exact ih _
  | @comment body gap hb hg ih =>
    -- the line feed ends the comment that was open as well as one that the number sign opens
    have hsign : (if inComment then '#' != '\n' else '#' == '#') = true := by cases inComment <;> rfl
    rw [List.cons_append, splitGap, if_pos (by simp), hsign]
    dsimp only
    rw [splitGap_comment hb]
    exact ih false

/-- A filler starts no word. -/
theorem head_eq_false (h : Filler gap) : ∀ d ∈ gap.head?, startsWord d = false := by
  intro d hd
  cases h with
  | nil => cases hd
  | blank hc hg =>
    obtain rfl := Option.some.inj hd
    rw [startsWord, hc]
    rfl
  | comment hb hg =>
    obtain rfl := Option.some.inj hd
    rfl

theorem goesOnLike (h : Filler gap) (rest : List Char) : GoesOnLike rest (gap ++ rest) := by
  intro d hd
  cases gap with
  | nil => exact Or.inl hd
  | cons c gap => exact Or.inr (h.head_eq_false d hd)

end Filler

/-- No comment is open where a word starts. -/
theorem Separates.filler {gap rest : List Char} (h : Separates gap rest) {c : Char} {later : List Char}
    (hrest : rest = c :: later) (hc : c ≠ '\n') : Filler gap := by
  induction h with
  | nil => exact .nil
  | blank hb hg ih => exact .blank hb (ih hrest)
  | @comment body gap rest hb hend hg ih =>
    have hgap := ih hrest
    -- what stands behind the comment is a line feed, which the filler after it starts with
    cases hgap with
    | nil => exact absurd (hend c (by rw [hrest]; rfl)) hc
    | @blank d gap hd hgap =>
      obtain rfl : d = '\n' := hend d rfl
      exact .comment hb hgap
    | comment hb' hgap' => exact absurd (hend '#' rfl) (by decide)

end Gaps

/-- A word that is read at the head of a text is read there before what follows it. -/
theorem Word.readBefore_of_scan {allowed : Bool} {c : Char} {rest : List Char} {w : Word}
    (hc : startsWord c = true) (hw : Word.scan allowed c rest = .ok w) :
    ∃ tail, rest.drop (w.chars.length - 1) = tail ∧ w.chars ++ tail = c :: rest ∧
      w.ReadBefore allowed tail := by
  obtain ⟨tail, htail⟩ : ∃ tail, rest.drop (w.chars.length - 1) = tail := ⟨_, rfl⟩
  have hsplit := Word.append_drop_of_scan hw
  rw [htail] at hsplit
  obtain ⟨d, cs, hchars⟩ := List.exists_cons_of_ne_nil (Word.scan_isPrefix hw).1
  have hrest := hsplit
  rw [hchars, List.cons_append] at hrest
  obtain ⟨rfl, rfl⟩ := List.cons.inj hrest
  exact ⟨tail, htail, hsplit, d, cs, hchars, hc, hw⟩

/-- A text that is read as some tokens: each stands where it says, counted from the offset of the
text on, and what is between them may be put there. -/
inductive LaidOut : Bool → Nat → List Char → List Token → Prop where
  | gap {allowed : Bool} {first : Nat} {cs : List Char} (hg : (splitGap false cs).2 = []) :
      LaidOut allowed first cs []
  | word {allowed : Bool} {first : Nat} {gap rest : List Char} {t : Token} {tokens : List Token}
      (hg : Filler gap) (ht : t.offset = first + gap.length) (hw : t.word.ReadBefore allowed rest)
      (hr : LaidOut t.kind.expectsOperand t.stop rest tokens) :
      LaidOut allowed first (gap ++ (t.word.chars ++ rest)) (t :: tokens)

theorem Cursor.offset_advance (here : Cursor) (cs : List Char) :
    (here.advance cs).offset = here.offset + cs.length := by
  induction cs generalizing here with
  | nil => rfl
  | cons c cs ih =>
    have hstep : (here.step c).offset = here.offset + 1 := by
      unfold step
      split <;> rfl
    change ((here.step c).advance cs).offset = _
    rw [ih, hstep, List.length_cons]
    omega

/-- Where no fault is found, a text is laid out as it is read. -/
theorem lexFrom_laidOut {file : String} {previous : Option TokenKind} {here : Cursor} {cs : List Char}
    (h : (lexFrom file previous here cs).error = none) :
    LaidOut (signAllowedAfter previous) here.offset cs (lexFrom file previous here cs).tokens := by
  induction previous, here, cs using lexFrom.induct file with
  | case1 previous here cs gap hg =>
    rw [lexFrom_end file hg]
    exact .gap hg
  | case2 previous here cs gap c rest hg fault hw =>
    rw [lexFrom_error file hg hw] at h
    cases h
  | case3 previous here cs gap start c rest hg w hw ih =>
    have hc : startsWord c = true := startsWord_of_splitGap hg
    -- a line feed is a blank, so none of them starts a word
    have hfiller : Filler gap.1 := by
      refine (hg ▸ (splitGap_separates cs).1 : Separates gap.1 (c :: rest)).filler rfl ?_
      rintro rfl
      cases hc
    obtain ⟨tail, htail, hsplit, hread⟩ := Word.readBefore_of_scan hc hw
    have hcs : cs = gap.1 ++ (w.chars ++ tail) := by
      rw [hsplit, ← hg, splitGap_append]
    have hfirst : start.offset = here.offset + gap.1.length := Cursor.offset_advance here gap.1
    have hstop : (start.advance w.chars).offset = start.offset + w.chars.length :=
      Cursor.offset_advance start w.chars
    rw [lexFrom_word file hg hw] at h ⊢
    rw [htail] at h ih ⊢
    have hlater := ih h
    -- the token stands behind the gap and stops where the rest of the text starts
    let t : Token := ⟨w.kind, .ofList w.chars, w.value, some (start.location file)⟩
    have hword : t.word = w := by rw [Token.word, String.toList_ofList]
    have hoffset : t.offset = start.offset := rfl
    have hend : t.stop = (start.advance w.chars).offset := by
      rw [hstop, Token.stop, hoffset, String.length_ofList]
    rw [← hend] at hlater
    rw [← hword] at hread
    have hlaid := LaidOut.word hfiller (hoffset.trans hfirst) hread hlater
    rw [hword, ← hcs] at hlaid
    exact hlaid

/-- A place in a text with some tokens, counted from the offset of the text on: at its start, at its end,
or directly in front of or behind one of the tokens. -/
def Cut (first : Nat) (tokens : List Token) (before after : List Char) : Prop :=
  before = [] ∨ after = [] ∨
    ∃ t ∈ tokens, first + before.length = t.offset ∨ first + before.length = t.stop

/-- A text that is all gap has no words. -/
theorem lexes_of_gap {allowed : Bool} {cs : List Char} (hg : (splitGap false cs).2 = []) :
    Lexes allowed cs [] := by
  intro file previous here _
  exact ⟨[], _, lexFrom_end file hg, rfl⟩

namespace LaidOut

variable {allowed : Bool} {first : Nat} {cs : List Char} {tokens : List Token}

/-- What is laid out is read as its words. -/
theorem lexes (h : LaidOut allowed first cs tokens) : Lexes allowed cs (tokens.map Token.word) := by
  induction h with
  | gap hg => exact lexes_of_gap hg
  | word hg ht hw hr ih => exact (Lexes.word hw ih).spaces hg.spaces

theorem first_le_offset (h : LaidOut allowed first cs tokens) : ∀ t ∈ tokens, first ≤ t.offset := by
  induction h with
  | gap hg => simp
  | @word allowed first gap rest t tokens hg ht hw hr ih =>
    intro u hu
    have hstop : t.stop = t.offset + t.lexeme.length := rfl
    rcases List.mem_cons.mp hu with rfl | hu
    · omega
    · have hle := ih u hu
      omega

/-- A place in a text that has a token behind its first gap: at the start of the text, in front of that
token, or at such a place in the text behind it. -/
theorem cut_cases {filler rest before after : List Char} {t : Token}
    (hoffset : t.offset = first + filler.length) (hr : LaidOut allowed t.stop rest tokens)
    (hcs : filler ++ (t.word.chars ++ rest) = before ++ after)
    (hcut : Cut first (t :: tokens) before after) :
    before = [] ∨ before = filler ∨ ∃ front, before = filler ++ (t.word.chars ++ front) ∧
      rest = front ++ after ∧ Cut t.stop tokens front after := by
  have hlength : t.word.chars.length = t.lexeme.length := String.length_toList
  have hstop : t.stop = t.offset + t.lexeme.length := rfl
  have hall := congrArg List.length hcs
  simp only [List.length_append] at hall
  by_cases hle : filler.length + t.word.chars.length ≤ before.length
  · have hprefix : filler ++ t.word.chars <+: before ++ after := by
      rw [← hcs, ← List.append_assoc]
      exact List.prefix_append _ _
    obtain ⟨front, rfl⟩ := List.prefix_of_prefix_length_le hprefix (List.prefix_append before after)
      (by rwa [List.length_append])
    rw [← List.append_assoc, List.append_assoc (filler ++ t.word.chars)] at hcs
    refine Or.inr (Or.inr ⟨front, List.append_assoc _ _ _, List.append_cancel_left hcs, ?_⟩)
    simp only [Cut, List.length_append] at hcut
    rcases hcut with hnil | hnil | ⟨u, hu, hplace⟩
    · exact Or.inl (List.append_eq_nil_iff.mp hnil).2
    · exact Or.inr (Or.inl hnil)
    · rcases List.mem_cons.mp hu with rfl | hu
      -- behind the token itself the text behind it starts
      · exact Or.inl (List.eq_nil_of_length_eq_zero (by omega))
      · exact Or.inr (Or.inr ⟨u, hu, by omega⟩)
  · rcases hcut with hnil | rfl | ⟨u, hu, hplace⟩
    · exact Or.inl hnil
    · rw [List.length_nil] at hall
      omega
    · rcases List.mem_cons.mp hu with rfl | hu
      · exact Or.inr (Or.inl (List.append_inj_left hcs (by omega)).symm)
      -- all other tokens stand further behind
      · have hfirst := hr.first_le_offset u hu
        have hustop : u.stop = u.offset + u.lexeme.length := rfl
        omega

/-- A filler may stand in front of a text, behind it, and on either side of each of its tokens. -/
theorem lexes_insert (h : LaidOut allowed first cs tokens) {before gap after : List Char}
    (hcs : cs = before ++ after) (hg : Filler gap) (hcut : Cut first tokens before after) :
    Lexes allowed (before ++ (gap ++ after)) (tokens.map Token.word) := by
  induction h generalizing before with
  | @gap allowed first cs hskip =>
    rcases hcut with rfl | rfl | ⟨t, ht, -⟩
    · rw [List.nil_append] at hcs ⊢
      rw [← hcs]
      exact (lexes_of_gap hskip).spaces hg.spaces
    · rw [List.append_nil] at hcs ⊢
      rw [hcs] at hskip
      exact lexes_of_gap (splitGap_append_gap hg.splitGap_eq_nil hskip)
    · cases ht
  | @word allowed first filler rest t tokens hfiller hoffset hread hr ih =>
    rcases cut_cases hoffset hr hcs hcut with rfl | rfl | ⟨front, rfl, rfl, hlater⟩
    · rw [List.nil_append] at hcs ⊢
      rw [← hcs]
      exact (LaidOut.word hfiller hoffset hread hr).lexes.spaces hg.spaces
    · obtain rfl := List.append_cancel_left hcs
      exact ((Lexes.word hread hr.lexes).spaces hg.spaces).spaces hfiller.spaces
    -- behind the token nothing changes, or a filler begins, which separates as well
    · have hread' : t.word.ReadBefore allowed (front ++ (gap ++ after)) :=
        hread.goesOnLike (.of_append fun _ => hg.goesOnLike after)
      rw [List.append_assoc, List.append_assoc]
      exact (Lexes.word hread' (ih rfl hlater)).spaces hfiller.spaces

/-- The tokens of a text may be set anew, with any fillers behind them; only the last one needs none. -/
theorem lexes_join (h : LaidOut allowed first cs tokens) {gaps : List (List Char)}
    (hlength : gaps.length = tokens.length) (hg : ∀ g ∈ gaps, Filler g)
    (hne : ∀ g ∈ gaps.dropLast, g ≠ []) :
    Lexes allowed (List.zipWith (fun t g => t.lexeme.toList ++ g) tokens gaps).flatten
      (tokens.map Token.word) := by
  induction h generalizing gaps with
  | gap hskip => exact .nil _
  | @word allowed first filler rest t tokens hfiller hoffset hread hr ih =>
    obtain ⟨g, gaps, rfl⟩ := List.exists_cons_of_length_eq_add_one hlength
    rw [List.length_cons, List.length_cons, Nat.add_right_cancel_iff] at hlength
    rw [List.forall_mem_cons] at hg
    have hlater := ih hlength hg.2 fun g' hg' => by
      cases gaps with
      | nil => cases hg'
      | cons g'' gaps => exact hne g' (List.mem_cons_of_mem _ hg')
    rw [List.zipWith_cons_cons, List.flatten_cons, List.append_assoc]
    -- behind the word stands a filler, or nothing at all
    refine Lexes.word (hread.goesOnLike fun d hd => Or.inr ?_) (hlater.spaces hg.1.spaces)
    cases g with
    | cons c g => exact hg.1.head_eq_false d hd
    | nil =>
      cases gaps with
      | nil =>
        rw [List.zipWith_nil_right] at hd
        cases hd
      | cons g' gaps => exact absurd rfl (hne [] List.mem_cons_self)

end LaidOut

def SameWords (tokens : List Token) (text : List Char) : Prop :=
  ∀ file, ∃ tokens', tokenize (.ofList text) file = .ok tokens' ∧
    tokens'.map Token.word = tokens.map Token.word

/-- Layout does not matter. Whatever text is read as tokens, it is read as the same words with a filler
at its start, at its end, or directly before or behind any of its tokens, and so are its words when
they are set anew with some filler between any two of them. -/
theorem tokenize_layout {source file : String} {tokens : List Token}
    (h : tokenize source file = .ok tokens) :
    (∀ before gap after, source.toList = before ++ after → Filler gap →
      Cut 0 tokens before after → SameWords tokens (before ++ (gap ++ after))) ∧
    ∀ gaps : List (List Char), gaps.length + 1 = tokens.length → (∀ g ∈ gaps, Filler g) →
      (∀ g ∈ gaps.dropLast, g ≠ []) →
      SameWords tokens (List.zipWith (fun t g => t.lexeme.toList ++ g) tokens gaps).flatten := by
  have hchart := tokenize_charts source file
  rw [h] at hchart
  obtain ⟨words, rfl, -⟩ := hchart
  have hread : (lex source file).error = none ∧ (lex source file).tokens = words := by
    simp only [tokenize] at h
    split at h
    · cases h
    · rename_i hnone
      exact ⟨hnone, List.append_inj_left' (Except.ok.inj h) rfl⟩
  have hlaid : LaidOut true 0 source.toList words := by
    rw [← hread.2]
    exact lexFrom_laidOut hread.1
  -- the end of the input comes by itself
  have hsame (text : List Char) (htext : Lexes true text (words.map Token.word)) :
      SameWords (words ++ [.endOfInput (some (.after file source.toList))]) text := by
    intro file'
    rw [← String.toList_ofList (l := text)] at htext
    obtain ⟨tokens', place, htokens, hwords, -⟩ := tokenize_of_lexes htext file'
    refine ⟨_, htokens, ?_⟩
    rw [List.map_append, List.map_append, hwords]
    rfl
  constructor
  · intro before gap after hsource hg hcut
    apply hsame
    apply hlaid.lexes_insert hsource hg
    rcases hcut with hnil | hnil | ⟨t, ht, hplace⟩
    · exact Or.inl hnil
    · exact Or.inr (Or.inl hnil)
    · rcases List.mem_append.mp ht with ht | ht
      · exact Or.inr (Or.inr ⟨t, ht, hplace⟩)
      -- the end of the input is the end of the text
      · obtain rfl := List.mem_singleton.mp ht
        have hall : 0 + before.length = source.toList.length := hplace.elim id id
        rw [hsource, List.length_append] at hall
        exact Or.inr (Or.inl (List.eq_nil_of_length_eq_zero (by omega)))
  · intro gaps hlength hg hne
    apply hsame
    have hcount : gaps.length = words.length := by simpa using hlength
    have hjoin : List.zipWith (fun t g => t.lexeme.toList ++ g)
        (words ++ [.endOfInput (some (.after file source.toList))]) gaps =
        List.zipWith (fun t g => t.lexeme.toList ++ g) words gaps := by
      conv => lhs; rw [← List.append_nil gaps]
      rw [List.zipWith_append hcount.symm, List.zipWith_nil_right, List.append_nil]
    rw [hjoin]
    exact hlaid.lexes_join hcount hg hne

theorem tokenize_layout_minus :
    ∃ tokens, tokenize "a-5" "f.dec" = .ok tokens ∧ SameWords tokens "a-#\n5".toList ∧
      SameWords tokens "a - 5".toList := by
  have h : tokenize "a-5" "f.dec" = .ok
      [⟨.identifier, "a", some (.text "a"), some ⟨"f.dec", 1, 1, 0⟩⟩,
        ⟨.operator .minus, "-", none, some ⟨"f.dec", 1, 2, 1⟩⟩,
        ⟨.integer, "5", some (.number (.int 5)), some ⟨"f.dec", 1, 3, 2⟩⟩,
        .endOfInput (some ⟨"f.dec", 1, 4, 3⟩)] := by decide +kernel
  have hblank : Filler [' '] := .blank rfl .nil
  refine ⟨_, h, ?_, ?_⟩
  · exact (tokenize_layout h).1 ['a', '-'] ['#', '\n'] ['5'] rfl (.comment List.not_mem_nil .nil)
      (Or.inr (Or.inr ⟨⟨.integer, "5", some (.number (.int 5)), some ⟨"f.dec", 1, 3, 2⟩⟩, by simp,
        Or.inl rfl⟩))
  · exact (tokenize_layout h).2 [[' '], [' '], []] rfl (by simp [hblank, Filler.nil]) (by simp)

end Dec
