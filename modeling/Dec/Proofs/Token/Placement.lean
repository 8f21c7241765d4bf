import Mathlib.Data.List.DropRight
import Dec.Proofs.Token.Numeral
import Dec.Proofs.Token.Spelling

namespace Dec

def Location.after (file : String) (before : List Char) : Location where
  file := file
  line := 1 + before.count '\n'
  column := 1 + (before.rtakeWhile (· != '\n')).length
  offset := before.length

/-- Text that only separates: blanks, and comments that run up to a line feed or the end of all
text. The second text is what follows. -/
inductive Separates : List Char → List Char → Prop where
  | nil {rest : List Char} : Separates [] rest
  | blank {c : Char} {gap rest : List Char} (hc : Text.isBlank c = true) (hg : Separates gap rest) :
      Separates (c :: gap) rest
  | comment {body gap rest : List Char} (hb : '\n' ∉ body)
      (hend : ∀ c ∈ (gap ++ rest).head?, c = '\n') (hg : Separates gap rest) :
      Separates ('#' :: body ++ gap) rest

namespace Token

def offset (t : Token) : Nat := t.location.elim 0 fun place => place.offset.toNat

def stop (t : Token) : Nat := t.offset + t.lexeme.length

end Token

/-- Tokens as they stand in a text between two offsets. -/
structure Chart (file : String) (text : List Char) (first : Nat) (tokens : List Token) (last : Nat) :
    Prop where
  /-- No token ends the input, and each is a piece of the text that is not empty. -/
  piece : ∀ t ∈ tokens, t.isEnd = false ∧ t.lexeme ≠ "" ∧
    t.lexeme.toList = text.extract t.offset t.stop
  /-- Each token is in the line and in the column that it says. -/
  place : ∀ t ∈ tokens, t.location = some (.after file (text.take t.offset))
  /-- A token ends before the next one starts. -/
  order : tokens.Pairwise fun t u => t.offset < u.offset ∧ t.stop ≤ u.offset
  /-- What stands before, between and behind the tokens only separates. -/
  gap : ∀ p ∈ (first :: tokens.map Token.stop).zip (tokens.map Token.offset ++ [last]),
    p.1 ≤ p.2 ∧ Separates (text.extract p.1 p.2) (text.drop p.2)

/-- Counting along a text gives the place behind it. -/
theorem Cursor.location_advance (file : String) (cs : List Char) :
    (Cursor.start.advance cs).location file = .after file cs := by
  have hcursor : Cursor.start.advance cs =
      ⟨cs.length, 1 + cs.count '\n', 1 + (cs.rtakeWhile (· != '\n')).length⟩ := by
    induction cs using List.reverseRecOn with
    | nil => rfl
    | append_singleton cs c ih =>
      rw [advance] at ih ⊢
      rw [List.foldl_append, ih, List.foldl_cons, List.foldl_nil, step]
      by_cases hc : c = '\n'
      · simp [hc, Nat.add_assoc]
      · simp [hc, List.rtakeWhile_concat_pos, Nat.add_assoc]
  rw [hcursor]
  simp [location, Location.after]

section Gaps

/-- What is split off a text only separates; where a comment is open, its end comes first. -/
theorem splitGap_separates (cs : List Char) :
    Separates (splitGap false cs).1 (splitGap false cs).2 ∧
      ∃ body gap, (splitGap true cs).1 = body ++ gap ∧ '\n' ∉ body ∧
        (∀ c ∈ (gap ++ (splitGap true cs).2).head?, c = '\n') ∧
        Separates gap (splitGap true cs).2 := by
  induction cs with
  | nil => exact ⟨.nil, [], [], rfl, by simp, by simp [splitGap], .nil⟩
  | cons c cs ih =>
    obtain ⟨hgap, body, gap, hbody, hline, hend, hrest⟩ := ih
    constructor
    · rw [splitGap]
      by_cases hopen : c = '#'
      · have hsign : (c == '#') = true := beq_iff_eq.mpr hopen
        simp only [hsign, hbody, Bool.false_or, Bool.true_or, if_true, Bool.false_eq_true, if_false]
        rw [hopen]
        exact .comment hline hend hrest
      · have hsign : (c == '#') = false := beq_false_of_ne hopen
        simp only [hsign, Bool.false_or, Bool.false_eq_true, if_false]
        split
        · rename_i hblank
          exact .blank hblank hgap
        · exact .nil
    · rw [splitGap]
      simp only [Bool.true_or, if_true]
      by_cases hfeed : c = '\n'
      -- the line feed is the blank behind the comment
      · have hline' : (c != '\n') = false := by rw [hfeed]; rfl
        have hblank : Text.isBlank c = true := by rw [hfeed]; rfl
        rw [hline']
        refine ⟨[], c :: (splitGap false cs).1, rfl, List.not_mem_nil, ?_, .blank hblank hgap⟩
        intro d hd
        obtain rfl : c = d := Option.some.inj hd
        exact hfeed
      · have hline' : (c != '\n') = true := bne_iff_ne.mpr hfeed
        rw [hline']
        refine ⟨c :: body, gap, congrArg (c :: ·) hbody, ?_, hend, hrest⟩
        rw [List.mem_cons, not_or]
        exact ⟨Ne.symm hfeed, hline⟩

end Gaps

section Words

/-- A numeral is scanned off the head of a text where one starts. -/
theorem Numeral.scan_isPrefix {allowed : Bool} {c : Char} {rest : List Char}
    (h : Word.startsNumeral allowed c rest = true) :
    (scan (c :: rest)).chars ≠ [] ∧ (scan (c :: rest)).chars <+: c :: rest := by
  obtain ⟨hwritten, tail, htail, -⟩ := scan_spec h
  refine ⟨?_, tail, htail.symm⟩
  rw [chars_eq]
  exact List.append_ne_nil_of_right_ne_nil _ (List.append_ne_nil_of_left_ne_nil hwritten.whole.1 _)

namespace Word

theorem ofNumeral_chars {n : Numeral} {rest : List Char} {w : Word} (h : ofNumeral n rest = .ok w) :
    w.chars = n.chars := by
  unfold ofNumeral at h
  split at h
  · cases h
  · split at h
    · cases h
    · split at h
      · rw [← Except.ok.inj h]
      · cases h

theorem ofName_chars (name : List Char) : (ofName name).chars = name := by
  unfold ofName
  split <;> rfl

theorem sign?_isPrefix {cs : List Char} {w : Word} (h : sign? cs = some w) :
    w.chars ≠ [] ∧ w.chars <+: cs := by
  have single {c : Char} {rest : List Char}
      (hc : (TokenKind.ofSign? (.singleton c)).map (fun kind => (⟨kind, [c], none⟩ : Word)) =
        some w) : w.chars ≠ [] ∧ w.chars <+: c :: rest := by
    obtain ⟨k, -, rfl⟩ := Option.map_eq_some_iff.mp hc
    exact ⟨by simp, List.cons_prefix_cons.mpr ⟨rfl, List.nil_prefix⟩⟩
  unfold sign? at h
  split at h
  · split at h
    · obtain rfl := Option.some.inj h
      exact ⟨by simp, List.prefix_append [_, _] _⟩
    · exact single h
  · exact single h
  · cases h

/-- A word is read off the head of a text and is not empty. -/
theorem scan_isPrefix {allowed : Bool} {c : Char} {rest : List Char} {w : Word}
    (h : scan allowed c rest = .ok w) : w.chars ≠ [] ∧ w.chars <+: c :: rest := by
  have run {p : Char → Bool} (hc : p c = true) :
      (c :: rest).takeWhile p ≠ [] ∧ (c :: rest).takeWhile p <+: c :: rest := by
    refine ⟨?_, List.takeWhile_prefix p⟩
    rw [List.takeWhile_cons, hc]
    simp
  unfold scan at h
  split at h
  · rename_i hstart
    have hchars : w.chars = (Numeral.scan (c :: rest)).chars := ofNumeral_chars h
    rw [hchars]
    exact Numeral.scan_isPrefix hstart
  · split at h
    · rename_i hname
      obtain rfl := Except.ok.inj h
      rw [ofName_chars]
      exact run (isNamePart_of_isNameStart hname)
    · split at h
      · rename_i hsign
        obtain rfl := Except.ok.inj h
        exact sign?_isPrefix hsign
      · split at h
        · rename_i hrun
          obtain rfl := Except.ok.inj h
          exact run hrun
        · cases h

/-- The rest of a text starts where the word at its head ends. -/
theorem append_drop_of_scan {allowed : Bool} {c : Char} {rest : List Char} {w : Word}
    (h : scan allowed c rest = .ok w) :
    w.chars ++ rest.drop (w.chars.length - 1) = c :: rest := by
  obtain ⟨hne, later, hlater⟩ := scan_isPrefix h
  obtain ⟨d, ds, hchars⟩ := List.exists_cons_of_ne_nil hne
  rw [hchars] at hlater ⊢
  obtain ⟨rfl, rfl⟩ := List.cons.inj hlater
  simp

end Word

end Words

namespace Chart

variable {file : String} {before gap chars rest : List Char} {t : Token} {tokens : List Token}
  {first last : Nat}

/-- Where the gaps are in order, no token stands before the first one. -/
theorem first_le_offset
    (hg : ∀ p ∈ (first :: tokens.map Token.stop).zip (tokens.map Token.offset ++ [last]), p.1 ≤ p.2) :
    ∀ t ∈ tokens, first ≤ t.offset := by
  induction tokens generalizing first with
  | nil => simp
  | cons u tokens ih =>
    have hu : first ≤ u.offset := hg (first, u.offset) List.mem_cons_self
    have hrest := ih fun p hp => hg p (List.mem_cons_of_mem _ hp)
    intro t ht
    rcases List.mem_cons.mp ht with rfl | ht
    · exact hu
    · have hstop : u.offset ≤ u.stop := Nat.le_add_right _ _
      have := hrest t ht
      omega

theorem extract_middle (before chars rest : List Char) :
    (before ++ chars ++ rest).extract before.length (before ++ chars).length = chars := by
  rw [List.extract_eq_take_drop, List.append_assoc, List.drop_left, List.length_append,
    Nat.add_sub_cancel_left, List.take_left]

/-- Behind the last token a gap is left. -/
theorem nil (hg : Separates gap rest) :
    Chart file (before ++ gap ++ rest) before.length [] (before ++ gap).length := by
  refine ⟨by simp, by simp, List.Pairwise.nil, ?_⟩
  intro p hp
  obtain rfl : p = (before.length, (before ++ gap).length) := List.mem_singleton.mp hp
  refine ⟨by simp, ?_⟩
  rwa [extract_middle, List.drop_left]

/-- A gap and a token in front of charted tokens. -/
theorem cons
    (h : Chart file (before ++ gap ++ chars ++ rest) (before ++ gap ++ chars).length tokens last)
    (hg : Separates gap (chars ++ rest)) (hne : chars ≠ []) (hend : t.isEnd = false)
    (hlexeme : t.lexeme.toList = chars) (hplace : t.location = some (.after file (before ++ gap))) :
    Chart file (before ++ gap ++ chars ++ rest) before.length (t :: tokens) last := by
  have hoffset : t.offset = (before ++ gap).length := by
    rw [Token.offset, hplace]
    rfl
  have hlength : t.lexeme.length = chars.length := by rw [← String.length_toList, hlexeme]
  have hsum : (before ++ gap ++ chars).length = (before ++ gap).length + chars.length :=
    List.length_append
  have hstop : t.stop = (before ++ gap ++ chars).length := by
    rw [Token.stop, hoffset, hlength, hsum]
  have hpos : 0 < chars.length := List.length_pos_iff.mpr hne
  constructor
  · intro u hu
    rcases List.mem_cons.mp hu with rfl | hu
    · refine ⟨hend, ?_, ?_⟩
      · rintro hempty
        rw [hempty] at hlexeme
        exact hne hlexeme.symm
      · rw [hlexeme, hoffset, hstop, extract_middle]
    · exact h.piece u hu
  · intro u hu
    rcases List.mem_cons.mp hu with rfl | hu
    · rw [hplace, hoffset, List.append_assoc (before ++ gap), List.take_left]
    · exact h.place u hu
  · refine List.pairwise_cons.mpr ⟨fun u hu => ?_, h.order⟩
    have hle := first_le_offset (fun p hp => (h.gap p hp).1) u hu
    rw [hstop, hoffset]
    omega
  · intro p hp
    rw [List.map_cons, List.map_cons, List.cons_append, List.zip_cons_cons] at hp
    rcases List.mem_cons.mp hp with rfl | hp
    · rw [hoffset]
      refine ⟨by simp, ?_⟩
      rwa [List.append_assoc (before ++ gap), extract_middle, List.drop_left]
    · rw [hstop] at hp
      exact h.gap p hp

end Chart

/-- A reading charts a text from an offset on: to its end, or to the place of the fault. -/
def Lexed.Charts (l : Lexed) (file : String) (text : List Char) (first : Nat) : Prop :=
  match l.error with
  | none => Chart file text first l.tokens text.length ∧ l.stop = Cursor.start.advance text
  | some e => ∃ stop < text.length,
      e.location = .after file (text.take stop) ∧ Chart file text first l.tokens stop

/-- A gap and a token in front of a charted reading. -/
theorem Lexed.Charts.cons {l : Lexed} {file : String} {before gap chars rest : List Char} {t : Token}
    (hg : Separates gap (chars ++ rest)) (hne : chars ≠ []) (hend : t.isEnd = false)
    (hlexeme : t.lexeme.toList = chars) (hplace : t.location = some (.after file (before ++ gap)))
    (h : l.Charts file (before ++ gap ++ chars ++ rest) (before ++ gap ++ chars).length) :
    { l with tokens := t :: l.tokens }.Charts file (before ++ gap ++ chars ++ rest) before.length := by
  rw [Charts] at h ⊢
  dsimp only
  cases hfault : l.error with
  | none =>
    rw [hfault] at h
    exact ⟨h.1.cons hg hne hend hlexeme hplace, h.2⟩
  | some e =>
    rw [hfault] at h
    obtain ⟨stop, hstop, hlocation, hchart⟩ := h
    exact ⟨stop, hstop, hlocation, hchart.cons hg hne hend hlexeme hplace⟩

/-- Reading on behind some characters charts what follows them. -/
theorem lexFrom_charts (file : String) (previous : Option TokenKind) (before cs : List Char) :
    (lexFrom file previous (Cursor.start.advance before) cs).Charts file (before ++ cs)
      before.length := by
  have hadvance (front back : List Char) :
      (Cursor.start.advance front).advance back = Cursor.start.advance (front ++ back) :=
    List.foldl_append.symm
  generalize hhere : Cursor.start.advance before = here
  -- the characters before grow by those that are read
  induction previous, here, cs using lexFrom.induct file generalizing before with
  | case1 previous here cs gap hg =>
    have hsplit := splitGap_append false cs
    rw [hg, List.append_nil] at hsplit
    have hsep : Separates gap.1 [] := hg ▸ (splitGap_separates cs).1
    have hchart : Chart file (before ++ gap.1 ++ []) before.length [] (before ++ gap.1).length :=
      .nil hsep
    rw [List.append_nil, hsplit] at hchart
    rw [lexFrom_end file hg, Lexed.Charts, hsplit]
    refine ⟨hchart, ?_⟩
    rw [← hhere, ← hadvance]
  | case2 previous here cs gap c rest hg fault hw =>
    have hsplit := splitGap_append false cs
    rw [hg] at hsplit
    have hsep : Separates gap.1 (c :: rest) := hg ▸ (splitGap_separates cs).1
    have hchart : Chart file (before ++ gap.1 ++ c :: rest) before.length []
        (before ++ gap.1).length := .nil hsep
    have htext : before ++ gap.1 ++ c :: rest = before ++ cs := by rw [List.append_assoc, hsplit]
    have hplace : (here.advance gap.1).location file = .after file (before ++ gap.1) := by
      rw [← hhere, hadvance, Cursor.location_advance]
    rw [lexFrom_error file hg hw, Lexed.Charts, ← htext]
    refine ⟨(before ++ gap.1).length, ?_, ?_, hchart⟩
    · simp
    · rw [List.take_left]
      exact hplace
  | case3 previous here cs gap start c rest hg w hw ih =>
    have hne : w.chars ≠ [] := (Word.scan_isPrefix hw).1
    have hrest := Word.append_drop_of_scan hw
    have htext : before ++ gap.1 ++ w.chars ++ rest.drop (w.chars.length - 1) = before ++ cs := by
      rw [List.append_assoc, hrest, ← hg, List.append_assoc, splitGap_append]
    have hsep : Separates gap.1 (w.chars ++ rest.drop (w.chars.length - 1)) := by
      rw [hrest, ← hg]
      exact (splitGap_separates cs).1
    have hstart : Cursor.start.advance (before ++ gap.1) = start := by
      rw [← hadvance, hhere]
    have hplace : some (start.location file) = some (.after file (before ++ gap.1)) := by
      rw [← hstart, Cursor.location_advance]
    have hend : w.kind ≠ .endOfInput := (Word.scan_spelled hw).notEnd
    have hlater := ih (before ++ gap.1 ++ w.chars) (by rw [← hadvance, hstart])
    rw [lexFrom_word file hg hw, ← htext]
    exact hlater.cons hsep hne (by simpa [Token.isEnd] using hend) String.toList_ofList hplace

/-- The tokens of a text are the pieces between its gaps, each where it says, and then the end of
the input behind the last character. Where the text has none, the tokens in front of the fault are
such pieces, and only a gap is left between them and the place of the fault. -/
theorem tokenize_charts (source file : String) :
    match tokenize source file with
    | .ok tokens => ∃ words,
        tokens = words ++ [.endOfInput (some (.after file source.toList))] ∧
          Chart file source.toList 0 words source.length
    | .error e => ∃ stop < source.length,
        e.location = .after file (source.toList.take stop) ∧
          Chart file source.toList 0 (lex source file).tokens stop := by
  have h := lexFrom_charts file none [] source.toList
  change (lex source file).Charts file source.toList 0 at h
  rw [Lexed.Charts] at h
  rw [← String.length_toList]
  simp only [tokenize]
  cases hfault : (lex source file).error with
  | none =>
    rw [hfault] at h
    obtain ⟨hchart, hstop⟩ := h
    refine ⟨_, ?_, hchart⟩
    rw [hstop, Cursor.location_advance]
  | some e =>
    rw [hfault] at h
    exact h

end Dec
