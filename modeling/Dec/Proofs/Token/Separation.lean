import Dec.Proofs.Token.Lexing
import Dec.Proofs.Token.Placement

namespace Dec

section Characters

/-- Letters, digits and underscores start words. -/
theorem startsWord_of_isNamePart {c : Char} (hc : Word.isNamePart c = true) : startsWord c = true := by
  have hsign : '#'.toNat = 35 := rfl
  have hnine : '9'.toNat = 57 := rfl
  have hname : Word.isNameStart c = true ∨ c.isDigit = true := by
    simp only [Word.isNamePart, Char.isAlphanum, Bool.or_eq_true] at hc
    rw [Word.isNameStart, Bool.or_eq_true]
    tauto
  apply startsWord_of_plain
  rcases hname with hname | hdigit
  · have hplain := Word.plain_of_isNameStart hname
    omega
  · have hbounds := isDigit_bounds hdigit
    omega

theorem startsWord_of_isOperatorChar {c : Char} (hc : Word.isOperatorChar c = true) :
    startsWord c = true := by
  have hall : Word.operatorChars.all startsWord = true := rfl
  exact List.all_eq_true.mp hall c (List.contains_iff_mem.mp hc)

/-- The second character of a sign starts words. -/
theorem startsWord_of_ofSign?_pair {c d : Char} {kind : TokenKind}
    (h : TokenKind.ofSign? (.ofList [c, d]) = some kind) : startsWord d = true := by
  have hlong : ∀ p ∈ TokenKind.signs, p.1.toList.length = 2 → p.1 = "//" ∨ p.1 = ":=" := by decide
  have hsign := hlong _ (TokenKind.mem_signs_of_ofSign? h) (by simp)
  rw [← String.toList_inj, ← String.toList_inj, String.toList_ofList] at hsign
  rcases hsign with hsign | hsign
  · obtain rfl : d = '/' := (List.cons.inj (List.cons.inj hsign).2).1
    rfl
  · obtain rfl : d = '=' := (List.cons.inj (List.cons.inj hsign).2).1
    rfl

end Characters

/-- A text goes on like another one when it has the same character in front, or one that separates
words, or none. -/
def GoesOnLike (rest rest' : List Char) : Prop :=
  ∀ d ∈ rest'.head?, rest.head? = some d ∨ startsWord d = false

namespace GoesOnLike

variable {rest rest' : List Char}

/-- A kind of character that words start with, and that a text has not in front, does not come there. -/
theorem head_eq_false (h : GoesOnLike rest rest') {p : Char → Bool}
    (hp : ∀ d, p d = true → startsWord d = true) (hr : ∀ d ∈ rest.head?, p d = false) :
    ∀ d ∈ rest'.head?, p d = false := by
  intro d hd
  rcases h d hd with hsame | hseparates
  · exact hr d hsame
  · rw [Bool.eq_false_iff]
    intro hpd
    rw [hp d hpd] at hseparates
    cases hseparates

/-- Where there are characters in front, they are the ones that count. -/
theorem of_append {front : List Char} (h : front = [] → GoesOnLike rest rest') :
    GoesOnLike (front ++ rest) (front ++ rest') := by
  intro d hd
  cases front with
  | nil => exact h rfl d hd
  | cons c front => exact Or.inl hd

end GoesOnLike

namespace Word

variable {allowed : Bool} {c : Char} {cs rest rest' : List Char} {w : Word}

/-- A minus is no sign before a text that goes on like one before which it is none. -/
theorem startsNumeral_eq_false (hr : GoesOnLike rest rest')
    (h : startsNumeral allowed c rest = false) : startsNumeral allowed c rest' = false := by
  simp only [startsNumeral, Bool.or_eq_false_iff, Bool.and_eq_false_iff] at h ⊢
  refine ⟨h.1, h.2.imp_right fun hdigit => ?_⟩
  have hnone : ∀ d ∈ rest.head?, d.isDigit = false := by
    intro d hd
    rw [Option.mem_def.mp hd] at hdigit
    exact hdigit
  have hnone' := hr.head_eq_false (p := Char.isDigit)
    (fun d hd => startsWord_of_isNamePart (by simp [isNamePart, Char.isAlphanum, hd])) hnone
  cases hhead : rest'.head? with
  | none => rfl
  | some d => exact hnone' d hhead

/-- Only a letter or an underscore behind a numeral spoils it. -/
theorem ofNumeral_eq_ok_iff {n : Numeral} :
    ofNumeral n rest = .ok w ↔
      (∀ d ∈ rest.head?, isNameStart d = false) ∧ ofNumeral n [] = .ok w := by
  have hname : (∀ d ∈ rest.head?, isNameStart d = false) ↔ rest.head?.filter isNameStart = none := by
    rw [Option.filter_eq_none_iff]
    simp
  rw [hname]
  cases hnext : rest.head?.filter isNameStart with
  | none =>
    have hsame : ofNumeral n rest = ofNumeral n [] := by
      rw [ofNumeral, hnext]
      rfl
    rw [hsame]
    exact (and_iff_right rfl).symm
  | some d =>
    have hspoiled : ofNumeral n rest = .error (.runsIntoName n d) := by rw [ofNumeral, hnext]
    rw [hspoiled]
    constructor
    · intro h
      cases h
    · rintro ⟨hnone, -⟩
      cases hnone

/-- A numeral is read as far as it goes, whatever separates it. -/
theorem scan_numeral (hr : GoesOnLike rest rest')
    (hnumeral : startsNumeral allowed c (cs ++ rest) = true)
    (h : scan allowed c (cs ++ rest) = .ok w) (hchars : w.chars = c :: cs) :
    scan allowed c (cs ++ rest') = .ok w := by
  rw [scan, if_pos hnumeral] at h
  dsimp only at h
  obtain ⟨hwritten, tail, htail, hstop⟩ := Numeral.scan_spec hnumeral
  generalize Numeral.scan (c :: (cs ++ rest)) = n at h hwritten htail hstop
  have hncs : n.chars = c :: cs := (ofNumeral_chars h).symm.trans hchars
  rw [hncs, ← List.cons_append] at htail
  obtain rfl := List.append_cancel_left htail
  rw [hncs, ← List.cons_append, List.drop_left, ofNumeral_eq_ok_iff] at h
  have hstops : n.Stops rest' := by
    intro d hd
    rcases hr d hd with hsame | hseparates
    · exact ⟨(hstop d hsame).1, h.1 d hsame, (hstop d hsame).2⟩
    · have hpart : isNamePart d = false := by
        rw [Bool.eq_false_iff]
        intro hpart
        rw [startsWord_of_isNamePart hpart] at hseparates
        cases hseparates
      simp only [isNamePart, Char.isAlphanum, Bool.or_eq_false_iff] at hpart
      refine ⟨hpart.1.2, by rw [isNameStart, hpart.1.1, hpart.2]; rfl, ?_⟩
      rintro rfl
      cases hseparates
  have hnumeral' : startsNumeral allowed c (cs ++ rest') = true := by
    cases cs with
    | cons d cs => exact hnumeral
    | nil =>
      -- the one character is a digit then
      obtain ⟨d, hd⟩ := List.exists_mem_of_ne_nil _ hwritten.whole.1
      have hmem : d ∈ n.chars := by
        rw [Numeral.chars_eq]
        exact List.mem_append_right _ (List.mem_append_left _ hd)
      rw [hncs] at hmem
      rw [startsNumeral, ← List.mem_singleton.mp hmem, hwritten.whole.2 d hd]
      rfl
  have hscan : Numeral.scan (c :: (cs ++ rest')) = n := by
    rw [← List.cons_append, ← hncs]
    exact Numeral.scan_append n hwritten hstops
  rw [scan, if_pos hnumeral', hscan]
  dsimp only
  rw [hncs, ← List.cons_append, List.drop_left, ofNumeral_eq_ok_iff]
  exact ⟨fun d hd => (hstops d hd).2.1, h.2⟩

/-- A run of characters of one kind ends where a text goes on like one before which it ended. -/
theorem takeWhile_goesOnLike {p : Char → Bool} (hp : ∀ d, p d = true → startsWord d = true)
    (hr : GoesOnLike rest rest') {front : List Char} (h : (front ++ rest).takeWhile p = front) :
    (front ++ rest').takeWhile p = front := by
  have hfront : ∀ d ∈ front, p d = true := by
    rw [← h]
    exact List.all_eq_true.mp List.all_takeWhile
  have hrest : ∀ d ∈ rest.head?, p d = false := by
    intro d hd
    obtain ⟨later, rfl⟩ := List.head?_eq_some_iff.mp hd
    rw [List.takeWhile_append_of_pos hfront] at h
    rw [Bool.eq_false_iff]
    intro hpd
    rw [List.takeWhile_cons_of_pos hpd] at h
    simpa using congrArg List.length h
  exact takeWhile_append_stop hfront (hr.head_eq_false hp hrest)

theorem sign?_eq_of_pairs (h : ∀ d ∈ rest.head?, TokenKind.ofSign? (.ofList [c, d]) = none) :
    sign? (c :: rest) =
      (TokenKind.ofSign? (.singleton c)).map fun kind => ⟨kind, [c], none⟩ := by
  cases rest with
  | nil => rfl
  | cons d rest => simp only [sign?, h d rfl]

/-- A sign is read, or none, in the same way before whatever goes on like the text behind it. -/
theorem sign?_goesOnLike (hr : GoesOnLike rest rest')
    (h : ∀ v, sign? (c :: (cs ++ rest)) = some v → v.chars.length ≤ cs.length + 1) :
    sign? (c :: (cs ++ rest')) = sign? (c :: (cs ++ rest)) := by
  cases cs with
  | cons d cs => rfl
  | nil =>
    rw [List.nil_append] at h ⊢
    have hpairs : ∀ d ∈ rest.head?, TokenKind.ofSign? (.ofList [c, d]) = none := by
      intro d hd
      obtain ⟨later, rfl⟩ := List.head?_eq_some_iff.mp hd
      cases hpair : TokenKind.ofSign? (.ofList [c, d]) with
      | none => rfl
      | some kind =>
        have hlong := h ⟨kind, [c, d], none⟩ (by simp only [sign?, hpair])
        simp at hlong
    have hpairs' : ∀ d ∈ rest'.head?, TokenKind.ofSign? (.ofList [c, d]) = none := by
      intro d hd
      rcases hr d hd with hsame | hseparates
      · exact hpairs d hsame
      · rw [Option.eq_none_iff_forall_ne_some]
        intro kind hkind
        rw [startsWord_of_ofSign?_pair hkind] at hseparates
        cases hseparates
    rw [List.nil_append, sign?_eq_of_pairs hpairs, sign?_eq_of_pairs hpairs']

/-- A word is read in the same way before whatever goes on like the text behind it. -/
theorem scan_goesOnLike (hr : GoesOnLike rest rest') (h : scan allowed c (cs ++ rest) = .ok w)
    (hchars : w.chars = c :: cs) : scan allowed c (cs ++ rest') = .ok w := by
  have hr' : GoesOnLike (cs ++ rest) (cs ++ rest') := .of_append fun _ => hr
  cases hnumeral : startsNumeral allowed c (cs ++ rest) with
  | true => exact scan_numeral hr hnumeral h hchars
  | false =>
    have hnumeral' := startsNumeral_eq_false hr' hnumeral
    simp only [scan, hnumeral, hnumeral', Bool.false_eq_true, if_false] at h ⊢
    cases hname : isNameStart c with
    | true =>
      rw [hname, if_pos rfl] at h
      have hrun : (c :: cs ++ rest).takeWhile isNamePart = c :: cs := by
        have hword := congrArg Word.chars (Except.ok.inj h)
        rwa [ofName_chars, hchars] at hword
      have hrun' := takeWhile_goesOnLike (fun _ => startsWord_of_isNamePart) hr hrun
      rw [← List.cons_append] at h ⊢
      rw [if_pos rfl, hrun', ← h, hrun]
    | false =>
      simp only [hname, Bool.false_eq_true, if_false] at h ⊢
      have hsign : sign? (c :: (cs ++ rest')) = sign? (c :: (cs ++ rest)) := by
        apply sign?_goesOnLike hr
        intro v hv
        rw [hv] at h
        rw [Except.ok.inj h, hchars]
        exact Nat.le_refl _
      rw [hsign]
      cases hv : sign? (c :: (cs ++ rest)) with
      | some v =>
        rw [hv] at h
        exact h
      | none =>
        rw [hv] at h
        dsimp only at h ⊢
        split at h
        · rename_i hoperator
          have hrun : (c :: cs ++ rest).takeWhile isOperatorChar = c :: cs := by
            have hword := congrArg Word.chars (Except.ok.inj h)
            rwa [hchars] at hword
          have hrun' := takeWhile_goesOnLike (fun _ => startsWord_of_isOperatorChar) hr hrun
          rw [← List.cons_append] at h ⊢
          rw [if_pos hoperator, hrun', ← h, hrun]
        · cases h

/-- The characters of a word that was read are read as that word before whatever goes on like the text
behind them. -/
theorem ReadBefore.goesOnLike (h : w.ReadBefore allowed rest) (hr : GoesOnLike rest rest') :
    w.ReadBefore allowed rest' := by
  obtain ⟨c, cs, hchars, hstart, hscan⟩ := h
  exact ⟨c, cs, hchars, hstart, scan_goesOnLike hr hscan hchars⟩

end Word

end Dec
