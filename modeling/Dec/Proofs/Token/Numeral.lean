import Dec.Token.Word

namespace Dec

/-- What follows a word of an expression: a blank, a line feed, a closing parenthesis or nothing. -/
def EndsWord (rest : List Char) : Prop := ∀ c ∈ rest.head?, c = ' ' ∨ c = '\n' ∨ c = ')'

namespace EndsWord

variable {rest : List Char}

theorem space (rest : List Char) : EndsWord (' ' :: rest) := by
  intro c hc
  exact .inl (Option.some.inj hc).symm

theorem newline (rest : List Char) : EndsWord ('\n' :: rest) := by
  intro c hc
  exact .inr (.inl (Option.some.inj hc).symm)

theorem paren (rest : List Char) : EndsWord (')' :: rest) := by
  intro c hc
  exact .inr (.inr (Option.some.inj hc).symm)

theorem head_eq_false (h : EndsWord rest) {p : Char → Bool}
    (hp : p ' ' = false ∧ p '\n' = false ∧ p ')' = false) : ∀ c ∈ rest.head?, p c = false := by
  intro c hc
  rcases h c hc with rfl | rfl | rfl
  · exact hp.1
  · exact hp.2.1
  · exact hp.2.2

end EndsWord

section TakeWhile

variable {p : Char → Bool} {front rest : List Char}

theorem takeWhile_append_stop (hf : ∀ c ∈ front, p c = true) (hr : ∀ c ∈ rest.head?, p c = false) :
    (front ++ rest).takeWhile p = front := by
  rw [List.takeWhile_append_of_pos hf]
  cases rest with
  | nil => simp
  | cons c rest => simp [hr c rfl]

theorem dropWhile_append_stop (hf : ∀ c ∈ front, p c = true) (hr : ∀ c ∈ rest.head?, p c = false) :
    (front ++ rest).dropWhile p = rest := by
  rw [List.dropWhile_append_of_pos hf]
  cases rest with
  | nil => simp
  | cons c rest => simp [hr c rfl]

/-- What stands at the head of what is left behind the longest run of some characters. -/
theorem head?_dropWhile_eq_false (p : Char → Bool) (cs : List Char) :
    ∀ d ∈ (cs.dropWhile p).head?, p d = false := by
  intro d hd
  have hhead := List.head?_dropWhile_not p cs
  rwa [Option.mem_def.mp hd] at hhead

end TakeWhile

structure Exponent.Written (e : Exponent) : Prop where
  mark : e.mark = 'e' ∨ e.mark = 'E'
  sign : ∀ c, e.sign = some c → c = '+' ∨ c = '-'
  digits : e.digits ≠ [] ∧ ∀ c ∈ e.digits, c.isDigit = true

structure Numeral.Written (n : Numeral) : Prop where
  whole : n.whole ≠ [] ∧ ∀ c ∈ n.whole, c.isDigit = true
  fraction : ∀ ds, n.fraction = some ds → ∀ c ∈ ds, c.isDigit = true
  exponent : ∀ e, n.exponent = some e → e.Written

namespace Exponent

variable {rest : List Char}

/-- A power of ten starts with a letter. -/
theorem scan?_of_not_isNameStart (hr : ∀ c ∈ rest.head?, Word.isNameStart c = false) :
    scan? rest = none := by
  cases rest with
  | nil => rfl
  | cons c rest =>
    have hc : Word.isNameStart c = false := hr c rfl
    have hmark : ¬ (c = 'e' ∨ c = 'E') := by
      rintro (rfl | rfl)
      · cases hc
      · cases hc
    rw [scan?, if_neg hmark]

theorem splitSign_append (e : Exponent) (he : e.Written) (rest : List Char) :
    splitSign (e.sign.toList ++ e.digits ++ rest) = (e.sign, e.digits ++ rest) := by
  obtain ⟨mark, sign, digits⟩ := e
  obtain ⟨-, hsign, hne, hdigits⟩ := he
  cases sign with
  | some c =>
    have hc : c = '+' ∨ c = '-' := hsign c rfl
    simp [splitSign, hc]
  | none =>
    -- the first digit is taken for no sign
    cases digits with
    | nil => exact absurd rfl hne
    | cons d ds =>
      have hd : d.isDigit = true := hdigits d (by simp)
      have hplus : d ≠ '+' := by
        rintro rfl
        cases hd
      have hminus : d ≠ '-' := by
        rintro rfl
        cases hd
      simp [splitSign, hplus, hminus]

/-- A power of ten is scanned as it was written. -/
theorem scan?_append (e : Exponent) (he : e.Written) (hr : ∀ c ∈ rest.head?, c.isDigit = false) :
    scan? (e.chars ++ rest) = some e := by
  have hdigits := takeWhile_append_stop he.digits.2 hr
  have hchars : e.chars ++ rest = e.mark :: (e.sign.toList ++ e.digits ++ rest) := by
    simp [chars]
  have hne : e.digits.isEmpty = false := by simpa using he.digits.1
  rw [hchars, scan?, if_pos he.mark, splitSign_append e he]
  simp only [hdigits, hne, Bool.false_eq_true, if_false]

/-- A power of ten is scanned as far as its digits go. -/
theorem written_of_scan? {cs : List Char} {e : Exponent} (h : scan? cs = some e) :
    e.Written ∧ ∃ rest, cs = e.chars ++ rest ∧ ∀ d ∈ rest.head?, d.isDigit = false := by
  cases cs with
  | nil => cases h
  | cons c cs =>
    have hsign : (splitSign cs).1.toList ++ (splitSign cs).2 = cs ∧
        ∀ s, (splitSign cs).1 = some s → s = '+' ∨ s = '-' := by
      unfold splitSign
      split
      · rename_i s rest
        split
        · rename_i hs
          refine ⟨rfl, fun t ht => ?_⟩
          rwa [← Option.some.inj ht]
        · exact ⟨rfl, fun t ht => by cases ht⟩
      · exact ⟨rfl, fun t ht => by cases ht⟩
    rw [scan?] at h
    split at h
    · rename_i hmark
      dsimp only at h
      split at h
      · cases h
      · rename_i hdigits
        obtain rfl := Option.some.inj h
        have hne : (splitSign cs).2.takeWhile Char.isDigit ≠ [] := by simpa using hdigits
        have hall := List.all_eq_true.mp (List.all_takeWhile (p := Char.isDigit) (l := (splitSign cs).2))
        have hsplit := List.takeWhile_append_dropWhile (p := Char.isDigit) (l := (splitSign cs).2)
        refine ⟨⟨hmark, hsign.2, hne, hall⟩, (splitSign cs).2.dropWhile Char.isDigit, ?_,
          head?_dropWhile_eq_false _ _⟩
        simp only [chars, List.cons_append, List.append_assoc, hsplit, hsign.1]
    · cases h

end Exponent

namespace Numeral

variable {rest : List Char}

def fractionChars : Option (List Char) → List Char
  | some digits => '.' :: digits
  | none => []

def exponentChars : Option Exponent → List Char
  | some e => e.chars
  | none => []

theorem chars_eq (n : Numeral) :
    n.chars = (if n.negative then ['-'] else []) ++
      (n.whole ++ (fractionChars n.fraction ++ exponentChars n.exponent)) := by
  obtain ⟨negative, whole, fraction, exponent⟩ := n
  cases fraction <;> cases exponent <;> simp [chars, fractionChars, exponentChars]

/-- What a numeral stops before: no digit, letter or underscore, and no point where one could still be
part of it. -/
def Stops (n : Numeral) (rest : List Char) : Prop :=
  ∀ c ∈ rest.head?, c.isDigit = false ∧ Word.isNameStart c = false ∧ (c = '.' → n.isFloat = true)

/-- A power of ten that may be missing is scanned as it was written, and a numeral stops before
it. -/
theorem scan?_exponentChars {exponent : Option Exponent} (he : ∀ e, exponent = some e → e.Written)
    (hr : ∀ c ∈ rest.head?, c.isDigit = false ∧ Word.isNameStart c = false) :
    Exponent.scan? (exponentChars exponent ++ rest) = exponent ∧
      ∀ c ∈ (exponentChars exponent ++ rest).head?, c.isDigit = false ∧
        (c = '.' → exponent = none ∧ c ∈ rest.head?) := by
  cases exponent with
  | none =>
    refine ⟨Exponent.scan?_of_not_isNameStart fun c hc => (hr c hc).2, ?_⟩
    intro c hc
    exact ⟨(hr c hc).1, fun _ => ⟨rfl, hc⟩⟩
  | some e =>
    have hw := he e rfl
    refine ⟨Exponent.scan?_append e hw fun c hc => (hr c hc).1, ?_⟩
    intro c hc
    obtain rfl : e.mark = c := Option.some.inj hc
    -- a letter is no digit and no point
    rcases hw.mark with h | h
    · rw [h]
      exact ⟨rfl, nofun⟩
    · rw [h]
      exact ⟨rfl, nofun⟩

/-- Whatever ends a word of an expression ends a numeral. -/
theorem stops_of_endsWord (n : Numeral) (hr : EndsWord rest) : n.Stops rest := by
  intro c hc
  have hdigit := hr.head_eq_false (p := Char.isDigit) (by decide) c hc
  have hname := hr.head_eq_false (p := Word.isNameStart) (by decide) c hc
  have hpoint := hr.head_eq_false (p := (· == '.')) (by decide) c hc
  exact ⟨hdigit, hname, fun h => absurd h (by simpa using hpoint)⟩

theorem scanUnsigned_append (n : Numeral) (hn : n.Written) (hr : n.Stops rest) :
    scanUnsigned n.negative
      (n.whole ++ (fractionChars n.fraction ++ (exponentChars n.exponent ++ rest))) = n := by
  obtain ⟨negative, whole, fraction, exponent⟩ := n
  obtain ⟨⟨-, hwhole⟩, hfraction, hexponent⟩ := hn
  obtain ⟨hscan, hstop⟩ := scan?_exponentChars hexponent fun c hc => ⟨(hr c hc).1, (hr c hc).2.1⟩
  dsimp only at hscan hstop ⊢
  cases fraction with
  | none =>
    -- the digits end where the power of ten, or what follows, begins, and that is no point
    have hpoint : ∀ c ∈ (exponentChars exponent ++ rest).head?, c ≠ '.' := by
      rintro c hc rfl
      obtain ⟨rfl, hmem⟩ := (hstop _ hc).2 rfl
      cases (hr _ hmem).2.2 rfl
    generalize exponentChars exponent ++ rest = tail at hscan hstop hpoint ⊢
    have ht := takeWhile_append_stop hwhole fun c hc => (hstop c hc).1
    have hd := dropWhile_append_stop hwhole fun c hc => (hstop c hc).1
    unfold scanUnsigned
    rw [fractionChars, List.nil_append, ht, hd]
    split
    · exact absurd rfl (hpoint '.' rfl)
    · rw [hscan]
  | some digits =>
    generalize exponentChars exponent ++ rest = tail at hscan hstop ⊢
    have hpoint : ∀ c ∈ ('.' :: (digits ++ tail)).head?, c.isDigit = false := by
      intro c hc
      obtain rfl : '.' = c := Option.some.inj hc
      rfl
    have ht := takeWhile_append_stop hwhole hpoint
    have hd := dropWhile_append_stop hwhole hpoint
    have ht' := takeWhile_append_stop (hfraction digits rfl) fun c hc => (hstop c hc).1
    have hd' := dropWhile_append_stop (hfraction digits rfl) fun c hc => (hstop c hc).1
    unfold scanUnsigned
    rw [fractionChars, List.cons_append, ht, hd]
    simp only [ht', hd', hscan]

/-- A numeral is scanned as it was written. -/
theorem scan_append (n : Numeral) (hn : n.Written) (hr : n.Stops rest) :
    scan (n.chars ++ rest) = n := by
  have h := scanUnsigned_append n hn hr
  rw [chars_eq, List.append_assoc, List.append_assoc, List.append_assoc]
  cases hneg : n.negative with
  | true =>
    rw [hneg] at h
    exact h
  | false =>
    rw [hneg] at h
    simp only [Bool.false_eq_true, if_false, List.nil_append]
    unfold scan
    split
    · rename_i cs hcs
      -- a digit is no minus
      obtain ⟨d, ds, hd⟩ := List.exists_cons_of_ne_nil hn.whole.1
      have hdigit := hn.whole.2 d (by simp [hd])
      rw [hd] at hcs
      obtain ⟨rfl, -⟩ := List.cons.inj hcs
      cases hdigit
    · exact h

/-- The numeral at the head of a text is one as it may be written, and what follows it goes on neither
with a digit nor, where a fraction could begin, with a point. -/
theorem scanUnsigned_spec (negative : Bool) (cs : List Char) (hcs : cs.takeWhile Char.isDigit ≠ []) :
    let n := scanUnsigned negative cs
    n.Written ∧ n.negative = negative ∧
      ∃ rest, cs = n.whole ++ (fractionChars n.fraction ++ (exponentChars n.exponent ++ rest)) ∧
        ∀ d ∈ rest.head?, d.isDigit = false ∧ (d = '.' → n.isFloat = true) := by
  have hall := List.all_eq_true.mp (List.all_takeWhile (p := Char.isDigit) (l := cs))
  have hsplit := List.takeWhile_append_dropWhile (p := Char.isDigit) (l := cs)
  -- after the digits, or the fraction, there may be a power of ten
  have hpower (tail : List Char) (ht : ∀ d ∈ tail.head?, d.isDigit = false) :
      (∀ e, Exponent.scan? tail = some e → e.Written) ∧
        ∃ rest, tail = exponentChars (Exponent.scan? tail) ++ rest ∧
          ∀ d ∈ rest.head?, d.isDigit = false ∧
            ((Exponent.scan? tail).isSome = true ∨ tail.head? = some d) := by
    cases hscan : Exponent.scan? tail with
    | none => exact ⟨(fun e he => by cases he), tail, rfl, fun d hd => ⟨ht d hd, Or.inr hd⟩⟩
    | some e =>
      obtain ⟨hwritten, rest, htail, hrest⟩ := Exponent.written_of_scan? hscan
      refine ⟨fun e' he' => ?_, rest, htail, fun d hd => ⟨hrest d hd, Or.inl rfl⟩⟩
      rwa [← Option.some.inj he']
  unfold scanUnsigned
  split
  · rename_i tail htail
    have hall' := List.all_eq_true.mp (List.all_takeWhile (p := Char.isDigit) (l := tail))
    have hsplit' := List.takeWhile_append_dropWhile (p := Char.isDigit) (l := tail)
    obtain ⟨hwritten, rest, hrest, hstop⟩ :=
      hpower _ (head?_dropWhile_eq_false Char.isDigit tail)
    refine ⟨⟨⟨hcs, hall⟩, fun ds hds => ?_, hwritten⟩, rfl, rest, ?_, fun d hd => ?_⟩
    · rwa [← Option.some.inj hds]
    · dsimp only
      rw [fractionChars, List.cons_append, ← hrest, hsplit', ← htail, hsplit]
    · exact ⟨(hstop d hd).1, fun _ => rfl⟩
  · rename_i hpoint
    obtain ⟨hwritten, rest, hrest, hstop⟩ := hpower _ (head?_dropWhile_eq_false Char.isDigit cs)
    refine ⟨⟨⟨hcs, hall⟩, (fun ds hds => by cases hds), hwritten⟩, rfl, rest, ?_, fun d hd => ?_⟩
    · dsimp only
      rw [fractionChars, List.nil_append, ← hrest, hsplit]
    · refine ⟨(hstop d hd).1, ?_⟩
      rintro rfl
      rcases (hstop _ hd).2 with hsome | hhead
      · exact hsome
      · -- a point would have been taken for that of a fraction
        obtain ⟨later, hlater⟩ := List.head?_eq_some_iff.mp hhead
        exact (hpoint later hlater).elim

/-- Where a numeral starts, all of it is scanned. -/
theorem scan_spec {allowed : Bool} {c : Char} {rest : List Char}
    (h : Word.startsNumeral allowed c rest = true) :
    (scan (c :: rest)).Written ∧ ∃ tail, c :: rest = (scan (c :: rest)).chars ++ tail ∧
      ∀ d ∈ tail.head?, d.isDigit = false ∧ (d = '.' → (scan (c :: rest)).isFloat = true) := by
  unfold scan
  split
  · rename_i cs hcs
    obtain ⟨rfl, rfl⟩ := List.cons.inj hcs
    have hdigits : rest.takeWhile Char.isDigit ≠ [] := by
      cases rest with
      | nil => simp [Word.startsNumeral] at h
      | cons d rest =>
        have hd : d.isDigit = true := by
          simp only [Word.startsNumeral, List.head?_cons, Option.any_some, Bool.or_eq_true,
            Bool.and_eq_true] at h
          rcases h with hminus | h
          · cases hminus
          · exact h.2
        rw [List.takeWhile_cons_of_pos hd]
        exact List.cons_ne_nil _ _
    obtain ⟨hwritten, hnegative, tail, htail, hstop⟩ := scanUnsigned_spec true rest hdigits
    refine ⟨hwritten, tail, ?_, hstop⟩
    rw [chars_eq, hnegative, if_pos rfl]
    simpa using htail
  · rename_i hminus
    have hdigit : c.isDigit = true := by
      have hne : c ≠ '-' := fun hc => hminus rest (by rw [hc])
      simpa [Word.startsNumeral, hne] using h
    have hdigits : (c :: rest).takeWhile Char.isDigit ≠ [] := by
      rw [List.takeWhile_cons_of_pos hdigit]
      exact List.cons_ne_nil _ _
    obtain ⟨hwritten, hnegative, tail, htail, hstop⟩ := scanUnsigned_spec false (c :: rest) hdigits
    refine ⟨hwritten, tail, ?_, hstop⟩
    rw [chars_eq, hnegative]
    simpa using htail

end Numeral

end Dec
