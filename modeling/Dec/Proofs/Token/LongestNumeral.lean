import Dec.Proofs.Token.Numeral
import Mathlib.Computability.Language

namespace Dec

open scoped Computability

structure LongestPrefix (l : Language Char) (w text : List Char) : Prop where
  mem : w ∈ l
  isPrefix : w <+: text
  longest : ∀ v ∈ l, v <+: text → v.length ≤ w.length

namespace Numeral

section Language

def minus : Language Char := 1 + {['-']}

def digit : Language Char := {w | ∃ c : Char, c.isDigit = true ∧ w = [c]}

def someDigits : Language Char := digit * digit∗

def power : Language Char := ({['e']} + {['E']}) * (1 + {['+']} + {['-']}) * someDigits

def integers : Language Char := minus * someDigits

/-- With a point, behind which digits and a power of ten may be missing, or with a power of ten. -/
def floats : Language Char :=
  minus * someDigits * {['.']} * digit∗ * (1 + power) + minus * someDigits * power

def numerals : Language Char := integers + floats

variable {w : List Char}

theorem mem_minus : w ∈ minus ↔ ∃ negative : Bool, w = if negative then ['-'] else [] := by
  rw [minus, Language.mem_add, Language.mem_one]
  constructor
  · rintro (rfl | hw)
    · exact ⟨false, rfl⟩
    · exact ⟨true, hw⟩
  · rintro ⟨negative, rfl⟩
    cases negative with
    | false => exact .inl rfl
    | true => exact .inr rfl

theorem mem_digits : w ∈ digit∗ ↔ ∀ c ∈ w, c.isDigit = true := by
  rw [Language.mem_kstar]
  constructor
  · rintro ⟨pieces, rfl, hpieces⟩ c hc
    obtain ⟨piece, hpiece, hmem⟩ := List.mem_flatten.mp hc
    obtain ⟨d, hd, rfl⟩ := hpieces piece hpiece
    rwa [List.mem_singleton.mp hmem]
  · intro hw
    refine ⟨w.map fun c => [c], ?_, fun piece hpiece => ?_⟩
    · rw [← List.flatMap_def, List.flatMap_singleton']
    · obtain ⟨c, hc, rfl⟩ := List.mem_map.mp hpiece
      exact ⟨c, hw c hc, rfl⟩

theorem mem_someDigits : w ∈ someDigits ↔ w ≠ [] ∧ ∀ c ∈ w, c.isDigit = true := by
  rw [someDigits, Language.mem_mul]
  constructor
  · rintro ⟨_, ⟨c, hc, rfl⟩, rest, hrest, rfl⟩
    exact ⟨List.cons_ne_nil _ _, List.forall_mem_cons.mpr ⟨hc, mem_digits.mp hrest⟩⟩
  · rintro ⟨hne, hw⟩
    obtain ⟨c, rest, rfl⟩ := List.exists_cons_of_ne_nil hne
    rw [List.forall_mem_cons] at hw
    exact ⟨[c], ⟨c, hw.1, rfl⟩, rest, mem_digits.mpr hw.2, rfl⟩

theorem mem_power : w ∈ power ↔ ∃ e : Exponent, e.Written ∧ e.chars = w := by
  have hmark (v : List Char) : v ∈ ({['e']} + {['E']} : Language Char) ↔
      ∃ c, v = [c] ∧ (c = 'e' ∨ c = 'E') := by
    rw [Language.mem_add]
    constructor
    · rintro (rfl | rfl)
      · exact ⟨'e', rfl, .inl rfl⟩
      · exact ⟨'E', rfl, .inr rfl⟩
    · rintro ⟨c, rfl, rfl | rfl⟩
      · exact .inl rfl
      · exact .inr rfl
  have hsign (v : List Char) : v ∈ (1 + {['+']} + {['-']} : Language Char) ↔
      ∃ sign : Option Char, v = sign.toList ∧ ∀ c, sign = some c → c = '+' ∨ c = '-' := by
    rw [Language.mem_add, Language.mem_add, Language.mem_one]
    constructor
    · rintro ((rfl | rfl) | rfl)
      · exact ⟨none, rfl, fun c hc => by cases hc⟩
      · exact ⟨some '+', rfl, fun c hc => .inl (Option.some.inj hc).symm⟩
      · exact ⟨some '-', rfl, fun c hc => .inr (Option.some.inj hc).symm⟩
    · rintro ⟨sign, rfl, hs⟩
      cases sign with
      | none => exact .inl (.inl rfl)
      | some c =>
        rcases hs c rfl with rfl | rfl
        · exact .inl (.inr rfl)
        · exact .inr rfl
  rw [power, Language.mem_mul]
  constructor
  · rintro ⟨_, hfront, digits, hdigits, rfl⟩
    obtain ⟨_, hm, _, hs, rfl⟩ := Language.mem_mul.mp hfront
    obtain ⟨mark, rfl, hmark⟩ := (hmark _).mp hm
    obtain ⟨sign, rfl, hsign⟩ := (hsign _).mp hs
    exact ⟨⟨mark, sign, digits⟩, ⟨hmark, hsign, mem_someDigits.mp hdigits⟩, rfl⟩
  · rintro ⟨e, he, rfl⟩
    refine ⟨[e.mark] ++ e.sign.toList, ?_, e.digits, mem_someDigits.mpr he.digits, rfl⟩
    exact Language.append_mem_mul ((hmark _).mpr ⟨e.mark, rfl, he.mark⟩)
      ((hsign _).mpr ⟨e.sign, rfl, he.sign⟩)

theorem chars_of_isFloat_eq_false {n : Numeral} (h : n.isFloat = false) :
    n.chars = (if n.negative then ['-'] else []) ++ n.whole := by
  obtain ⟨negative, whole, fraction, exponent⟩ := n
  rw [isFloat, Bool.or_eq_false_iff, Option.isSome_eq_false_iff, Option.isSome_eq_false_iff,
    Option.isNone_iff_eq_none, Option.isNone_iff_eq_none] at h
  obtain ⟨rfl, rfl⟩ := h
  rw [chars_eq, fractionChars, exponentChars, List.append_nil, List.append_nil]

/-- A numeral as it may be written without fraction and power of ten. -/
theorem mem_integers :
    w ∈ integers ↔ ∃ n : Numeral, n.Written ∧ n.isFloat = false ∧ n.chars = w := by
  rw [integers, Language.mem_mul]
  constructor
  · rintro ⟨_, hsign, whole, hwhole, rfl⟩
    obtain ⟨negative, rfl⟩ := mem_minus.mp hsign
    refine ⟨⟨negative, whole, none, none⟩, ⟨mem_someDigits.mp hwhole, (fun ds hds => by cases hds),
      (fun e he => by cases he)⟩, rfl, ?_⟩
    rw [chars_eq, fractionChars, exponentChars, List.append_nil, List.append_nil]
  · rintro ⟨n, hn, hfloat, rfl⟩
    rw [chars_of_isFloat_eq_false hfloat]
    exact ⟨_, mem_minus.mpr ⟨n.negative, rfl⟩, n.whole, mem_someDigits.mpr hn.whole, rfl⟩

/-- A numeral as it may be written with a fraction or a power of ten. -/
theorem mem_floats :
    w ∈ floats ↔ ∃ n : Numeral, n.Written ∧ n.isFloat = true ∧ n.chars = w := by
  have hpower (v : List Char) : v ∈ 1 + power ↔
      ∃ exponent : Option Exponent, (∀ e, exponent = some e → e.Written) ∧
        exponentChars exponent = v := by
    rw [Language.mem_add, Language.mem_one, mem_power]
    constructor
    · rintro (rfl | ⟨e, he, rfl⟩)
      · exact ⟨none, (fun e he => by cases he), rfl⟩
      · refine ⟨some e, fun e' he' => ?_, rfl⟩
        rwa [← Option.some.inj he']
    · rintro ⟨exponent, he, rfl⟩
      cases exponent with
      | none => exact .inl rfl
      | some e => exact .inr ⟨e, he e rfl, rfl⟩
  rw [floats, Language.mem_add]
  constructor
  · rintro (hpoint | hbare)
    · obtain ⟨_, hpointed, last, hlast, rfl⟩ := Language.mem_mul.mp hpoint
      obtain ⟨_, hdotted, digits, hdigits, rfl⟩ := Language.mem_mul.mp hpointed
      obtain ⟨_, hfront, _, rfl, rfl⟩ := Language.mem_mul.mp hdotted
      obtain ⟨_, hsign, whole, hwhole, rfl⟩ := Language.mem_mul.mp hfront
      obtain ⟨negative, rfl⟩ := mem_minus.mp hsign
      obtain ⟨exponent, hexponent, rfl⟩ := (hpower last).mp hlast
      refine ⟨⟨negative, whole, some digits, exponent⟩, ⟨mem_someDigits.mp hwhole, ?_, hexponent⟩,
        rfl, ?_⟩
      · intro ds hds
        rw [← Option.some.inj hds]
        exact mem_digits.mp hdigits
      · rw [chars_eq]
        simp [fractionChars]
    · obtain ⟨_, hfront, last, hlast, rfl⟩ := Language.mem_mul.mp hbare
      obtain ⟨_, hsign, whole, hwhole, rfl⟩ := Language.mem_mul.mp hfront
      obtain ⟨negative, rfl⟩ := mem_minus.mp hsign
      obtain ⟨e, he, rfl⟩ := mem_power.mp hlast
      refine ⟨⟨negative, whole, none, some e⟩, ⟨mem_someDigits.mp hwhole,
        (fun ds hds => by cases hds), ?_⟩, rfl, ?_⟩
      · intro e' he'
        rwa [← Option.some.inj he']
      · rw [chars_eq]
        simp [fractionChars, exponentChars]
  · rintro ⟨⟨negative, whole, fraction, exponent⟩, hn, hfloat, rfl⟩
    have hsign := mem_minus.mpr ⟨negative, rfl⟩
    have hwhole := mem_someDigits.mpr hn.whole
    cases fraction with
    | some digits =>
      have hdigits := mem_digits.mpr (hn.fraction digits rfl)
      have hlast := (hpower _).mpr ⟨exponent, hn.exponent, rfl⟩
      have hchars : (⟨negative, whole, some digits, exponent⟩ : Numeral).chars =
          (if negative then ['-'] else []) ++ whole ++ ['.'] ++ digits ++
            exponentChars exponent := by
        rw [chars_eq]
        simp [fractionChars]
      rw [hchars]
      exact .inl <| Language.append_mem_mul (Language.append_mem_mul (Language.append_mem_mul
        (Language.append_mem_mul hsign hwhole) rfl) hdigits) hlast
    | none =>
      cases exponent with
      | none => cases hfloat
      | some e =>
        rw [chars_eq, ← List.append_assoc]
        exact .inr (Language.append_mem_mul (Language.append_mem_mul hsign hwhole)
          (mem_power.mpr ⟨e, hn.exponent e rfl, rfl⟩))

theorem mem_numerals : w ∈ numerals ↔ ∃ n : Numeral, n.Written ∧ n.chars = w := by
  rw [numerals, Language.mem_add, mem_integers, mem_floats]
  constructor
  · rintro (⟨n, hn, -, hw⟩ | ⟨n, hn, -, hw⟩)
    · exact ⟨n, hn, hw⟩
    · exact ⟨n, hn, hw⟩
  · rintro ⟨n, hn, hw⟩
    cases hfloat : n.isFloat with
    | false => exact .inl ⟨n, hn, hfloat, hw⟩
    | true => exact .inr ⟨n, hn, hfloat, hw⟩

end Language

section Longest

variable {cs : List Char}

/-- Digits at the head of a text are no more than the longest run of them. -/
theorem length_le_takeWhile {run : List Char} (hrun : ∀ c ∈ run, c.isDigit = true)
    (h : run <+: cs) : run.length ≤ (cs.takeWhile Char.isDigit).length := by
  obtain ⟨rest, rfl⟩ := h
  rw [List.takeWhile_append_of_pos hrun, List.length_append]
  exact Nat.le_add_right _ _

/-- Digits that something else stands behind are the longest run of them. -/
theorem takeWhile_eq_of_isPrefix {run more : List Char} {x : Char}
    (hrun : ∀ c ∈ run, c.isDigit = true) (hx : x.isDigit = false) (h : run ++ x :: more <+: cs) :
    cs.takeWhile Char.isDigit = run ∧ x :: more <+: cs.dropWhile Char.isDigit := by
  obtain ⟨rest, rfl⟩ := h
  have hstop : ∀ c ∈ (x :: more ++ rest).head?, c.isDigit = false := by
    intro c hc
    rwa [← Option.some.inj hc]
  rw [List.append_assoc, takeWhile_append_stop hrun hstop, dropWhile_append_stop hrun hstop]
  exact ⟨rfl, List.prefix_append _ _⟩

theorem mark_isDigit {e : Exponent} (he : e.Written) : e.mark.isDigit = false := by
  rcases he.mark with h | h <;> rw [h] <;> rfl

/-- A power of ten at the head of a text is scanned, with all further digits. -/
theorem scan?_longest {e : Exponent} (he : e.Written) (h : e.chars <+: cs) :
    ∃ e', Exponent.scan? cs = some e' ∧ e.chars.length ≤ e'.chars.length := by
  obtain ⟨rest, rfl⟩ := h
  have hchars : e.chars ++ rest = e.mark :: (e.sign.toList ++ e.digits ++ rest) := by
    simp [Exponent.chars]
  have hdigits : (e.digits ++ rest).takeWhile Char.isDigit =
      e.digits ++ rest.takeWhile Char.isDigit := List.takeWhile_append_of_pos he.digits.2
  have hne : (e.digits ++ rest.takeWhile Char.isDigit).isEmpty = false := by
    simp [he.digits.1]
  refine ⟨⟨e.mark, e.sign, e.digits ++ rest.takeWhile Char.isDigit⟩, ?_, ?_⟩
  · rw [hchars, Exponent.scan?, if_pos he.mark, Exponent.splitSign_append e he]
    simp only [hdigits, hne, Bool.false_eq_true, if_false]
  · simp [Exponent.chars]

def body (n : Numeral) : List Char :=
  n.whole ++ (fractionChars n.fraction ++ exponentChars n.exponent)

/-- A power of ten behind some digits comes directly behind all of them. -/
theorem exponentChars_longest {exponent : Option Exponent}
    (he : ∀ e, exponent = some e → e.Written) {run : List Char}
    (hrun : ∀ c ∈ run, c.isDigit = true) (h : run ++ exponentChars exponent <+: cs) :
    (run ++ exponentChars exponent).length ≤
      (cs.takeWhile Char.isDigit).length +
        (exponentChars (Exponent.scan? (cs.dropWhile Char.isDigit))).length := by
  cases exponent with
  | none =>
    rw [exponentChars, List.append_nil] at h ⊢
    exact Nat.le_add_right_of_le (length_le_takeWhile hrun h)
  | some e =>
    obtain ⟨htake, hdrop⟩ := takeWhile_eq_of_isPrefix hrun (mark_isDigit (he e rfl)) h
    obtain ⟨e', hscan, hle⟩ := scan?_longest (he e rfl) hdrop
    rw [hscan, htake, List.length_append]
    exact Nat.add_le_add_left hle _

/-- No numeral at the head of a text is longer than the one that is scanned there. -/
theorem scanUnsigned_longest (negative : Bool) {n : Numeral} (hn : n.Written)
    (h : n.body <+: cs) : n.body.length ≤ (scanUnsigned negative cs).body.length := by
  obtain ⟨sign, whole, fraction, exponent⟩ := n
  obtain ⟨⟨-, hwhole⟩, hfraction, hexponent⟩ := hn
  dsimp only [body] at h hwhole hfraction hexponent ⊢
  rw [scanUnsigned]
  cases fraction with
  | none =>
    rw [fractionChars, List.nil_append] at h ⊢
    have hbare := exponentChars_longest hexponent hwhole h
    split
    -- where a point follows, there is no power of ten before it
    · rename_i rest hrest
      rw [hrest, show Exponent.scan? ('.' :: rest) = none from rfl, exponentChars, List.length_nil,
        Nat.add_zero] at hbare
      exact hbare.trans (List.prefix_append _ _).length_le
    · exact hbare.trans (Nat.le_of_eq List.length_append.symm)
  | some digits =>
    rw [fractionChars, List.cons_append] at h ⊢
    obtain ⟨htake, hdrop⟩ := takeWhile_eq_of_isPrefix hwhole (by rfl) h
    split
    · rename_i rest hrest
      rw [hrest] at hdrop
      have htail := exponentChars_longest hexponent (hfraction digits rfl)
        (List.cons_prefix_cons.mp hdrop).2
      rw [htake, fractionChars]
      simp only [List.length_append, List.length_cons] at htail ⊢
      omega
    · rename_i hpoint
      obtain ⟨rest, hrest⟩ := hdrop
      exact absurd hrest.symm (hpoint _)

/-- Where a numeral starts, the longest prefix of the text that is a numeral is scanned. -/
theorem scan_longestPrefix {allowed : Bool} {c : Char} {rest : List Char}
    (h : Word.startsNumeral allowed c rest = true) :
    (scan (c :: rest)).Written ∧ LongestPrefix numerals (scan (c :: rest)).chars (c :: rest) := by
  obtain ⟨hwritten, tail, htail, -⟩ := scan_spec h
  refine ⟨hwritten, mem_numerals.mpr ⟨_, hwritten, rfl⟩, ⟨tail, htail.symm⟩, ?_⟩
  intro v hv hprefix
  obtain ⟨n, hn, rfl⟩ := mem_numerals.mp hv
  obtain ⟨d, ds, hd⟩ := List.exists_cons_of_ne_nil hn.whole.1
  have hdigit : d.isDigit = true := hn.whole.2 d (by rw [hd]; exact List.mem_cons_self)
  have hchars (n : Numeral) : n.chars = (if n.negative then ['-'] else []) ++ n.body := chars_eq n
  have hsign (negative : Bool) (cs : List Char) :
      (scanUnsigned negative cs).negative = negative := by
    unfold scanUnsigned
    split <;> rfl
  rw [hchars n] at hprefix
  by_cases hminus : c = '-'
  · subst hminus
    have hscan : (scan ('-' :: rest)).chars = '-' :: (scanUnsigned true rest).body := by
      rw [hchars, show scan ('-' :: rest) = scanUnsigned true rest from rfl, hsign]
      rfl
    cases hneg : n.negative with
    | true =>
      rw [hneg] at hprefix
      have hle := scanUnsigned_longest true hn (List.cons_prefix_cons.mp hprefix).2
      rw [hscan, hchars n, hneg]
      exact Nat.succ_le_succ hle
    | false =>
      -- a numeral without a sign starts with a digit
      rw [hneg, body, hd] at hprefix
      obtain rfl : d = '-' := (List.cons_prefix_cons.mp hprefix).1
      cases hdigit
  · have hscan : (scan (c :: rest)).chars = (scanUnsigned false (c :: rest)).body := by
      have hunsigned : scan (c :: rest) = scanUnsigned false (c :: rest) := by
        unfold scan
        split
        · rename_i hcs
          exact absurd (List.cons.inj hcs).1 hminus
        · rfl
      rw [hchars, hunsigned, hsign]
      rfl
    cases hneg : n.negative with
    | true =>
      rw [hneg] at hprefix
      exact absurd (List.cons_prefix_cons.mp hprefix).1.symm hminus
    | false =>
      rw [hneg] at hprefix
      rw [hscan, hchars n, hneg]
      exact scanUnsigned_longest false hn hprefix

end Longest

end Numeral

end Dec
