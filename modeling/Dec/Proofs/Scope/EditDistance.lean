import Dec.Scope.Similar
import Mathlib.Order.Bounds.Basic

/-!
Edits of a text. The least number of edits that turn one text into another is given by a recursion over
both, which no single edit changes by more than one. The rows of the computation hold the values of that
recursion for the beginnings of the two texts, read backwards; reading backwards and exchanging the texts
change no number of edits.
-/
namespace Dec.EditDistance

inductive Edit : List Char → List Char → Prop
  | insert (front back : List Char) (c : Char) : Edit (front ++ back) (front ++ c :: back)
  | delete (front back : List Char) (c : Char) : Edit (front ++ c :: back) (front ++ back)
  | replace (front back : List Char) (c d : Char) : Edit (front ++ c :: back) (front ++ d :: back)

inductive Edits : Nat → List Char → List Char → Prop
  | none {cs : List Char} : Edits 0 cs cs
  | first {n : Nat} {cs mid ds : List Char} (edit : Edit cs mid) (later : Edits n mid ds) :
      Edits (n + 1) cs ds

/-- How many edits are needed, by what becomes of the first characters: that of the first text is taken
out, that of the second is put in, or the one becomes the other. -/
def least : List Char → List Char → Nat
  | [], ds => ds.length
  | c :: cs, [] => (c :: cs).length
  | c :: cs, d :: ds =>
    min (min (least cs (d :: ds) + 1) (least (c :: cs) ds + 1))
      (least cs ds + if c = d then 0 else 1)
termination_by cs ds => cs.length + ds.length

variable {cs ds mid : List Char} {c d : Char} {m n : Nat}

section Edits

theorem Edits.trans (h : Edits m cs mid) (h' : Edits n mid ds) : Edits (m + n) cs ds := by
  induction h with
  | none => rwa [Nat.zero_add]
  | first edit _ ih =>
    rw [Nat.add_right_comm]
    exact .first edit (ih h')

theorem Edit.edits (h : Edit cs ds) : Edits 1 cs ds := .first h .none

theorem Edit.symm (h : Edit cs ds) : Edit ds cs := by
  cases h with
  | insert front back c => exact .delete front back c
  | delete front back c => exact .insert front back c
  | replace front back c d => exact .replace front back d c

/-- Edits can be undone one by one. -/
theorem Edits.symm (h : Edits n cs ds) : Edits n ds cs := by
  induction h with
  | none => exact .none
  | first edit _ ih => exact ih.trans edit.symm.edits

theorem Edit.reverse (h : Edit cs ds) : Edit cs.reverse ds.reverse := by
  cases h with
  | insert front back c => simpa using Edit.insert back.reverse front.reverse c
  | delete front back c => simpa using Edit.delete back.reverse front.reverse c
  | replace front back c d => simpa using Edit.replace back.reverse front.reverse c d

theorem Edits.reverse (h : Edits n cs ds) : Edits n cs.reverse ds.reverse := by
  induction h with
  | none => exact .none
  | first edit _ ih => exact .first edit.reverse ih

theorem Edit.cons (h : Edit cs ds) (c : Char) : Edit (c :: cs) (c :: ds) := by
  cases h with
  | insert front back x => exact .insert (c :: front) back x
  | delete front back x => exact .delete (c :: front) back x
  | replace front back x y => exact .replace (c :: front) back x y

/-- A character in front is in no edit's way. -/
theorem Edits.cons (h : Edits n cs ds) (c : Char) : Edits n (c :: cs) (c :: ds) := by
  induction h with
  | none => exact .none
  | first edit _ ih => exact .first (edit.cons c) ih

/-- The smaller of two numbers of edits is one of them. -/
theorem Edits.min (h : Edits m cs ds) (h' : Edits n cs ds) : Edits (min m n) cs ds := by
  rcases Nat.le_total m n with hle | hle
  · rwa [Nat.min_eq_left hle]
  · rwa [Nat.min_eq_right hle]

theorem edits_nil_left (ds : List Char) : Edits ds.length [] ds := by
  induction ds with
  | nil => exact .none
  | cons d ds ih => exact .first (.insert [] [] d) (ih.cons d)

end Edits

section Recursion

theorem least_nil_left (ds : List Char) : least [] ds = ds.length := by
  rw [least]

theorem least_nil_right (cs : List Char) : least cs [] = cs.length := by
  cases cs with
  | nil => rw [least]
  | cons c cs => rw [least]

theorem least_cons_cons (c d : Char) (cs ds : List Char) :
    least (c :: cs) (d :: ds) =
      min (min (least cs (d :: ds) + 1) (least (c :: cs) ds + 1))
        (least cs ds + if c = d then 0 else 1) := by
  rw [least]

/-- As many edits as the recursion says are enough. -/
theorem edits_least (cs ds : List Char) : Edits (least cs ds) cs ds := by
  match cs, ds with
  | [], ds =>
    rw [least_nil_left]
    exact edits_nil_left ds
  | c :: cs, [] =>
    rw [least_nil_right]
    exact (edits_nil_left (c :: cs)).symm
  | c :: cs, d :: ds =>
    have hdelete : Edits (least cs (d :: ds) + 1) (c :: cs) (d :: ds) :=
      .first (.delete [] cs c) (edits_least cs (d :: ds))
    have hinsert : Edits (least (c :: cs) ds + 1) (c :: cs) (d :: ds) :=
      .first (.insert [] (c :: cs) d) ((edits_least (c :: cs) ds).cons d)
    have hreplace : Edits (least cs ds + if c = d then 0 else 1) (c :: cs) (d :: ds) := by
      by_cases hcd : c = d
      · rw [if_pos hcd, Nat.add_zero, hcd]
        exact (edits_least cs ds).cons d
      · rw [if_neg hcd]
        exact .first (.replace [] cs c d) ((edits_least cs ds).cons d)
    rw [least_cons_cons]
    exact (hdelete.min hinsert).min hreplace
termination_by cs.length + ds.length

theorem least_cons_le (c : Char) (cs ds : List Char) : least (c :: cs) ds ≤ least cs ds + 1 := by
  cases ds with
  | nil => simp [least_nil_right]
  | cons d ds =>
    rw [least_cons_cons]
    omega

theorem least_le_cons_right (cs : List Char) (d : Char) (ds : List Char) :
    least cs (d :: ds) ≤ least cs ds + 1 := by
  cases cs with
  | nil => simp [least_nil_left]
  | cons c cs =>
    rw [least_cons_cons]
    omega

theorem least_le_cons (c : Char) (cs ds : List Char) : least cs ds ≤ least (c :: cs) ds + 1 := by
  induction ds with
  | nil =>
    simp only [least_nil_right, List.length_cons]
    omega
  | cons d ds ih =>
    have hright := least_le_cons_right cs d ds
    rw [least_cons_cons]
    omega

theorem least_replace_le (c d : Char) (cs ds : List Char) :
    least (c :: cs) ds ≤ least (d :: cs) ds + 1 := by
  induction ds with
  | nil => simp [least_nil_right]
  | cons e ds ih =>
    rw [least_cons_cons, least_cons_cons]
    split_ifs <;> omega

/-- A bound that holds whatever is aimed at holds behind one more character. -/
theorem least_cons_le_of_le (h : ∀ ds, least cs ds ≤ least mid ds + 1) (c : Char) (ds : List Char) :
    least (c :: cs) ds ≤ least (c :: mid) ds + 1 := by
  induction ds with
  | nil =>
    have hnil := h []
    simp only [least_nil_right, List.length_cons] at hnil ⊢
    omega
  | cons d ds ih =>
    have hall := h (d :: ds)
    have hrest := h ds
    rw [least_cons_cons, least_cons_cons]
    omega

/-- No edit brings a text nearer to another one by more than one. -/
theorem Edit.least_le (h : Edit cs mid) (ds : List Char) : least cs ds ≤ least mid ds + 1 := by
  -- the induction is on what stands in front of the place of the edit
  cases h with
  | insert front back c =>
    induction front generalizing ds with
    | nil => exact least_le_cons c back ds
    | cons x front ih => exact least_cons_le_of_le ih x ds
  | delete front back c =>
    induction front generalizing ds with
    | nil => exact least_cons_le c back ds
    | cons x front ih => exact least_cons_le_of_le ih x ds
  | replace front back c d =>
    induction front generalizing ds with
    | nil => exact least_replace_le c d back ds
    | cons x front ih => exact least_cons_le_of_le ih x ds

theorem least_self (cs : List Char) : least cs cs = 0 := by
  induction cs with
  | nil => exact least_nil_left []
  | cons c cs ih => simp [least_cons_cons, ih]

/-- Fewer edits than the recursion says are not enough. -/
theorem Edits.least_le (h : Edits n cs ds) : least cs ds ≤ n := by
  induction h with
  | none => exact Nat.le_of_eq (least_self _)
  | first edit _ ih => exact (edit.least_le _).trans (Nat.succ_le_succ ih)

end Recursion

section Rows

/-- What one row holds: how far a text is from what has been passed of another, and from that with one
more after another of the characters ahead. Both are read backwards. -/
def row (cs : List Char) : (passed ahead : List Char) → List Nat
  | passed, [] => [least cs passed]
  | passed, d :: ahead => least cs passed :: row cs (d :: passed) ahead

theorem exists_row_eq_cons (cs passed ahead : List Char) :
    ∃ rest, row cs passed ahead = least cs passed :: rest := by
  cases ahead with
  | nil => exact ⟨[], rfl⟩
  | cons d ahead => exact ⟨_, rfl⟩

/-- A row is filled from its left entry and the row before. -/
theorem fillRow_row (c : Char) (cs passed ahead : List Char) :
    fillRow c (least (c :: cs) passed) (row cs passed ahead) ahead = row (c :: cs) passed ahead := by
  induction ahead generalizing passed with
  | nil => rfl
  | cons d ahead ih =>
    have hnext := ih (d :: passed)
    obtain ⟨above, habove⟩ := exists_row_eq_cons cs (d :: passed) ahead
    rw [habove] at hnext
    rw [row, row, habove, fillRow, ← hnext, least_cons_cons]

theorem nextRow_row (c : Char) (cs ds : List Char) :
    nextRow ds (row cs [] ds) c = row (c :: cs) [] ds := by
  obtain ⟨rest, hrow⟩ := exists_row_eq_cons cs [] ds
  have hleft : (row cs [] ds).headD 0 + 1 = least (c :: cs) [] := by
    rw [hrow, List.headD_cons, least_nil_right, least_nil_right, List.length_cons]
  rw [nextRow, hleft, fillRow_row]

/-- The rows pass the first text from its beginning on. -/
theorem foldl_nextRow (cs passed ds : List Char) :
    cs.foldl (nextRow ds) (row passed [] ds) = row (cs.reverse ++ passed) [] ds := by
  induction cs generalizing passed with
  | nil => rfl
  | cons c cs ih => rw [List.foldl_cons, nextRow_row, ih, List.reverse_cons, List.append_assoc,
      List.singleton_append]

/-- The first row counts the characters that have to be put in. -/
theorem row_nil (passed ahead : List Char) :
    row [] passed ahead = List.range' passed.length (ahead.length + 1) := by
  induction ahead generalizing passed with
  | nil => simp [row, least_nil_left]
  | cons d ahead ih =>
    rw [row, ih, least_nil_left, List.length_cons, List.length_cons, List.range'_succ,
      List.range'_succ, List.range'_succ]

theorem getLastD_row (cs passed ahead : List Char) :
    (row cs passed ahead).getLastD 0 = least cs (ahead.reverse ++ passed) := by
  induction ahead generalizing passed with
  | nil => rfl
  | cons d ahead ih =>
    obtain ⟨rest, hrow⟩ := exists_row_eq_cons cs (d :: passed) ahead
    have hnext := ih (d :: passed)
    rw [hrow] at hnext
    rw [row, hrow, List.reverse_cons, List.append_assoc, List.singleton_append, ← hnext]
    rfl

theorem byRows_eq (cs ds : List Char) : byRows cs ds = least cs.reverse ds.reverse := by
  have hfirst : List.range (ds.length + 1) = row [] [] ds := by
    rw [row_nil, List.range_eq_range', List.length_nil]
  rw [byRows, hfirst, foldl_nextRow, getLastD_row, List.append_nil, List.append_nil]

/-- The last entry of the last row is the least number of edits. -/
theorem isLeast_byRows (cs ds : List Char) : IsLeast {n | Edits n cs ds} (byRows cs ds) := by
  rw [byRows_eq]
  constructor
  · simpa using (edits_least cs.reverse ds.reverse).reverse
  · exact fun n h => h.reverse.least_le

/-- The distance is the least number of edits, whichever text the rows run over. -/
theorem isLeast_distance (cs ds : List Char) : IsLeast {n | Edits n cs ds} (distance cs ds) := by
  rw [distance]
  split
  · have hswap : {n | Edits n cs ds} = {n | Edits n ds cs} :=
      Set.ext fun n => ⟨Edits.symm, Edits.symm⟩
    rw [hswap]
    exact isLeast_byRows ds cs
  · exact isLeast_byRows cs ds

end Rows

end Dec.EditDistance
