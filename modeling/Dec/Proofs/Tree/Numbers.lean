import Dec.Proofs.Tree.Sourced

namespace Dec

namespace Number

/-- The integers that can be written have so many digits at most. -/
theorem writable_int_iff {n : Int} :
    (int n).Writable ↔ Decimal.digitCount n.natAbs ≤ maxIntegerDigits :=
  (Nat.length_repr_le_iff (by decide)).symm

theorem exists_text_of_writable {v : Number} (hv : v.Writable) : ∃ text, v.text? = some text := by
  cases v with
  | int n =>
    rw [Writable] at hv
    exact ⟨decimalText n, by rw [text?, decimalText?, if_pos hv]⟩
  | float x => exact ⟨x.text, rfl⟩

end Number

namespace Node

mutual

def numbers : Node → List Number
  | literal _ value => [value]
  | var .. => []
  | binary _ _ left right => left.numbers ++ right.numbers
  | assign _ _ _ value => value.numbers
  | ret _ value => value.numbers
  | block _ _ body => allNumbers body

def allNumbers : List Node → List Number
  | [] => []
  | n :: rest => n.numbers ++ allNumbers rest

end

/-- The numbers of nodes are those of each of them. -/
theorem mem_allNumbers {body : List Node} {v : Number} :
    v ∈ allNumbers body ↔ ∃ n ∈ body, v ∈ n.numbers := by
  induction body with
  | nil => simp [allNumbers]
  | cons n rest ih => simp [allNumbers, ih]

/-- The numbers of an expression of a source text can be written. -/
theorem SourceExpression.writable {n : Node} (h : n.SourceExpression) :
    ∀ v ∈ n.numbers, v.Writable := by
  induction h with
  | literal tag hv => exact List.forall_mem_singleton.mpr hv
  | var tag hn => simp [numbers]
  | binary tag op hl hr ihl ihr => exact List.forall_mem_append.mpr ⟨ihl, ihr⟩

theorem SourceStatement.writable {n : Node} (h : n.SourceStatement) :
    ∀ v ∈ n.numbers, v.Writable := by
  induction h with
  | assign tag target hn hv => exact hv.writable
  | ret tag hv => exact hv.writable
  | block tag table hbody ih =>
    intro v hv
    obtain ⟨n, hn, hv⟩ := mem_allNumbers.mp hv
    exact ih n hn v hv

section Writing

variable (indent : String)

mutual

/-- A tree whose numbers can be written is written unless it is too deep. -/
theorem exists_write (n : Node) (h : ∀ v ∈ n.numbers, v.Writable) (level : Int) :
    ∃ text, ∀ budget, n.write indent budget level =
      if n.depth .writing ≤ budget then .ok text else .error .tooDeep := by
  cases n with
  | literal tag value =>
    obtain ⟨text, htext⟩ := Number.exists_text_of_writable (h value (by simp [numbers]))
    refine ⟨text, ?_⟩
    intro budget
    rw [write, htext, depth, if_pos (Nat.zero_le budget)]
  | var tag name =>
    refine ⟨name, ?_⟩
    intro budget
    rw [write, depth, if_pos (Nat.zero_le budget)]
  | binary tag op left right =>
    obtain ⟨hl, hr⟩ := List.forall_mem_append.mp h
    obtain ⟨ltext, hltext⟩ := exists_write left hl 0
    obtain ⟨rtext, hrtext⟩ := exists_write right hr 0
    refine ⟨"(" ++ ltext ++ " " ++ op.symbol ++ " " ++ rtext ++ ")", ?_⟩
    intro budget
    rw [write, hltext, hrtext, depth, WalkCost.writing_operator]
    -- too deep here, on the left, on the right, or nowhere
    split_ifs <;> first | rfl | omega
  | assign tag target name value =>
    obtain ⟨text, htext⟩ := exists_write value h level
    refine ⟨indentation indent level ++ name ++ " := " ++ text, ?_⟩
    intro budget
    rw [write, htext, depth, WalkCost.writing_statement]
    split_ifs <;> first | rfl | omega
  | ret tag value =>
    obtain ⟨text, htext⟩ := exists_write value h level
    refine ⟨indentation indent level ++ "return " ++ text, ?_⟩
    intro budget
    rw [write, htext, depth, WalkCost.writing_statement]
    split_ifs <;> first | rfl | omega
  | block tag table body =>
    obtain ⟨lines, hlines⟩ := exists_writeAll body h (level + 1)
    refine ⟨"\n".intercalate ((indentation indent level ++ "\x7b") ::
      lines ++ [indentation indent level ++ "\x7d"]), ?_⟩
    intro budget
    rw [write, hlines, depth, WalkCost.writing_block]
    split_ifs <;> first | rfl | omega

theorem exists_writeAll (body : List Node) (h : ∀ v ∈ allNumbers body, v.Writable) (level : Int) :
    ∃ lines, ∀ budget, writeAll indent budget level body =
      if maxDepth .writing body ≤ budget then .ok lines else .error .tooDeep := by
  cases body with
  | nil =>
    refine ⟨[], ?_⟩
    intro budget
    rw [writeAll, maxDepth, if_pos (Nat.zero_le budget)]
  | cons n rest =>
    obtain ⟨hn, hrest⟩ := List.forall_mem_append.mp h
    obtain ⟨text, htext⟩ := exists_write n hn level
    obtain ⟨lines, hlines⟩ := exists_writeAll rest hrest level
    refine ⟨text :: lines, ?_⟩
    intro budget
    rw [writeAll, htext, hlines, maxDepth]
    split_ifs <;> first | rfl | omega

end

end Writing

end Node

end Dec
