import Dec.Proofs.Token.Literal
import Dec.Proofs.Tree.Numbers
import Dec.Proofs.Tree.Shape

namespace Dec

namespace Node

mutual

def names : Node → List String
  | literal .. => []
  | var _ name => [name]
  | binary _ _ left right => left.names ++ right.names
  | assign _ _ name value => name :: value.names
  | ret _ value => value.names
  | block _ _ body => allNames body

def allNames : List Node → List String
  | [] => []
  | n :: rest => n.names ++ allNames rest

end

/-- The names of nodes are those of each of them. -/
theorem mem_allNames {body : List Node} {name : String} :
    name ∈ allNames body ↔ ∃ n ∈ body, name ∈ n.names := by
  induction body with
  | nil => simp [allNames]
  | cons n rest ih => simp [allNames, ih]

mutual

def words : Node → List Word
  | literal _ value => [value.literal]
  | var _ name => [.ofName name.toList]
  | binary _ op left right =>
    .ofSign .leftParen ::
      (left.words ++ .ofSign (.operator op) :: (right.words ++ [.ofSign .rightParen]))
  | assign _ _ name value => .ofName name.toList :: .ofSign .assign :: value.words
  | ret _ value => .ofName Word.returnWord :: value.words
  | block _ _ body => .ofSign .leftBrace :: (allWords body ++ [.ofSign .rightBrace])

def allWords : List Node → List Word
  | [] => []
  | n :: rest => n.words ++ allWords rest

end

end Node

/-- Before anything that ends a word and is read in one way whatever comes before it, a text is read as
the given words. -/
def ReadsAs (allowed : Bool) (text : String) (ws : List Word) : Prop :=
  ∀ ⦃rest : List Char⦄ ⦃more : List Word⦄, EndsWord rest → (∀ allowed, Lexes allowed rest more) →
    Lexes allowed (text.toList ++ rest) (ws ++ more)

namespace ReadsAs

theorem literal {value : Number} (hv : value.Writable) {text : String}
    (ht : value.text? = some text) : ReadsAs true text [value.literal] := by
  intro rest more he hl
  exact Lexes.literal hv ht he (hl false)

/-- A name is read to its end, and so is the word that is none. -/
theorem name {name : String} (hn : Word.isName name.toList = true) (allowed : Bool) :
    ReadsAs allowed name [.ofName name.toList] := by
  intro rest more he hl
  by_cases hword : name.toList = Word.returnWord
  · rw [hword]
    exact Lexes.returnWord he (hl true)
  · exact Lexes.name hn hword he (hl false)

/-- An operation is read from its opening parenthesis to its closing one. -/
theorem binary {left right : String} {lws rws : List Word} (hleft : ReadsAs true left lws)
    (hright : ReadsAs true right rws) (op : BinaryOp) :
    ReadsAs true ("(" ++ left ++ " " ++ op.symbol ++ " " ++ right ++ ")")
      (.ofSign .leftParen :: (lws ++ .ofSign (.operator op) :: (rws ++ [.ofSign .rightParen]))) := by
  intro rest more he hl
  -- the pieces in the order in which their readings rest on each other, the last one first
  have hclosed (allowed : Bool) : Lexes allowed (')' :: rest) (.ofSign .rightParen :: more) :=
    (hl false).rightParen
  have hr := (hright (EndsWord.paren rest) hclosed).space
  have hop (allowed : Bool) : Lexes allowed _ _ := (hr.operator op).space
  have hopened : Lexes true _ _ := (hleft (EndsWord.space _) hop).leftParen
  simpa [String.toList_append] using hopened

variable {front value : String} {vws : List Word}
  (hf : ∀ c ∈ front.toList, Text.isBlank c = true) (hvalue : ReadsAs true value vws)

include hf hvalue

/-- An assignment is read from its name on, wherever it stands. -/
theorem assign {target : String} (hn : Word.isName target.toList = true) (allowed : Bool) :
    ReadsAs allowed (front ++ target ++ " := " ++ value)
      (.ofName target.toList :: .ofSign .assign :: vws) := by
  intro rest more he hl
  have hsign (allowed : Bool) : Lexes allowed _ _ := (hvalue he hl).space.assign.space
  have hname : Lexes allowed _ _ := name hn allowed (EndsWord.space _) hsign
  simpa [String.toList_append] using hname.blanks hf

/-- A return is read from its word on, wherever it stands. -/
theorem ret (allowed : Bool) :
    ReadsAs allowed (front ++ "return " ++ value) (.ofName Word.returnWord :: vws) := by
  intro rest more he hl
  have hword : Lexes allowed _ _ := Lexes.returnWord (EndsWord.space _) (hvalue he hl).space
  have hsplit : "return ".toList = Word.returnWord ++ [' '] := by decide
  simpa [String.toList_append, hsplit] using hword.blanks hf

end ReadsAs

namespace Node

variable (indent : String)

/-- An expression is written unless it is too deep, and its text is read as its words where a minus
may be a sign. -/
theorem write_eq_of_isExpression (n : Node) (h : n.isExpression = true)
    (hnames : ∀ name ∈ n.names, Word.isName name.toList = true)
    (hnumbers : ∀ v ∈ n.numbers, v.Writable) (level : Int) :
    ∃ text, (∀ budget, n.write indent budget level =
      if n.depth .writing ≤ budget then .ok text else .error .tooDeep) ∧
      ReadsAs true text n.words := by
  cases n with
  | literal tag value =>
    have hv := hnumbers value (List.mem_singleton.mpr rfl)
    obtain ⟨text, htext⟩ := Number.exists_text_of_writable hv
    refine ⟨text, ?_, ReadsAs.literal hv htext⟩
    intro budget
    rw [write, htext, depth, if_pos (Nat.zero_le budget)]
  | var tag name =>
    refine ⟨name, ?_, ReadsAs.name (hnames name (List.mem_singleton.mpr rfl)) true⟩
    intro budget
    rw [write, depth, if_pos (Nat.zero_le budget)]
  | binary tag op left right =>
    rw [isExpression, Bool.and_eq_true] at h
    obtain ⟨hln, hrn⟩ := List.forall_mem_append.mp hnames
    obtain ⟨hlv, hrv⟩ := List.forall_mem_append.mp hnumbers
    obtain ⟨ltext, hlw, hlr⟩ := write_eq_of_isExpression left h.1 hln hlv 0
    obtain ⟨rtext, hrw, hrr⟩ := write_eq_of_isExpression right h.2 hrn hrv 0
    refine ⟨_, ?_, hlr.binary hrr op⟩
    intro budget
    rw [write, hlw, hrw, depth, WalkCost.writing_operator]
    -- too deep here, on the left, on the right, or nowhere
    split_ifs <;> first | rfl | omega
  | assign tag target name value => cases h
  | ret tag value => cases h
  | block tag table body => cases h

theorem isBlank_of_mem_indentation (hi : ∀ c ∈ indent.toList, Text.isBlank c = true) (level : Int) :
    ∀ c ∈ (indentation indent level).toList, Text.isBlank c = true := by
  intro c hc
  rw [indentation, String.toList_join, List.mem_flatMap] at hc
  obtain ⟨step, hstep, hc⟩ := hc
  rw [List.eq_of_mem_replicate hstep] at hc
  exact hi c hc

def lineChars (lines : List String) : List Char := lines.flatMap fun line => '\n' :: line.toList

theorem toList_intercalate_lines (first : String) (lines : List String) :
    ("\n".intercalate (first :: lines)).toList = first.toList ++ lineChars lines := by
  induction lines generalizing first with
  | nil => simp [lineChars]
  | cons line lines ih =>
    rw [String.intercalate_cons_cons, String.toList_append, String.toList_append, ih]
    simp [lineChars]

theorem lineChars_endsWord (lines : List String) {rest : List Char} (he : EndsWord rest) :
    EndsWord (lineChars lines ++ rest) := by
  cases lines with
  | nil => exact he
  | cons line lines => exact EndsWord.newline _

def IsLine (n : Node) : Prop :=
  ∀ level : Int, ∃ text, (∀ budget, n.write indent budget level =
    if n.depth .writing ≤ budget then .ok text else .error .tooDeep) ∧
    ∀ allowed, ReadsAs allowed text n.words

variable {indent}

mutual

/-- Statements are written as lines. -/
theorem isLine_of_isStatement (hi : ∀ c ∈ indent.toList, Text.isBlank c = true) (n : Node)
    (h : n.isStatement = true)
    (hnames : ∀ name ∈ n.names, Word.isName name.toList = true)
    (hnumbers : ∀ v ∈ n.numbers, v.Writable) : n.IsLine indent := by
  intro level
  have hfront := isBlank_of_mem_indentation indent hi level
  cases n with
  | literal tag value => cases h
  | var tag name => cases h
  | binary tag op left right => cases h
  | assign tag target name value =>
    obtain ⟨hn, hvn⟩ := List.forall_mem_cons.mp hnames
    obtain ⟨text, hw, hr⟩ := value.write_eq_of_isExpression indent h hvn hnumbers level
    refine ⟨_, ?_, ReadsAs.assign hfront hr hn⟩
    intro budget
    rw [write, hw, depth, WalkCost.writing_statement]
    split_ifs <;> first | rfl | omega
  | ret tag value =>
    obtain ⟨text, hw, hr⟩ := value.write_eq_of_isExpression indent h hnames hnumbers level
    refine ⟨_, ?_, ReadsAs.ret hfront hr⟩
    intro budget
    rw [write, hw, depth, WalkCost.writing_statement]
    split_ifs <;> first | rfl | omega
  | block tag table body =>
    obtain ⟨lines, hw, hr⟩ := writeAll_eq_of_allAreStatements hi body h hnames hnumbers (level + 1)
    refine ⟨"\n".intercalate ((indentation indent level ++ "\x7b") ::
      lines ++ [indentation indent level ++ "\x7d"]), ?_, ?_⟩
    · intro budget
      rw [write, hw, depth, WalkCost.writing_block]
      split_ifs <;> first | rfl | omega
    · intro allowed rest more he hl
      have hclosed (allowed : Bool) : Lexes allowed _ _ :=
        ((hl false).rightBrace.blanks hfront).newline
      have hopened : Lexes allowed _ _ := (hr (EndsWord.newline _) hclosed true).leftBrace
      have htext := hopened.blanks hfront
      rw [List.cons_append, toList_intercalate_lines]
      simpa [lineChars, words, String.toList_append] using htext

/-- The lines of statements are read as their words, each line behind a line feed. -/
theorem writeAll_eq_of_allAreStatements (hi : ∀ c ∈ indent.toList, Text.isBlank c = true)
    (body : List Node) (h : allAreStatements body = true)
    (hnames : ∀ name ∈ allNames body, Word.isName name.toList = true)
    (hnumbers : ∀ v ∈ allNumbers body, v.Writable) (level : Int) :
    ∃ lines, (∀ budget, writeAll indent budget level body =
      if maxDepth .writing body ≤ budget then .ok lines else .error .tooDeep) ∧
      ∀ ⦃rest more⦄, EndsWord rest → (∀ allowed, Lexes allowed rest more) →
        ∀ allowed, Lexes allowed (lineChars lines ++ rest) (allWords body ++ more) := by
  cases body with
  | nil =>
    refine ⟨[], ?_, fun rest more _ hl => hl⟩
    intro budget
    rw [writeAll, maxDepth, if_pos (Nat.zero_le budget)]
  | cons n body =>
    rw [allAreStatements, Bool.and_eq_true] at h
    obtain ⟨hn, hns⟩ := List.forall_mem_append.mp hnames
    obtain ⟨hv, hvs⟩ := List.forall_mem_append.mp hnumbers
    obtain ⟨text, hw, hr⟩ := isLine_of_isStatement hi n h.1 hn hv level
    obtain ⟨lines, hws, hrs⟩ := writeAll_eq_of_allAreStatements hi body h.2 hns hvs level
    refine ⟨text :: lines, ?_, ?_⟩
    · intro budget
      rw [writeAll, hw, hws, maxDepth]
      split_ifs <;> first | rfl | omega
    -- a closing brace or another statement follows, and either may come after any word
    · intro rest more he hl allowed
      have hfirst := (hr allowed (lineChars_endsWord lines he) (hrs he hl)).newline
      simpa [lineChars, allWords] using hfirst

end

/-- An expression, or a statement, whose names and numbers can be written, is written unless it is too
deep, and its text is read as its words. -/
theorem exists_source_of_shape {n : Node} (h : n.isExpression = true ∨ n.isStatement = true)
    (hnames : ∀ name ∈ n.names, Word.isName name.toList = true)
    (hnumbers : ∀ v ∈ n.numbers, v.Writable) {indent : String}
    (hi : ∀ c ∈ indent.toList, Text.isBlank c = true) (level : Int) :
    ∃ text, (∀ budget, n.source budget indent level =
      if n.depth .writing ≤ budget then .ok text else .error .tooDeep) ∧
      Lexes true text.toList n.words := by
  have hread : ∃ text, (∀ budget, n.write indent budget level =
      if n.depth .writing ≤ budget then .ok text else .error .tooDeep) ∧
      ReadsAs true text n.words := by
    rcases h with h | h
    · exact n.write_eq_of_isExpression indent h hnames hnumbers level
    · obtain ⟨text, hw, hr⟩ := isLine_of_isStatement hi n h hnames hnumbers level
      exact ⟨text, hw, hr true⟩
  obtain ⟨text, hw, hr⟩ := hread
  have hempty : EndsWord [] := nofun
  have hl := hr hempty Lexes.nil
  rw [List.append_nil, List.append_nil] at hl
  exact ⟨text, hw, hl⟩

section Sourced

theorem SourceExpression.isExpression {n : Node} (h : n.SourceExpression) :
    n.isExpression = true := by
  induction h with
  | literal tag hv => rfl
  | var tag hn => rfl
  | binary tag op hl hr ihl ihr => exact Bool.and_eq_true_iff.mpr ⟨ihl, ihr⟩

/-- The names in an expression of a source text are read as names. -/
theorem SourceExpression.isName {n : Node} (h : n.SourceExpression) :
    ∀ name ∈ n.names, Word.isName name.toList = true := by
  induction h with
  | literal tag hv => simp [names]
  | var tag hn => exact List.forall_mem_singleton.mpr hn.isName
  | binary tag op hl hr ihl ihr => exact List.forall_mem_append.mpr ⟨ihl, ihr⟩

theorem SourceStatement.isStatement {n : Node} (h : n.SourceStatement) : n.isStatement = true := by
  induction h with
  | assign tag target hn hv => exact hv.isExpression
  | ret tag hv => exact hv.isExpression
  | block tag table hbody ih => exact allAreStatements_iff.mpr ih

theorem SourceStatement.isName {n : Node} (h : n.SourceStatement) :
    ∀ name ∈ n.names, Word.isName name.toList = true := by
  induction h with
  | assign tag target hn hv => exact List.forall_mem_cons.mpr ⟨hn.isName, hv.isName⟩
  | ret tag hv => exact hv.isName
  | block tag table hbody ih =>
    intro name hname
    obtain ⟨n, hn, hname⟩ := mem_allNames.mp hname
    exact ih n hn name hname

end Sourced

end Node

end Dec
