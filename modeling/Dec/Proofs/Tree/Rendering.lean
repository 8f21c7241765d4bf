import Dec.Proofs.Tree.Refusal
import Dec.Proofs.Tree.Writing

/-!
The source texts of trees that were built. Two things are in the way of such a text: its depth, which
is reported, and an integer of too many digits, which builders take and nothing reports. Any other
number is read back from its text as the literal that it was, alone and among the words of a tree.
-/
namespace Dec

namespace Number

/-- The numbers without a text are the integers of too many digits. -/
theorem text?_eq_none_iff {v : Number} :
    v.text? = none ↔ ∃ i, v = .int i ∧ maxIntegerDigits < Decimal.digitCount i.natAbs := by
  cases v with
  | int n =>
    have hlong : ¬ n.natAbs < 10 ^ maxIntegerDigits ↔
        maxIntegerDigits < Decimal.digitCount n.natAbs :=
      (not_congr writable_int_iff).trans Nat.not_le
    rw [text?, decimalText?, ite_eq_right_iff]
    simpa using hlong
  | float x => simp [text?]

/-- A finite number that has a text can be written. -/
theorem writable_of_text?_ne_none {v : Number} (hv : v.isFinite = true) (ht : v.text? ≠ none) :
    v.Writable := by
  cases v with
  | int n =>
    by_contra hlong
    have hdigits := Nat.not_le.mp (mt writable_int_iff.mpr hlong)
    exact ht (text?_eq_none_iff.mpr ⟨n, rfl, hdigits⟩)
  | float x => exact hv

/-- The text of a number that can be written is one word, its literal. -/
theorem tokenize_text {v : Number} (hv : v.Writable) {text : String} (ht : v.text? = some text)
    (file : String) :
    ∃ t place, tokenize text file = .ok [t, .endOfInput place] ∧ t.word = v.literal := by
  have hempty : EndsWord [] := nofun
  have hlexes := Lexes.literal hv ht hempty (Lexes.nil false)
  rw [List.append_nil] at hlexes
  obtain ⟨ts, place, htokens, hwords, -⟩ := tokenize_of_lexes hlexes file
  obtain ⟨t, rfl, hword⟩ := List.map_eq_singleton_iff.mp hwords
  exact ⟨t, place, htokens, hword⟩

end Number

section Outcome

inductive Renders {α : Type} (numbers : List Number) (depth budget : Nat) :
    Except SourceFault α → Prop where
  | done {text : α} (hdepth : depth ≤ budget) (hnumbers : ∀ v ∈ numbers, v.text? ≠ none) :
      Renders numbers depth budget (.ok text)
  | tooDeep (hdepth : budget < depth) : Renders numbers depth budget (.error .tooDeep)
  | integerTooLong {v : Number} (hv : v ∈ numbers) (hlong : v.text? = none) :
      Renders numbers depth budget (.error .integerTooLong)

namespace Renders

variable {α β γ : Type} {numbers more : List Number} {depth other budget : Nat}
  {first : Except SourceFault α} {second : Except SourceFault β}

/-- A node takes its share of the budget before its parts are written. -/
theorem within {cost : Nat} (h : Renders numbers depth (budget - cost) first) :
    Renders numbers (depth + cost) budget (if budget < cost then .error .tooDeep else first) := by
  by_cases hcost : budget < cost
  · rw [if_pos hcost]
    exact tooDeep (by omega)
  · rw [if_neg hcost]
    cases h with
    | done hdepth hnumbers => exact done (by omega) hnumbers
    | tooDeep hdepth => exact tooDeep (by omega)
    | integerTooLong hv hlong => exact integerTooLong hv hlong

theorem bind_pure (h : Renders numbers depth budget first) (f : α → β) :
    Renders numbers depth budget (first >>= fun a => pure (f a)) := by
  cases h with
  | done hdepth hnumbers => exact done hdepth hnumbers
  | tooDeep hdepth => exact tooDeep hdepth
  | integerTooLong hv hlong => exact integerTooLong hv hlong

/-- Two parts are written one after the other within one budget. -/
theorem bind_bind_pure (h : Renders numbers depth budget first) (h' : Renders more other budget second)
    (f : α → β → γ) :
    Renders (numbers ++ more) (max depth other) budget
      (first >>= fun a => second >>= fun b => pure (f a b)) := by
  cases h with
  | tooDeep hdepth => exact tooDeep (lt_max_of_lt_left hdepth)
  | integerTooLong hv hlong => exact integerTooLong (List.mem_append_left _ hv) hlong
  | done hdepth hnumbers =>
    cases h' with
    | tooDeep hdepth' => exact tooDeep (lt_max_of_lt_right hdepth')
    | integerTooLong hv hlong => exact integerTooLong (List.mem_append_right _ hv) hlong
    | done hdepth' hnumbers' =>
      exact done (max_le hdepth hdepth') (List.forall_mem_append.mpr ⟨hnumbers, hnumbers'⟩)

end Renders

namespace Node

variable (indent : String)

mutual

/-- Whatever the shape of a tree, only its depth and its integers are in the way of its text. -/
theorem write_renders (n : Node) (budget : Nat) (level : Int) :
    Renders n.numbers (n.depth .writing) budget (n.write indent budget level) := by
  cases n with
  | literal tag value =>
    rw [write, numbers, depth]
    cases htext : value.text? with
    | some text => exact .done (Nat.zero_le budget) (by simp [htext])
    | none => exact .integerTooLong List.mem_cons_self htext
  | var tag name => exact .done (Nat.zero_le budget) (by simp [numbers])
  | binary tag op left right =>
    have hleft := write_renders left (budget - operatorCost) 0
    have hright := write_renders right (budget - operatorCost) 0
    rw [write, numbers, depth, WalkCost.writing_operator]
    exact (hleft.bind_bind_pure hright _).within
  | assign tag target name value =>
    have hvalue := write_renders value (budget - statementCost) level
    rw [write, numbers, depth, WalkCost.writing_statement]
    exact (hvalue.bind_pure _).within
  | ret tag value =>
    have hvalue := write_renders value (budget - statementCost) level
    rw [write, numbers, depth, WalkCost.writing_statement]
    exact (hvalue.bind_pure _).within
  | block tag table body =>
    have hbody := writeAll_renders body (budget - blockCost) (level + 1)
    rw [write, numbers, depth, WalkCost.writing_block]
    exact (hbody.bind_pure _).within

theorem writeAll_renders (body : List Node) (budget : Nat) (level : Int) :
    Renders (allNumbers body) (maxDepth .writing body) budget (writeAll indent budget level body) := by
  cases body with
  | nil => exact .done (Nat.zero_le budget) (by simp [allNumbers])
  | cons n rest =>
    have hfirst := write_renders n budget level
    have hrest := writeAll_renders rest budget level
    rw [writeAll, allNumbers, maxDepth]
    exact hfirst.bind_bind_pure hrest _

end

end Node

end Outcome

section Building

def Creation.parts : Creation (Option Node) → List (Option Node)
  | .literal _ => []
  | .var _ => []
  | .binary _ left right => [left, right]
  | .assign target value => [target, value]
  | .ret value => [value]
  | .block body _ => body

/-- The trees that the making builder makes of nothing, one request after another. -/
inductive Node.Buildable : Node → Prop where
  | made {request : Creation (Option Node)} {location : Option Location} {f f' : Forest} {n : Node}
      (hparts : ∀ m, some m ∈ request.parts → Buildable m)
      (h : Builder.making.create request location f = (.ok (some n), f')) : Buildable n

namespace Forest

/-- A block gets the statements that were asked for when none is missing. -/
theorem adoptAll_eq_some {owner : Owner} {body : List (Option Node)} {f : Forest}
    {children : List Node} (h : (f.adoptAll owner body).1 = some children) :
    body = children.map some := by
  induction body generalizing f children with
  | nil =>
    cases h
    rfl
  | cons part rest ih =>
    cases part with
    | none => cases h
    | some child =>
      obtain ⟨others, hothers, rfl⟩ := Option.map_eq_some_iff.mp h
      rw [ih hothers, List.map_cons]

/-- The numbers of a node that was made are those of its parts, unless it is a literal, whose number is
finite. -/
theorem numbers_of_make {request : Creation (Option Node)} {location : Option Location}
    {f f' : Forest} {n : Node} (h : f.make location request = (.ok n, f')) {v : Number}
    (hv : v ∈ n.numbers) : v.isFinite = true ∨ ∃ m, some m ∈ request.parts ∧ v ∈ m.numbers := by
  cases request with
  | literal value =>
    left
    simp only [make] at h
    split at h
    · cases h
      rw [List.mem_singleton.mp hv]
      rfl
    · split at h
      · rename_i hfinite
        cases h
        rw [List.mem_singleton.mp hv]
        exact hfinite
      · cases h
    · cases h
  | var name =>
    cases h
    cases hv
  | binary op left right =>
    right
    cases left with
    | none => cases h
    | some left =>
      cases right with
      | none => cases h
      | some right =>
        cases h
        rcases List.mem_append.mp hv with hv | hv
        · exact ⟨left, List.mem_cons_self, hv⟩
        · exact ⟨right, List.mem_cons_of_mem _ List.mem_cons_self, hv⟩
  | assign target value =>
    right
    simp only [make] at h
    split at h
    · rename_i value
      cases h
      exact ⟨value, List.mem_cons_of_mem _ List.mem_cons_self, hv⟩
    · cases h
    · cases h
  | ret value =>
    right
    cases value with
    | none => cases h
    | some value =>
      cases h
      exact ⟨value, List.mem_cons_self, hv⟩
  | block body table =>
    right
    obtain ⟨t, g, -, hmake⟩ := f.make_block location body table
    rw [hmake] at h
    split at h
    · rename_i children left hadopt
      cases h
      obtain ⟨m, hm, hv⟩ := Node.mem_allNumbers.mp hv
      refine ⟨m, ?_, hv⟩
      rw [Creation.parts, adoptAll_eq_some (congrArg Prod.fst hadopt)]
      exact List.mem_map_of_mem hm
    · cases h

end Forest

/-- The making builder meets the requests whose node can be made. -/
theorem Builder.making_create_eq_ok {request : Creation (Option Node)} {location : Option Location}
    {f f' : Forest} {n : Node} (h : making.create request location f = (.ok (some n), f')) :
    f.make location request = (.ok n, f') := by
  change ((f.make location request).1.map some, (f.make location request).2) = _ at h
  rcases hmade : f.make location request with ⟨fault | m, left⟩
  · rw [hmade] at h
    cases h
  · rw [hmade] at h
    cases h
    rfl

/-- A tree that was built has finite numbers only. -/
theorem Node.Buildable.isFinite {n : Node} (h : n.Buildable) :
    ∀ v ∈ n.numbers, v.isFinite = true := by
  induction h with
  | made hparts h ih =>
    intro v hv
    rcases Forest.numbers_of_make (Builder.making_create_eq_ok h) hv with hfinite | ⟨m, hm, hv⟩
    · exact hfinite
    · exact ih m hm v hv

end Building

section Literals

namespace Word

def isLiteral (w : Word) : Bool := w.kind.isLiteral

theorem isLiteral_ofSign (kind : TokenKind) : (ofSign kind).isLiteral = kind.isLiteral := rfl

theorem isLiteral_ofName (name : List Char) : (ofName name).isLiteral = false := by
  unfold ofName
  split <;> rfl

theorem isLiteral_literal (v : Number) : v.literal.isLiteral = true := by
  cases v <;> rfl

end Word

namespace Node

open Word in
mutual

/-- The literals among the words of a tree are those of its numbers, in order. -/
theorem filter_words (n : Node) : n.words.filter Word.isLiteral = n.numbers.map Number.literal := by
  cases n with
  | literal tag value => simp [words, numbers, isLiteral_literal]
  | var tag name => simp [words, numbers, isLiteral_ofName]
  | binary tag op left right =>
    simp [words, numbers, isLiteral_ofSign, TokenKind.isLiteral, filter_words left,
      filter_words right]
  | assign tag target name value =>
    simp [words, numbers, isLiteral_ofSign, TokenKind.isLiteral, isLiteral_ofName,
      filter_words value]
  | ret tag value => simp [words, numbers, isLiteral_ofName, filter_words value]
  | block tag table body =>
    simp [words, numbers, isLiteral_ofSign, TokenKind.isLiteral, filter_allWords body]

theorem filter_allWords (body : List Node) :
    (allWords body).filter Word.isLiteral = (allNumbers body).map Number.literal := by
  cases body with
  | nil => rfl
  | cons n rest => simp [allWords, allNumbers, filter_words n, filter_allWords rest]

end

end Node

end Literals

namespace Node

/-- What comes of the writing of a tree that was built. There is a text unless the tree is too deep,
which is reported, or has an integer of too many digits. Each number that has a text is read back from
it as the same literal, and so are all numbers from the text of an expression or a statement whose
names are names, in their order among the words of the tree. -/
theorem source_of_buildable {n : Node} (h : n.Buildable) :
    (∀ v ∈ n.numbers, ∀ text, v.text? = some text → ∀ file,
      ∃ t place, tokenize text file = .ok [t, .endOfInput place] ∧ t.word = v.literal) ∧
    ∀ budget indent level,
      match n.source budget indent level with
      | .ok text => n.depth .writing ≤ budget ∧ (∀ v ∈ n.numbers, v.text? ≠ none) ∧
          ((n.isExpression = true ∨ n.isStatement = true) →
            (∀ name ∈ n.names, Word.isName name.toList = true) →
            (∀ c ∈ indent.toList, Text.isBlank c = true) → ∀ file,
              ∃ ts place, tokenize text file = .ok (ts ++ [.endOfInput place]) ∧
                ts.map Token.word = n.words ∧
                (ts.map Token.word).filter Word.isLiteral = n.numbers.map Number.literal)
      | .error .tooDeep => budget < n.depth .writing
      | .error .integerTooLong =>
          ∃ i, Number.int i ∈ n.numbers ∧ maxIntegerDigits < Decimal.digitCount i.natAbs := by
  constructor
  · intro v hv text htext file
    have hwritable := Number.writable_of_text?_ne_none (h.isFinite v hv) (by simp [htext])
    exact Number.tokenize_text hwritable htext file
  · intro budget indent level
    have hrenders : Renders n.numbers (n.depth .writing) budget (n.source budget indent level) :=
      n.write_renders indent budget level
    generalize hsource : n.source budget indent level = outcome at hrenders
    cases hrenders with
    | tooDeep hdepth => exact hdepth
    | integerTooLong hv hlong =>
      obtain ⟨i, rfl, hdigits⟩ := Number.text?_eq_none_iff.mp hlong
      exact ⟨i, hv, hdigits⟩
    | @done text hdepth hnumbers =>
      refine ⟨hdepth, hnumbers, ?_⟩
      intro hshape hnames hi file
      have hwritable : ∀ v ∈ n.numbers, v.Writable := fun v hv =>
        Number.writable_of_text?_ne_none (h.isFinite v hv) (hnumbers v hv)
      obtain ⟨text', hsources, hlexes⟩ := exists_source_of_shape hshape hnames hwritable hi level
      have hwritten := hsources budget
      rw [if_pos hdepth, hsource] at hwritten
      obtain rfl := Except.ok.inj hwritten
      obtain ⟨ts, place, htokens, hwords, -⟩ := tokenize_of_lexes hlexes file
      exact ⟨ts, place, htokens, hwords, by rw [hwords, filter_words]⟩

theorem source_of_buildable_negative_zero :
    ∃ n : Node, n.Buildable ∧ n.source 3 usualIndent 0 = .ok "(-5 + -0.0)" ∧
      ∃ ts place, tokenize "(-5 + -0.0)" "f" = .ok (ts ++ [.endOfInput place]) ∧
        (ts.map Token.word).filter Word.isLiteral =
          [Number.literal (.int (-5)), Number.literal (.float (.zero true))] := by
  have hbuilt : ∃ sum : Node, sum.Buildable ∧ sum.isExpression = true ∧ sum.names = [] ∧
      sum.numbers = [.int (-5), .float (.zero true)] ∧
      sum.source 3 usualIndent 0 = .ok "(-5 + -0.0)" := by
    let five : Node := .literal ⟨0, none⟩ (.int (-5))
    let zero : Node := .literal ⟨1, none⟩ (.float (.zero true))
    let sum : Node := .binary ⟨2, none⟩ .plus five zero
    have hfive : five.Buildable := by
      have hmade : Builder.making.create (.literal (some (.number (.int (-5))))) none .empty =
          (.ok (some five), ⟨1, 0, [], []⟩) := rfl
      exact .made (fun _ hm => absurd hm List.not_mem_nil) hmade
    have hzero : zero.Buildable := by
      have hmade : Builder.making.create (.literal (some (.number (.float (.zero true))))) none
          ⟨1, 0, [], []⟩ = (.ok (some zero), ⟨2, 0, [], []⟩) := rfl
      exact .made (fun _ hm => absurd hm List.not_mem_nil) hmade
    have hsum : sum.Buildable := by
      have hmade : Builder.making.create (.binary .plus (some five) (some zero)) none
          ⟨2, 0, [], []⟩ = (.ok (some sum), ⟨3, 0, [(1, ⟨2, none⟩), (0, ⟨2, none⟩)], []⟩) := rfl
      refine .made ?_ hmade
      intro m hm
      rcases List.mem_pair.mp hm with hm | hm
      · rwa [Option.some.inj hm]
      · rwa [Option.some.inj hm]
    exact ⟨sum, hsum, rfl, rfl, rfl, by decide +kernel⟩
  obtain ⟨sum, hsum, hshape, hnames, hnumbers, hsource⟩ := hbuilt
  have hblank : ∀ c ∈ usualIndent.toList, Text.isBlank c = true := by
    intro c hc
    have hspaces : usualIndent.toList = List.replicate 4 ' ' := rfl
    rw [hspaces] at hc
    rw [List.eq_of_mem_replicate hc]
    rfl
  have houtcome := (source_of_buildable hsum).2 3 usualIndent 0
  rw [hsource] at houtcome
  have hnone : ∀ name ∈ sum.names, Word.isName name.toList = true := by
    rw [hnames]
    exact nofun
  obtain ⟨ts, place, htokens, -, hliterals⟩ := houtcome.2.2 (Or.inl hshape) hnone hblank "f"
  rw [hnumbers] at hliterals
  exact ⟨sum, hsum, hsource, ts, place, htokens, hliterals⟩

/-- An expression of one integer of too many digits has no text, and the reason is not reported. -/
theorem source_of_buildable_too_long :
    ∃ n : Node, n.Buildable ∧ n.isExpression = true ∧
      (∀ name ∈ n.names, Word.isName name.toList = true) ∧
      ∀ budget, n.source budget usualIndent 0 = .error .integerTooLong := by
  have hlong : ∃ i, ¬ (Number.int i).Writable := by
    refine ⟨((10 ^ maxIntegerDigits : Nat) : Int), ?_⟩
    rw [Number.Writable, Int.natAbs_natCast]
    exact Nat.lt_irrefl _
  obtain ⟨i, hi⟩ := hlong
  have hbuilt : (literal ⟨0, none⟩ (.int i)).Buildable := by
    have hmade : Builder.making.create (.literal (some (.number (.int i)))) none .empty =
        (.ok (some (literal ⟨0, none⟩ (.int i))), ⟨1, 0, [], []⟩) := rfl
    exact .made (fun _ hm => absurd hm List.not_mem_nil) hmade
  have hdigits := Nat.not_le.mp (mt Number.writable_int_iff.mpr hi)
  have htext : (Number.int i).text? = none := Number.text?_eq_none_iff.mpr ⟨i, rfl, hdigits⟩
  refine ⟨_, hbuilt, rfl, fun _ hname => absurd hname List.not_mem_nil, fun budget => ?_⟩
  rw [source, write, htext]

end Node

end Dec
