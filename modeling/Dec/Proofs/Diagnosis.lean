import Dec.Proofs.Grammar.Builders
import Dec.Proofs.RoundTrip
import Dec.Proofs.Tree.Numbers

namespace Dec

namespace Token

def Carries (t : Token) : Prop :=
  match t.kind with
  | .integer => ∃ n, t.value = some (.number (.int n)) ∧ Decimal.digitCount n.natAbs ≤ maxIntegerDigits
  | .float => ∃ x, t.value = some (.number (.float x)) ∧ x.isFinite = true
  | _ => True

theorem Spelled.carries {t : Token} (h : t.Spelled) : t.Carries := by
  obtain ⟨kind, lexeme, value, location⟩ := t
  cases kind with
  | integer =>
    obtain ⟨n, hvalue, hn⟩ := h.integer rfl
    exact ⟨n, hvalue, Number.writable_int_iff.mp hn⟩
  | float => exact h.float rfl
  | _ => exact trivial

/-- A token of a kind with a sign is that sign. -/
theorem Spelled.lexeme_eq {t : Token} (h : t.Spelled) {sign : String}
    (hsign : t.kind.sign? = some sign) : t.lexeme = sign := by
  have hs : String.ofList t.lexeme.toList = sign := h.sign sign hsign
  rwa [String.ofList_toList] at hs

end Token

namespace Node

/-- A program whose numbers are within bounds, and which is written with any indentation at any level
unless it is too deep for that. -/
structure Expressible (n : Node) : Prop where
  block : ∃ tag table body, n = .block tag table body
  integers : ∀ i, Number.int i ∈ n.numbers → Decimal.digitCount i.natAbs ≤ maxIntegerDigits
  floats : ∀ x, Number.float x ∈ n.numbers → x.isFinite = true
  written : ∀ indent level, ∃ text, ∀ budget, n.source budget indent level =
    if n.depth .writing ≤ budget then .ok text else .error .tooDeep

theorem SourceProgram.expressible {n : Node} (h : n.SourceProgram) : n.Expressible := by
  have hwritable := h.statement.writable
  refine ⟨h.isBlock, ?_, ?_, ?_⟩
  · intro i hi
    exact Number.writable_int_iff.mp (hwritable _ hi)
  · intro x hx
    exact hwritable _ hx
  · intro indent level
    exact n.exists_write indent hwritable level

end Node

namespace Program

open Grammar

inductive Ending : Except ReadFailure (Option Node) → Prop where
  | program {n : Node} (hn : n.Expressible) : Ending (.ok (some n))
  | lexical {e : LexicalError}
      (hcode : e.diagnostic.code = some "L001" ∨ e.diagnostic.code = some "L003") :
      Ending (.error (.lexical e))
  | grammar {fault : SyntaxFault} (hcode : fault.diagnostic.code = some fault.code)
      (htitle : fault.code ∈ SyntaxFault.titles.map Prod.fst) :
      Ending (.error (.grammar (.fault fault)))

/-- What holds of a text and of its reading: the words found in it, up to a fault if there is one, say
what their kinds promise, the reading stops at one of them or at the end, and it ends well. -/
structure Settled (limit : Nat) (source file : String) (f : Forest) : Prop where
  signs : ∀ t ∈ (lex source file).tokens, ∀ sign, t.kind.sign? = some sign → t.lexeme = sign
  operators : ∀ t ∈ (lex source file).tokens, ∀ op, t.kind = .operator op →
    t.lexeme = op.symbol ∧ BinaryOp.ofSymbol? t.lexeme = some op
  literals : ∀ t ∈ (lex source file).tokens, t.Carries
  position : ∀ tokens, tokenize source file = .ok tokens →
    (ofSource limit .making source file f).consumed < tokens.length
  ending : Ending (ofSource limit .making source file f).result

theorem lexical_code (e : LexicalError) :
    e.diagnostic.code = some "L001" ∨ e.diagnostic.code = some "L003" := by
  obtain ⟨fault, location⟩ := e
  cases fault with
  | invalidCharacter c => exact Or.inl rfl
  | runsIntoName n next => exact Or.inr rfl
  | integerTooLong n => exact Or.inr rfl
  | floatTooLarge n => exact Or.inr rfl

theorem code_mem_titles (fault : SyntaxFault) : fault.code ∈ SyntaxFault.titles.map Prod.fst := by
  cases fault <;> simp [SyntaxFault.code, SyntaxFault.titles]

/-- The reading of the tokens of a text stops at one of them. -/
theorem ofSource_consumed_lt {source file : String} {tokens : List Token}
    (h : tokenize source file = .ok tokens) (limit : Nat) (f : Forest) :
    (ofSource limit .making source file f).consumed < tokens.length := by
  obtain ⟨ts, place, rfl, hts⟩ := tokenize_eq_ok h
  have hle : (run limit (Builder.create .making) (.endOfInput place) 0 ⟨.program, [], f.nextTable⟩
      { f with record := [] } ts).1.consumed ≤ 0 + ts.length := run_consumed_le _ _ _ _ _
  rw [ofSource_of_tokenize h, ofTokens_consumed, parse_eq_run, splitEnd_of_spelled hts,
    List.length_append, List.length_singleton]
  dsimp only
  omega

/-- A reading ends with a program or with a fault that has a code. -/
theorem ofSource_ending (limit : Nat) (source file : String) (f : Forest) :
    Ending (ofSource limit .making source file f).result := by
  cases ht : tokenize source file with
  | error e =>
    rw [ofSource, ht]
    exact .lexical (lexical_code e)
  | ok tokens =>
    cases hr : (ofSource limit .making source file f).result with
    | ok n =>
      -- something was made, and it is a program
      have htokens : (ofTokens limit .making tokens f).result = .ok n := by
        rwa [← ofSource_of_tokenize ht]
      obtain ⟨d, -, rfl, -⟩ := exists_tree_of_making ht htokens
      exact .program (sourceProgram_of_ofSource hr).expressible
    | error failure =>
      rw [ofSource_of_tokenize ht] at hr
      obtain ⟨fault, rfl⟩ := making_result_eq_error ht hr
      exact .grammar (diagnostic_of_found fault).2 (code_mem_titles fault)

/-- Every text is read to a program or reported. Each operator and each other sign is spelled as its
kind says, and each literal carries its number; the reading never runs past the end of the input; and
it ends with a program that can be written out again, or with a fault that has a code, so that no node
is refused and no operator is unknown. -/
theorem ofSource_settled (limit : Nat) (source file : String) (f : Forest) :
    Settled limit source file f := by
  have hspelled : ∀ t ∈ (lex source file).tokens, t.Spelled :=
    lexFrom_spelled file none .start source.toList
  constructor
  · intro t ht sign hsign
    exact (hspelled t ht).lexeme_eq hsign
  · intro t ht op hop
    have hlexeme : t.lexeme = op.symbol := by
      refine (hspelled t ht).lexeme_eq ?_
      rw [hop]
      cases op <;> rfl
    refine ⟨hlexeme, ?_⟩
    rw [hlexeme]
    cases op <;> rfl
  · exact fun t ht => (hspelled t ht).carries
  · exact fun tokens htokens => ofSource_consumed_lt htokens limit f
  · exact ofSource_ending limit source file f

end Program

end Dec
