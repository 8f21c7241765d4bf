import Dec.Program
import Dec.Proofs.Grammar.Phrases

namespace Dec.Program

open Grammar

theorem ofSource_of_tokenize {limit : Nat} {builder : Builder} {source file : String}
    {tokens : List Token} (h : tokenize source file = .ok tokens) (f : Forest) :
    ofSource limit builder source file f = ofTokens limit builder tokens f := by
  rw [ofSource, h]

/-- What the making builder reads has a source text. -/
theorem sourceProgram_of_ofSource {limit : Nat} {source file : String} {f : Forest} {n : Node}
    (h : (ofSource limit .making source file f).result = .ok (some n)) : n.SourceProgram := by
  cases ht : tokenize source file with
  | error e =>
    rw [ofSource, ht] at h
    cases h
  | ok tokens =>
    rw [ofSource_of_tokenize ht] at h
    obtain ⟨ts, place, rfl, hts⟩ := tokenize_eq_ok ht
    obtain ⟨d, hd, hn⟩ := exists_derivation_of_ofTokens h
    have hspelled : ∀ t ∈ d.tokens, t.Spelled := by
      rw [hd, splitEnd_of_spelled hts]
      exact hts
    -- the tree that was read is the one that the derivation means
    obtain ⟨m, hm, hk, -⟩ := ofTokens_making_of_derivation hd hspelled hn f
    obtain rfl := Option.some.inj (Except.ok.inj (h.symm.trans hm))
    exact d.sourceProgram hspelled hk

/-- A program is written unless it is too deep, and its text is read as its words. -/
theorem exists_source {n : Node} (h : n.SourceProgram) {indent : String}
    (hi : ∀ c ∈ indent.toList, Text.isBlank c = true) (level : Int) :
    ∃ text, (∀ budget, n.source budget indent level =
      if n.depth .writing ≤ budget then .ok text else .error .tooDeep) ∧
      Lexes true text.toList n.words := by
  have hs := h.statement
  exact Node.exists_source_of_shape (Or.inr hs.isStatement) hs.isName hs.writable hi level

/-- Reading undoes writing. What the making builder reads is a block of statements whose names and
numbers can be written. Each such program that is not nested too deeply is written with any blank
indentation at any level, and its text is read to a copy with the same skeleton; the copy is of the
same shape where the comparison does not go too deep, and it is written as the same text. -/
theorem ofSource_source (limit budget : Nat) :
    (∀ source file f n, (ofSource limit .making source file f).result = .ok (some n) →
      n.SourceProgram) ∧
    ∀ n : Node, n.SourceProgram → n.depth .writing ≤ budget →
      n.depth .reading ≤ limit →
      ∀ indent : String, (∀ c ∈ indent.toList, Text.isBlank c = true) →
        ∀ (level : Int) (file : String) (f : Forest), ∃ text copy,
          n.source budget indent level = .ok text ∧
          (ofSource limit .making text file f).result = .ok (some copy) ∧
          copy.skeleton = n.skeleton ∧
          (n.depth .comparing ≤ budget →
            Node.sameShape? budget (some copy) (some n) = some true) ∧
          copy.source budget indent level = .ok text := by
  refine ⟨fun source file f n h => sourceProgram_of_ofSource h, ?_⟩
  intro n h hw hd indent hi level file f
  obtain ⟨text, htext, hlexes⟩ := exists_source h hi level
  have hwritten := htext budget
  rw [if_pos hw] at hwritten
  obtain ⟨ts, place, htokens, hwords, hspelled⟩ := tokenize_of_lexes hlexes file
  obtain ⟨d, rfl, hskeleton, hnesting⟩ := exists_derivation h hwords
  have hsplit : d.tokens = (splitEnd (d.tokens ++ [.endOfInput place])).1 := by
    rw [splitEnd_of_spelled hspelled]
  obtain ⟨copy, hread, hcopy, -⟩ :=
    ofTokens_making_of_derivation hsplit hspelled (hnesting ▸ hd) f
  have hsame : copy.skeleton = n.skeleton := hcopy.trans hskeleton
  refine ⟨text, copy, hwritten, ?_, hsame, ?_, ?_⟩
  · rw [ofSource_of_tokenize htokens]
    exact hread
  · intro hc
    exact (h.statement.alike_eq hsame budget).trans (if_pos hc)
  · rw [Node.source, Node.write_congr indent n copy hsame]
    exact hwritten

theorem ofSource_source_negative_operand :
    ∃ n copy, n.source 9 "\t" 0 = .ok "\x7b\n\tx := (1 - -2)\n\treturn x\n\x7d" ∧
      (ofSource 2 .making "\x7b\n\tx := (1 - -2)\n\treturn x\n\x7d" "f" .empty).result =
        .ok (some copy) ∧
      copy.SourceProgram ∧ copy.skeleton = n.skeleton ∧
      Node.sameShape? 9 (some copy) (some n) = some true := by
  let tag : Tag := default
  let difference : Node := .binary tag .minus (.literal tag (.int 1)) (.literal tag (.int (-2)))
  let n : Node := .block tag default [.assign tag tag "x" difference, .ret tag (.var tag "x")]
  have hname : IsVariable "x" := ⟨by decide, by decide⟩
  have hliteral : ∀ i : Int, i.natAbs < 10 → (Number.int i).Writable := by
    intro i hi
    have hpow : 10 ≤ 10 ^ maxIntegerDigits := Nat.le_self_pow (by decide) 10
    rw [Number.Writable]
    exact Nat.lt_of_lt_of_le hi hpow
  have hdifference : difference.SourceExpression :=
    .binary tag .minus (.literal tag (hliteral 1 (by decide)))
      (.literal tag (hliteral (-2) (by decide)))
  have hn : n.SourceProgram := by
    refine ⟨.block tag default ?_, tag, default, _, rfl⟩
    intro m hm
    rcases List.mem_pair.mp hm with rfl | rfl
    · exact .assign tag tag hname hdifference
    · exact .ret tag (.var tag hname)
  have hindent : ∀ c ∈ "\t".toList, Text.isBlank c = true := by
    intro c hc
    obtain rfl := List.mem_singleton.mp hc
    rfl
  obtain ⟨text, copy, htext, hread, hskeleton, hsame, -⟩ :=
    (ofSource_source 2 9).2 n hn (by decide) (by decide) "\t" hindent 0 "f" .empty
  have hsource : n.source 9 "\t" 0 = .ok "\x7b\n\tx := (1 - -2)\n\treturn x\n\x7d" := by
    decide +kernel
  obtain rfl := Except.ok.inj (hsource.symm.trans htext)
  exact ⟨n, copy, hsource, hread, (ofSource_source 2 9).1 _ _ _ _ hread, hskeleton,
    hsame (by decide)⟩

end Dec.Program
