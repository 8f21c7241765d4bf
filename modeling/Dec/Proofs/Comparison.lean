import Dec.Proofs.RoundTrip
import Dec.Proofs.Tree.Likeness
import Dec.Proofs.Tree.Rendering

namespace Dec

namespace Program

/-- Programs that a text is read as the words of have the same skeleton. -/
theorem skeleton_eq_of_lexes {a b : Node} (ha : a.SourceProgram) (hb : b.SourceProgram)
    {text : String} (hla : Lexes true text.toList a.words) (hlb : Lexes true text.toList b.words) :
    a.skeleton = b.skeleton := by
  obtain ⟨ts, place, htokens, hwords, -⟩ := tokenize_of_lexes hla ""
  obtain ⟨ts', place', htokens', hwords', -⟩ := tokenize_of_lexes hlb ""
  obtain ⟨rfl, -⟩ := List.append_inj' (Except.ok.inj (htokens.symm.trans htokens')) rfl
  obtain ⟨d, rfl, hskeleton, -⟩ := Grammar.exists_derivation ha hwords
  obtain ⟨e, hsame, hskeleton', -⟩ := Grammar.exists_derivation hb hwords'
  obtain rfl := Grammar.Derivation.tokens_injective hsame
  exact hskeleton.symm.trans hskeleton'

/-- Two programs that are not too deep are written as the same text when their skeletons are the same. -/
theorem exists_sources {a b : Node} (ha : a.SourceProgram) (hb : b.SourceProgram)
    {budget : Nat} (hwa : a.depth .writing ≤ budget) (hwb : b.depth .writing ≤ budget)
    {indent : String} (hi : ∀ c ∈ indent.toList, Text.isBlank c = true) (level : Int) :
    ∃ text text', a.source budget indent level = .ok text ∧
      b.source budget indent level = .ok text' ∧
      (text = text' ↔ a.skeleton = b.skeleton) := by
  obtain ⟨text, hsources, hlexes⟩ := exists_source ha hi level
  obtain ⟨text', hsources', hlexes'⟩ := exists_source hb hi level
  have htext := hsources budget
  have htext' := hsources' budget
  rw [if_pos hwa] at htext
  rw [if_pos hwb] at htext'
  refine ⟨text, text', htext, htext', ?_⟩
  constructor
  · rintro rfl
    exact skeleton_eq_of_lexes ha hb hlexes hlexes'
  · intro hskeleton
    have hsame : a.source budget indent level = b.source budget indent level :=
      Node.write_congr indent b a hskeleton budget level
    rw [htext, htext'] at hsame
    exact Except.ok.inj hsame

end Program

namespace Node

def outline (a : Option Node) : Option Skeleton := a.map fun n => n.skeleton.plain

def height (a : Option Node) : Nat := (a.map fun n => n.depth .comparing).getD 0

structure Comparable (budget : Nat) (a : Option Node) : Prop where
  buildable : ∀ n ∈ a, n.Buildable
  within : height a ≤ budget

theorem sameShape?_decides {a b : Option Node}
    (ha : ∀ n ∈ a, ∀ v ∈ n.numbers, v.isFinite = true)
    (hb : ∀ n ∈ b, ∀ v ∈ n.numbers, v.isFinite = true) (budget : Nat) :
    Decides (outline a = outline b) (min (height a) (height b)) budget (sameShape? budget a b) := by
  cases a with
  | none =>
    cases b with
    | none => exact .yes rfl
    | some m => exact .no nofun
  | some n =>
    cases b with
    | none => exact .no nofun
    | some m =>
      have h := alike_decides n m (ha n rfl) (hb m rfl) budget
      exact h.of_iff (by simp [outline]) (Nat.le_refl _)

/-- Trees that are not too deep are alike when their outlines are the same. -/
theorem Comparable.alike_iff {budget : Nat} {a b : Option Node} (ha : Comparable budget a)
    (hb : Comparable budget b) : sameShape? budget a b = some true ↔ outline a = outline b := by
  have h := sameShape?_decides (fun n hn => (ha.buildable n hn).isFinite)
    (fun n hn => (hb.buildable n hn).isFinite) budget
  exact h.eq_some_true_iff (min_le_of_left_le ha.within)

/-- The comparison of trees that were built. Whenever it has an answer, the answer is whether both trees
have the same skeleton up to the signs of zeros, which leaves numbers of one type and one value the same
and no others; and it has one unless both trees are too deep. So being alike is an equivalence of the
trees that are not too deep, with none among them. Two such programs have the same source text when they
are alike and their zeros have the same signs, and in no other case. -/
theorem comparison_of_buildable (budget : Nat) :
    (∀ v w : Number, v.isFinite = true → w.isFinite = true →
      (v.plain = w.plain ↔ v.SameValue w)) ∧
    (∀ a b : Option Node, (∀ n ∈ a, n.Buildable) → (∀ n ∈ b, n.Buildable) →
      (∀ same, sameShape? budget a b = some same → (same = true ↔ outline a = outline b)) ∧
      (height a ≤ budget ∨ height b ≤ budget → (sameShape? budget a b).isSome = true)) ∧
    Equivalence (fun a b : {a : Option Node // Comparable budget a} =>
      sameShape? budget a.1 b.1 = some true) ∧
    ∀ a b : Node, a.SourceProgram → b.SourceProgram →
      height (some a) ≤ budget → height (some b) ≤ budget →
      ∀ indent : String, (∀ c ∈ indent.toList, Text.isBlank c = true) → ∀ level : Int,
        ∃ text text', a.source budget indent level = .ok text ∧
          b.source budget indent level = .ok text' ∧
          (text = text' ↔ sameShape? budget (some a) (some b) = some true ∧
            a.skeleton.zeroSigns = b.skeleton.zeroSigns) := by
  have hnumbers : ∀ n : Node, n.SourceProgram → ∀ v ∈ n.numbers, v.isFinite = true := fun n h v hv =>
    Number.isFinite_of_writable (h.statement.writable v hv)
  refine ⟨fun v w hv hw => Number.plain_eq_plain_iff hv hw, ?_, ?_, ?_⟩
  · intro a b ha hb
    have h := sameShape?_decides (fun n hn => (ha n hn).isFinite)
      (fun n hn => (hb n hn).isFinite) budget
    exact ⟨fun same hsame => h.eq_true_iff hsame, fun hwithin => h.isSome (min_le_iff.mpr hwithin)⟩
  · have hiff (a b : {a : Option Node // Comparable budget a}) := a.2.alike_iff b.2
    exact ⟨fun a => (hiff a a).mpr rfl, fun {a b} h => (hiff b a).mpr ((hiff a b).mp h).symm,
      fun {a b c} h h' => (hiff a c).mpr (((hiff a b).mp h).trans ((hiff b c).mp h'))⟩
  · intro a b ha hb hda hdb indent hi level
    have hwritten : ∀ n : Node, height (some n) ≤ budget → n.depth .writing ≤ budget :=
      fun n => (depth_le_depth WalkCost.writing_atMost_comparing n).trans
    obtain ⟨text, text', htext, htext', hsame⟩ :=
      Program.exists_sources ha hb (hwritten a hda) (hwritten b hdb) hi level
    have halike := (alike_decides a b (hnumbers a ha) (hnumbers b hb) budget).eq_some_true_iff
      (min_le_of_left_le hda)
    refine ⟨text, text', htext, htext', ?_⟩
    rw [hsame, sameShape?, halike]
    exact Skeleton.eq_iff

/-- Programs that return the two zeros are alike, and they have two source texts. -/
theorem comparison_of_buildable_zeros :
    ∃ a b : Node, a.Buildable ∧ b.Buildable ∧ a.SourceProgram ∧ b.SourceProgram ∧
      outline (some a) = outline (some b) ∧ sameShape? 6 (some a) (some b) = some true ∧
      a.source 6 usualIndent 0 = .ok "\x7b\n    return 0.0\n\x7d" ∧
      b.source 6 usualIndent 0 = .ok "\x7b\n    return -0.0\n\x7d" ∧
      a.skeleton.zeroSigns ≠ b.skeleton.zeroSigns := by
  let zero (negative : Bool) : Node := .literal ⟨0, none⟩ (.float (.zero negative))
  let result (negative : Bool) : Node := .ret ⟨1, none⟩ (zero negative)
  let program (negative : Bool) : Node := .block ⟨2, none⟩ ⟨0, none, 0, .empty⟩ [result negative]
  have hzero (negative : Bool) : (zero negative).Buildable := by
    have hmade : Builder.making.create (.literal (some (.number (.float (.zero negative))))) none
        .empty = (.ok (some (zero negative)), ⟨1, 0, [], []⟩) := rfl
    exact .made (fun _ hm => absurd hm List.not_mem_nil) hmade
  have hresult (negative : Bool) : (result negative).Buildable := by
    have hmade : Builder.making.create (.ret (some (zero negative))) none ⟨1, 0, [], []⟩ =
        (.ok (some (result negative)), ⟨2, 0, [(0, ⟨1, none⟩)], []⟩) := rfl
    refine .made ?_ hmade
    intro m hm
    obtain rfl := Option.some.inj (List.mem_singleton.mp hm)
    exact hzero negative
  have hbuildable (negative : Bool) : (program negative).Buildable := by
    have hmade : Builder.making.create (.block [some (result negative)] none) none
        ⟨2, 0, [(0, ⟨1, none⟩)], []⟩ = (.ok (some (program negative)), ⟨3, 1,
          [(1, ⟨2, some ⟨0, none, 0, .empty⟩⟩), (0, ⟨1, none⟩)], []⟩) := rfl
    refine .made ?_ hmade
    intro m hm
    obtain rfl := Option.some.inj (List.mem_singleton.mp hm)
    exact hresult negative
  have hprogram (negative : Bool) : (program negative).SourceProgram := by
    refine ⟨.block _ _ ?_, _, _, _, rfl⟩
    intro m hm
    obtain rfl := List.mem_singleton.mp hm
    exact .ret _ (.literal _ rfl)
  have hheight (negative : Bool) : height (some (program negative)) ≤ 6 := Nat.le_refl 6
  have hblank : ∀ c ∈ usualIndent.toList, Text.isBlank c = true := by
    have hall : usualIndent.toList.all Text.isBlank = true := by decide
    exact List.all_eq_true.mp hall
  obtain ⟨-, hanswers, -, htexts⟩ := comparison_of_buildable 6
  have hbuilt (negative : Bool) : ∀ n ∈ some (program negative), n.Buildable := by
    intro n hn
    obtain rfl := Option.some.inj hn
    exact hbuildable negative
  obtain ⟨hright, hanswered⟩ := hanswers _ _ (hbuilt false) (hbuilt true)
  obtain ⟨text, text', htext, htext', hsame⟩ :=
    htexts _ _ (hprogram false) (hprogram true) (hheight false) (hheight true) usualIndent hblank 0
  have houtline : outline (some (program false)) = outline (some (program true)) := rfl
  obtain ⟨same, hfound⟩ := Option.isSome_iff_exists.mp (hanswered (Or.inl (hheight false)))
  obtain rfl := (hright same hfound).mpr houtline
  have hpositive : (program false).source 6 usualIndent 0 = .ok "\x7b\n    return 0.0\n\x7d" := by
    decide +kernel
  have hnegative : (program true).source 6 usualIndent 0 = .ok "\x7b\n    return -0.0\n\x7d" := by
    decide +kernel
  obtain rfl := Except.ok.inj (hpositive.symm.trans htext)
  obtain rfl := Except.ok.inj (hnegative.symm.trans htext')
  refine ⟨_, _, hbuildable false, hbuildable true, hprogram false, hprogram true, houtline, hfound,
    hpositive, hnegative, ?_⟩
  intro hsigns
  exact absurd (hsame.mpr ⟨hfound, hsigns⟩) (by decide)

end Node

end Dec
