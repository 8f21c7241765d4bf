import Dec.Proofs.Number.Value
import Dec.Proofs.Tree.Numbers

namespace Dec

namespace Skeleton

mutual

def plain : Skeleton → Skeleton
  | literal value => literal value.plain
  | var name => var name
  | binary op left right => binary op left.plain right.plain
  | assign name value => assign name value.plain
  | ret value => ret value.plain
  | block body => block (plains body)

def plains : List Skeleton → List Skeleton
  | [] => []
  | s :: rest => s.plain :: plains rest

end

theorem plains_eq_map (body : List Skeleton) : plains body = body.map plain := by
  induction body with
  | nil => rfl
  | cons s rest ih => rw [plains, ih, List.map_cons]

mutual

def zeroSigns : Skeleton → List Bool
  | literal value => value.zeroSign?.toList
  | var _ => []
  | binary _ left right => left.zeroSigns ++ right.zeroSigns
  | assign _ value => value.zeroSigns
  | ret value => value.zeroSigns
  | block body => allZeroSigns body

def allZeroSigns : List Skeleton → List Bool
  | [] => []
  | s :: rest => s.zeroSigns ++ allZeroSigns rest

end

mutual

theorem eq_of_plain_eq (s t : Skeleton) (h : s.plain = t.plain) {signs signs' : List Bool}
    (hsigns : s.zeroSigns ++ signs = t.zeroSigns ++ signs') : s = t ∧ signs = signs' := by
  cases s with
  | literal v =>
    cases t with
    | literal w =>
      obtain ⟨rfl, hrest⟩ := Number.eq_of_plain_eq (literal.inj h) hsigns
      exact ⟨rfl, hrest⟩
    | _ => simp [plain] at h
  | var name =>
    cases t with
    | var name' => exact ⟨h, hsigns⟩
    | _ => simp [plain] at h
  | binary op left right =>
    cases t with
    | binary op' left' right' =>
      obtain ⟨rfl, hleft, hright⟩ := binary.inj h
      rw [zeroSigns, zeroSigns, List.append_assoc, List.append_assoc] at hsigns
      obtain ⟨rfl, hsigns'⟩ := eq_of_plain_eq left left' hleft hsigns
      obtain ⟨rfl, hrest⟩ := eq_of_plain_eq right right' hright hsigns'
      exact ⟨rfl, hrest⟩
    | _ => simp [plain] at h
  | assign name value =>
    cases t with
    | assign name' value' =>
      obtain ⟨rfl, hvalue⟩ := assign.inj h
      obtain ⟨rfl, hrest⟩ := eq_of_plain_eq value value' hvalue hsigns
      exact ⟨rfl, hrest⟩
    | _ => simp [plain] at h
  | ret value =>
    cases t with
    | ret value' =>
      obtain ⟨rfl, hrest⟩ := eq_of_plain_eq value value' (ret.inj h) hsigns
      exact ⟨rfl, hrest⟩
    | _ => simp [plain] at h
  | block body =>
    cases t with
    | block body' =>
      obtain ⟨rfl, hrest⟩ := eq_of_plains_eq body body' (block.inj h) hsigns
      exact ⟨rfl, hrest⟩
    | _ => simp [plain] at h

theorem eq_of_plains_eq (body body' : List Skeleton) (h : plains body = plains body')
    {signs signs' : List Bool} (hsigns : allZeroSigns body ++ signs = allZeroSigns body' ++ signs') :
    body = body' ∧ signs = signs' := by
  cases body with
  | nil =>
    cases body' with
    | nil => exact ⟨rfl, hsigns⟩
    | cons t others => cases h
  | cons s rest =>
    cases body' with
    | nil => cases h
    | cons t others =>
      obtain ⟨hfirst, hlater⟩ := List.cons.inj h
      rw [allZeroSigns, allZeroSigns, List.append_assoc, List.append_assoc] at hsigns
      obtain ⟨rfl, hsigns'⟩ := eq_of_plain_eq s t hfirst hsigns
      obtain ⟨rfl, hrest⟩ := eq_of_plains_eq rest others hlater hsigns'
      exact ⟨rfl, hrest⟩

end

/-- What the signs of zeros add makes skeletons equal. -/
theorem eq_iff {s t : Skeleton} : s = t ↔ s.plain = t.plain ∧ s.zeroSigns = t.zeroSigns := by
  constructor
  · rintro rfl
    exact ⟨rfl, rfl⟩
  · rintro ⟨hplain, hsigns⟩
    have hsigns' : s.zeroSigns ++ [] = t.zeroSigns ++ [] := congrArg (· ++ []) hsigns
    exact (eq_of_plain_eq s t hplain hsigns').1

end Skeleton

section Outcome

/-- How a decision may end that has a budget: there is none only where the budget is too small. -/
inductive Decides (p : Prop) (depth budget : Nat) : Option Bool → Prop where
  | yes (h : p) : Decides p depth budget (some true)
  | no (h : ¬ p) : Decides p depth budget (some false)
  | tooDeep (hdepth : budget < depth) : Decides p depth budget none

namespace Decides

variable {p q : Prop} {depth other budget : Nat} {first rest : Option Bool}

theorem answered {found : Bool} (h : found = true ↔ p) : Decides p depth budget (some found) := by
  cases found with
  | true => exact yes (h.mp rfl)
  | false => exact no fun hp => nomatch h.mpr hp

theorem of_iff (h : Decides p depth budget first) (hiff : p ↔ q) (hle : depth ≤ other) :
    Decides q other budget first := by
  cases h with
  | yes h => exact yes (hiff.mp h)
  | no h => exact no (mt hiff.mpr h)
  | tooDeep hdepth => exact tooDeep (lt_of_lt_of_le hdepth hle)

/-- Two nodes take their share of the budget before their parts are compared. -/
theorem within {cost : Nat} (h : Decides p depth (budget - cost) first) :
    Decides p (depth + cost) budget (if budget < cost then none else first) := by
  by_cases hcost : budget < cost
  · rw [if_pos hcost]
    exact tooDeep (by omega)
  · rw [if_neg hcost]
    cases h with
    | yes h => exact yes h
    | no h => exact no h
    | tooDeep hdepth => exact tooDeep (by omega)

/-- A first difference is enough. -/
theorem both : Decides p depth budget first → Decides q other budget rest →
    Decides (p ∧ q) (max depth other) budget
      (match first with
        | some true => rest
        | found => found) := by
  intro h h'
  cases h with
  | no hp => exact no fun hpq => hp hpq.1
  | tooDeep hdepth => exact tooDeep (lt_max_of_lt_left hdepth)
  | yes hp =>
    cases h' with
    | yes hq => exact yes ⟨hp, hq⟩
    | no hq => exact no fun hpq => hq hpq.2
    | tooDeep hdepth => exact tooDeep (lt_max_of_lt_right hdepth)

/-- The answer is right whenever there is one. -/
theorem eq_true_iff (h : Decides p depth budget first) {found : Bool} (hfound : first = some found) :
    found = true ↔ p := by
  cases h with
  | yes h =>
    obtain rfl := Option.some.inj hfound
    simpa using h
  | no h =>
    obtain rfl := Option.some.inj hfound
    simpa using h
  | tooDeep hdepth => cases hfound

/-- There is an answer when the budget is not too small. -/
theorem isSome (h : Decides p depth budget first) (hdepth : depth ≤ budget) : first.isSome = true := by
  cases h with
  | yes h => rfl
  | no h => rfl
  | tooDeep hdeep => omega

theorem eq_some_true_iff (h : Decides p depth budget first) (hdepth : depth ≤ budget) :
    first = some true ↔ p := by
  obtain ⟨found, hfound⟩ := Option.isSome_iff_exists.mp (h.isSome hdepth)
  rw [← h.eq_true_iff hfound, hfound, Option.some_inj]

end Decides

end Outcome

structure WalkCost.AtMost (cost cost' : WalkCost) : Prop where
  operator : cost.operator ≤ cost'.operator
  statement : cost.statement ≤ cost'.statement
  block : cost.block ≤ cost'.block

theorem WalkCost.writing_atMost_comparing : writing.AtMost comparing where
  operator := by decide
  statement := by decide
  block := by decide

namespace Node

section Depth

variable {cost cost' : WalkCost}

mutual

/-- A walk that takes no less at any node takes no less of its budget. -/
theorem depth_le_depth (h : cost.AtMost cost') (n : Node) : n.depth cost ≤ n.depth cost' := by
  cases n with
  | literal => exact Nat.le_refl 0
  | var => exact Nat.le_refl 0
  | binary tag op left right =>
    exact Nat.add_le_add (max_le_max (depth_le_depth h left) (depth_le_depth h right)) h.operator
  | assign tag target name value => exact Nat.add_le_add (depth_le_depth h value) h.statement
  | ret tag value => exact Nat.add_le_add (depth_le_depth h value) h.statement
  | block tag table body => exact Nat.add_le_add (maxDepth_le_maxDepth h body) h.block

theorem maxDepth_le_maxDepth (h : cost.AtMost cost') (body : List Node) :
    maxDepth cost body ≤ maxDepth cost' body := by
  cases body with
  | nil => exact Nat.le_refl 0
  | cons n rest => exact max_le_max (depth_le_depth h n) (maxDepth_le_maxDepth h rest)

end

end Depth

section Comparing

open Skeleton (plain plains plains_eq_map)

mutual

/-- The comparison of trees that were built decides whether their skeletons are the same up to the signs
of zeros. -/
theorem alike_decides (n m : Node) (hn : ∀ v ∈ n.numbers, v.isFinite = true)
    (hm : ∀ v ∈ m.numbers, v.isFinite = true) (budget : Nat) :
    Decides (n.skeleton.plain = m.skeleton.plain) (min (n.depth .comparing) (m.depth .comparing))
      budget (alike budget n m) := by
  -- trees of different classes differ at once, and others are taken apart together
  cases n with
  | literal tag v =>
    cases m with
    | literal tag' w =>
      cases v with
      | int i =>
        cases w with
        | int j => exact .answered (by simp [skeleton, plain, Number.plain])
        | float y => simp [alike, skeleton, plain, Number.plain, Decides.no]
      | float x =>
        cases w with
        | int j => simp [alike, skeleton, plain, Number.plain, Decides.no]
        | float y =>
          have hx : x.isFinite = true := hn _ List.mem_cons_self
          have hy : y.isFinite = true := hm _ List.mem_cons_self
          have hsame := (Binary64.same_iff hx hy).trans (Binary64.plain_eq_plain_iff hx hy).symm
          exact .answered (by simpa [skeleton, plain, Number.plain] using hsame)
    | _ => simp [alike, skeleton, plain, Decides.no]
  | var tag name =>
    cases m with
    | var tag' name' => exact .answered (by simp [skeleton, plain])
    | _ => simp [alike, skeleton, plain, Decides.no]
  | binary tag op left right =>
    cases m with
    | binary tag' op' left' right' =>
      obtain ⟨hnl, hnr⟩ := List.forall_mem_append.mp hn
      obtain ⟨hml, hmr⟩ := List.forall_mem_append.mp hm
      have hleft := alike_decides left left' hnl hml (budget - compareCost)
      have hright := alike_decides right right' hnr hmr (budget - compareCost)
      rw [alike]
      by_cases hop : op = op'
      · rw [if_neg (not_not.mpr hop), depth, depth, WalkCost.comparing_operator]
        have hparts := (hleft.both hright).within
        exact hparts.of_iff (by simp [skeleton, plain, hop]) (by omega)
      · rw [if_pos hop]
        exact .no (by simp [skeleton, plain, hop])
    | _ => simp [alike, skeleton, plain, Decides.no]
  | assign tag target name value =>
    cases m with
    | assign tag' target' name' value' =>
      have hvalue := alike_decides value value' hn hm (budget - compareCost)
      rw [alike]
      by_cases hname : name = name'
      · rw [if_pos hname, depth, depth, WalkCost.comparing_statement]
        exact hvalue.within.of_iff (by simp [skeleton, plain, hname]) (by omega)
      · rw [if_neg hname, depth, depth, WalkCost.comparing_statement]
        have hdiffer : Decides False 0 (budget - compareCost) (some false) := .no not_false
        exact hdiffer.within.of_iff (by simp [skeleton, plain, hname]) (by omega)
    | _ => simp [alike, skeleton, plain, Decides.no]
  | ret tag value =>
    cases m with
    | ret tag' value' =>
      have hvalue := alike_decides value value' hn hm (budget - compareCost)
      rw [alike, depth, depth, WalkCost.comparing_statement]
      exact hvalue.within.of_iff (by simp [skeleton, plain]) (by omega)
    | _ => simp [alike, skeleton, plain, Decides.no]
  | block tag table body =>
    cases m with
    | block tag' table' body' =>
      rw [alike]
      by_cases hlength : body.length = body'.length
      · have hbody := allAlike_decides body body' hlength hn hm (budget - compareCost)
        rw [if_neg (not_not.mpr hlength), depth, depth, WalkCost.comparing_block]
        exact hbody.within.of_iff (by simp [skeleton, plain]) (by omega)
      · rw [if_pos hlength]
        refine .no fun h => hlength ?_
        have hplains := congrArg List.length (Skeleton.block.inj h)
        simpa [plains_eq_map, skeletons_eq_map] using hplains
    | _ => simp [alike, skeleton, plain, Decides.no]

/-- Statements are compared from left to right, where there are as many on both sides. -/
theorem allAlike_decides (body body' : List Node) (hlength : body.length = body'.length)
    (hn : ∀ v ∈ allNumbers body, v.isFinite = true)
    (hm : ∀ v ∈ allNumbers body', v.isFinite = true) (budget : Nat) :
    Decides (plains (skeletons body) = plains (skeletons body'))
      (min (maxDepth .comparing body) (maxDepth .comparing body')) budget
      (allAlike budget body body') := by
  cases body with
  | nil =>
    obtain rfl := List.length_eq_zero_iff.mp hlength.symm
    exact .yes rfl
  | cons n rest =>
    cases body' with
    | nil => cases hlength
    | cons m others =>
      obtain ⟨hn, hrest⟩ := List.forall_mem_append.mp hn
      obtain ⟨hm, hothers⟩ := List.forall_mem_append.mp hm
      have hfirst := alike_decides n m hn hm budget
      have hlater := allAlike_decides rest others (Nat.succ.inj hlength) hrest hothers budget
      rw [allAlike, maxDepth, maxDepth]
      have hparts := hfirst.both hlater
      exact hparts.of_iff (by simp [skeletons, plains]) (by omega)

end

end Comparing

end Node

end Dec
