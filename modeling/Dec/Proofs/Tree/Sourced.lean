import Dec.Tree.Skeleton
import Dec.Tree.Source
import Dec.Proofs.Token.Spelling
import Dec.Proofs.Tree.Skeleton

namespace Dec

structure IsVariable (name : String) : Prop where
  isName : Word.isName name.toList = true
  ne_return : name.toList ≠ Word.returnWord

/-- A finite double equals itself. -/
theorem Binary64.same_self {x : Binary64} (hx : x.isFinite = true) : x.same x = true := by
  cases x with
  | finite negative s k h => simp [same]
  | infinite negative => cases hx
  | nan => cases hx

/-- What a walk over a tree takes of its budget at the nodes that have nodes below them. -/
structure WalkCost where
  operator : Nat
  statement : Nat
  block : Nat

namespace WalkCost

def writing : WalkCost := ⟨Node.operatorCost, Node.statementCost, Node.blockCost⟩

def comparing : WalkCost := ⟨Node.compareCost, Node.compareCost, Node.compareCost⟩

theorem writing_operator : writing.operator = Node.operatorCost := rfl

theorem writing_statement : writing.statement = Node.statementCost := rfl

theorem writing_block : writing.block = Node.blockCost := rfl

theorem comparing_operator : comparing.operator = Node.compareCost := rfl

theorem comparing_statement : comparing.statement = Node.compareCost := rfl

theorem comparing_block : comparing.block = Node.compareCost := rfl

end WalkCost

namespace Node

inductive SourceExpression : Node → Prop where
  | literal (tag : Tag) {value : Number} (hv : value.Writable) :
      SourceExpression (.literal tag value)
  | var (tag : Tag) {name : String} (hn : IsVariable name) : SourceExpression (.var tag name)
  | binary (tag : Tag) (op : BinaryOp) {left right : Node} (hl : SourceExpression left)
      (hr : SourceExpression right) : SourceExpression (.binary tag op left right)

inductive SourceStatement : Node → Prop where
  | assign (tag target : Tag) {name : String} {value : Node} (hn : IsVariable name)
      (hv : SourceExpression value) : SourceStatement (.assign tag target name value)
  | ret (tag : Tag) {value : Node} (hv : SourceExpression value) : SourceStatement (.ret tag value)
  | block (tag : Tag) (table : Table) {body : List Node} (hb : ∀ n ∈ body, SourceStatement n) :
      SourceStatement (.block tag table body)

structure SourceProgram (n : Node) : Prop where
  statement : n.SourceStatement
  isBlock : ∃ tag table body, n = .block tag table body

mutual

/-- What a walk takes of its budget on the most expensive way down a tree. -/
def depth (cost : WalkCost) : Node → Nat
  | literal .. => 0
  | var .. => 0
  | binary _ _ left right => max (left.depth cost) (right.depth cost) + cost.operator
  | assign _ _ _ value => value.depth cost + cost.statement
  | ret _ value => value.depth cost + cost.statement
  | block _ _ body => maxDepth cost body + cost.block

def maxDepth (cost : WalkCost) : List Node → Nat
  | [] => 0
  | n :: rest => max (n.depth cost) (maxDepth cost rest)

end

section Writing

variable (indent : String)

mutual

/-- Trees with the same skeleton have the same source text. -/
theorem write_congr (n m : Node) (h : m.skeleton = n.skeleton) (budget : Nat) (level : Int) :
    m.write indent budget level = n.write indent budget level := by
  cases n with
  | literal tag value =>
    obtain ⟨tag', rfl⟩ := skeleton_eq_literal h
    rfl
  | var tag name =>
    obtain ⟨tag', rfl⟩ := skeleton_eq_var h
    rfl
  | binary tag op left right =>
    obtain ⟨tag', left', right', rfl, hl, hr⟩ := skeleton_eq_binary h
    rw [write, write, write_congr left left' hl, write_congr right right' hr]
  | assign tag target name value =>
    obtain ⟨tag', target', value', rfl, hv⟩ := skeleton_eq_assign h
    rw [write, write, write_congr value value' hv]
  | ret tag value =>
    obtain ⟨tag', value', rfl, hv⟩ := skeleton_eq_ret h
    rw [write, write, write_congr value value' hv]
  | block tag table body =>
    obtain ⟨tag', table', body', rfl, hb⟩ := skeleton_eq_block h
    rw [write, write, writeAll_congr body body' hb]

theorem writeAll_congr (body body' : List Node) (h : skeletons body' = skeletons body)
    (budget : Nat) (level : Int) :
    writeAll indent budget level body' = writeAll indent budget level body := by
  cases body with
  | nil => rw [skeletons_eq_nil h]
  | cons n rest =>
    obtain ⟨m, others, rfl, hm, ho⟩ := skeletons_eq_cons h
    rw [writeAll, writeAll, write_congr n m hm, writeAll_congr rest others ho]

end

end Writing

section Comparing

/-- Expressions with the same skeleton are alike, unless they are too deep for the comparison. -/
theorem SourceExpression.alike_eq {n : Node} (h : n.SourceExpression) {m : Node}
    (hm : m.skeleton = n.skeleton) (budget : Nat) :
    alike budget m n = if n.depth .comparing ≤ budget then some true else none := by
  induction h generalizing m budget with
  | @literal tag value hv =>
    obtain ⟨tag', rfl⟩ := skeleton_eq_literal hm
    cases value with
    | int i => simp [alike, depth]
    | float x => simp [alike, depth, Binary64.same_self hv]
  | var tag hn =>
    obtain ⟨tag', rfl⟩ := skeleton_eq_var hm
    simp [alike, depth]
  | @binary tag op left right hl hr ihl ihr =>
    obtain ⟨tag', left', right', rfl, hl', hr'⟩ := skeleton_eq_binary hm
    rw [alike, if_neg (by simp), ihl hl', ihr hr', depth, WalkCost.comparing_operator]
    -- the first of the checks that fails is in the way: here, on the left, or on the right
    split_ifs <;> first | rfl | omega

theorem allAlike_eq {body : List Node}
    (h : ∀ n ∈ body, ∀ ⦃m : Node⦄, m.skeleton = n.skeleton → ∀ budget : Nat,
      alike budget m n = if n.depth .comparing ≤ budget then some true else none)
    {body' : List Node} (hs : skeletons body' = skeletons body) (budget : Nat) :
    allAlike budget body' body = if maxDepth .comparing body ≤ budget then some true else none := by
  induction body generalizing body' with
  | nil =>
    rw [skeletons_eq_nil hs]
    simp [allAlike, maxDepth]
  | cons n rest ih =>
    obtain ⟨m, others, rfl, hm, ho⟩ := skeletons_eq_cons hs
    rw [allAlike, h n (by simp) hm, ih (fun k hk => h k (by simp [hk])) ho, maxDepth]
    split_ifs <;> first | rfl | omega

/-- Statements with the same skeleton are alike, unless they are too deep for the comparison. -/
theorem SourceStatement.alike_eq {n : Node} (h : n.SourceStatement) {m : Node}
    (hm : m.skeleton = n.skeleton) (budget : Nat) :
    alike budget m n = if n.depth .comparing ≤ budget then some true else none := by
  induction h generalizing m budget with
  | @assign tag target name value hn hv =>
    obtain ⟨tag', target', value', rfl, hv'⟩ := skeleton_eq_assign hm
    rw [alike, if_pos rfl, hv.alike_eq hv', depth, WalkCost.comparing_statement]
    split_ifs <;> first | rfl | omega
  | @ret tag value hv =>
    obtain ⟨tag', value', rfl, hv'⟩ := skeleton_eq_ret hm
    rw [alike, hv.alike_eq hv', depth, WalkCost.comparing_statement]
    split_ifs <;> first | rfl | omega
  | @block tag table body hbody ih =>
    obtain ⟨tag', table', body', rfl, hb'⟩ := skeleton_eq_block hm
    -- the comparison looks at the lengths first
    have hlength : body'.length = body.length := by
      simpa [skeletons_eq_map] using congrArg List.length hb'
    rw [alike, if_neg (by simpa using hlength), allAlike_eq ih hb', depth,
      WalkCost.comparing_block]
    split_ifs <;> first | rfl | omega

end Comparing

end Node

end Dec
