import Dec.Tree

namespace Dec

inductive Skeleton where
  | literal (value : Number)
  | var (name : String)
  | binary (op : BinaryOp) (left right : Skeleton)
  | assign (name : String) (value : Skeleton)
  | ret (value : Skeleton)
  | block (body : List Skeleton)
deriving Inhabited

namespace Node

mutual

def skeleton : Node → Skeleton
  | literal _ value => .literal value
  | var _ name => .var name
  | binary _ op left right => .binary op left.skeleton right.skeleton
  | assign _ _ name value => .assign name value.skeleton
  | ret _ value => .ret value.skeleton
  | block _ _ body => .block (skeletons body)

def skeletons : List Node → List Skeleton
  | [] => []
  | n :: rest => n.skeleton :: skeletons rest

end

theorem skeletons_eq_map (body : List Node) : skeletons body = body.map skeleton := by
  induction body with
  | nil => rfl
  | cons n rest ih => rw [skeletons, ih, List.map_cons]

section Inversion

variable {n : Node}

theorem skeleton_eq_literal {value : Number} (h : n.skeleton = .literal value) :
    ∃ tag, n = .literal tag value := by
  cases n with
  | literal tag value' =>
    obtain rfl := Skeleton.literal.inj h
    exact ⟨tag, rfl⟩
  | _ => cases h

theorem skeleton_eq_var {name : String} (h : n.skeleton = .var name) :
    ∃ tag, n = .var tag name := by
  cases n with
  | var tag name' =>
    obtain rfl := Skeleton.var.inj h
    exact ⟨tag, rfl⟩
  | _ => cases h

theorem skeleton_eq_binary {op : BinaryOp} {l r : Skeleton} (h : n.skeleton = .binary op l r) :
    ∃ tag left right, n = .binary tag op left right ∧ left.skeleton = l ∧ right.skeleton = r := by
  cases n with
  | binary tag op' left right =>
    obtain ⟨rfl, hl, hr⟩ := Skeleton.binary.inj h
    exact ⟨tag, left, right, rfl, hl, hr⟩
  | _ => cases h

theorem skeleton_eq_assign {name : String} {v : Skeleton} (h : n.skeleton = .assign name v) :
    ∃ tag target value, n = .assign tag target name value ∧ value.skeleton = v := by
  cases n with
  | assign tag target name' value =>
    obtain ⟨rfl, hv⟩ := Skeleton.assign.inj h
    exact ⟨tag, target, value, rfl, hv⟩
  | _ => cases h

theorem skeleton_eq_ret {v : Skeleton} (h : n.skeleton = .ret v) :
    ∃ tag value, n = .ret tag value ∧ value.skeleton = v := by
  cases n with
  | ret tag value => exact ⟨tag, value, rfl, Skeleton.ret.inj h⟩
  | _ => cases h

theorem skeleton_eq_block {b : List Skeleton} (h : n.skeleton = .block b) :
    ∃ tag table body, n = .block tag table body ∧ skeletons body = b := by
  cases n with
  | block tag table body => exact ⟨tag, table, body, rfl, Skeleton.block.inj h⟩
  | _ => cases h

theorem skeletons_eq_cons {body : List Node} {s : Skeleton} {rest : List Skeleton}
    (h : skeletons body = s :: rest) :
    ∃ m others, body = m :: others ∧ m.skeleton = s ∧ skeletons others = rest := by
  cases body with
  | nil => cases h
  | cons m others =>
    obtain ⟨hm, ho⟩ := List.cons.inj h
    exact ⟨m, others, rfl, hm, ho⟩

theorem skeletons_eq_nil {body : List Node} (h : skeletons body = []) : body = [] := by
  cases body with
  | nil => rfl
  | cons m others => cases h

end Inversion

end Node

end Dec
