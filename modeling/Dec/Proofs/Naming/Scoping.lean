import Dec.Proofs.Naming.Unbound
import Dec.Proofs.Tree.Path
import Dec.Proofs.Tree.Sourced

namespace Dec

def WalkCost.naming : WalkCost := ⟨Node.operatorCost, Node.statementCost, Node.blockCost⟩

namespace WalkCost

theorem naming_operator : naming.operator = Node.operatorCost := rfl

theorem naming_statement : naming.statement = Node.statementCost := rfl

theorem naming_block : naming.block = Node.blockCost := rfl

end WalkCost

namespace Node

/-- A name has a meaning at a place: it is declared around the tree, or assigned on the way there.
-/
def BoundAt (declared : String → Prop) (n : Node) (path : List Nat) (x : String) : Prop :=
  declared x ∨ n.AssignedBefore path x

/-- Of the variables of a tree that are not bound, the first that a walk from left to right meets.
-/
structure FirstUnbound (declared : String → Prop) (n : Node) (path : List Nat) (tag : Tag)
    (x : String) : Prop where
  reads : n.ReadsAt path tag x
  unbound : ¬ n.BoundAt declared path x
  first : ∀ earlier < path, ∀ tag' y, n.ReadsAt earlier tag' y → n.BoundAt declared earlier y

inductive Verdict (declared : String → Prop) (n : Node) : Except NameFault Unit → Prop where
  | passed (h : ∀ path tag x, n.ReadsAt path tag x → n.BoundAt declared path x) :
      Verdict declared n (.ok ())
  | objected {path : List Nat} {tag : Tag} {x : String} {similar : List String} {later : Bool}
      (h : n.FirstUnbound declared path tag x) :
      Verdict declared n (.error (.undeclared x tag.location similar later))
  | tooDeep {l : Option Location} : Verdict declared n (.error (.tooDeep l))

section Places

variable {declared declared' : String → Prop} {n m : Node} {k : Nat}

/-- Below a child, a name is bound where it is bound in the child alone. A block also binds what it
assigns in front of the child. -/
theorem boundAt_cons (hm : n.children[k]? = some m)
    (hd : ∀ x, declared' x ↔ declared x ∨
      ∃ tag table body, n = .block tag table body ∧ ∃ s ∈ body.take k, s.assigns x = true)
    (path : List Nat) (x : String) :
    n.BoundAt declared (k :: path) x ↔ m.BoundAt declared' path x := by
  rw [BoundAt, BoundAt, assignedBefore_cons, hd, or_assoc, hm]
  simp

theorem readsAt_child (hm : n.children[k]? = some m) (hread : k ≠ 0 ∨ n.isAssignment = false)
    (path : List Nat) (tag : Tag) (x : String) :
    n.ReadsAt (k :: path) tag x ↔ m.ReadsAt path tag x := by
  rw [readsAt_cons, hm]
  constructor
  · rintro ⟨⟨m', hm', h⟩, -⟩
    obtain rfl := Option.some.inj hm'
    exact h
  · refine fun h => ⟨⟨m, rfl, h⟩, ?_⟩
    rintro ⟨hk, -, hassign⟩
    rcases hread with hread | hread
    · exact hread hk
    · rw [hread] at hassign
      cases hassign

/-- The first unbound variable of a child is that of the whole tree when no earlier child has one.
-/
theorem FirstUnbound.child {path : List Nat} {tag : Tag} {x : String}
    (h : m.FirstUnbound declared' path tag x) (hm : n.children[k]? = some m)
    (hread : k ≠ 0 ∨ n.isAssignment = false)
    (hd : ∀ x, declared' x ↔ declared x ∨
      ∃ tag table body, n = .block tag table body ∧ ∃ s ∈ body.take k, s.assigns x = true)
    (hbefore : ∀ j < k, ∀ p tag' y, n.ReadsAt (j :: p) tag' y → n.BoundAt declared (j :: p) y) :
    n.FirstUnbound declared (k :: path) tag x := by
  refine ⟨(readsAt_child hm hread path tag x).mpr h.reads, ?_, ?_⟩
  · rw [boundAt_cons hm hd]
    exact h.unbound
  · intro earlier hlt tag' y hy
    cases earlier with
    | nil =>
      -- a node with children is no variable
      obtain rfl := readsAt_nil.mp hy
      cases hm
    | cons j p =>
      rcases List.cons_lt_cons_iff.mp hlt with hj | ⟨rfl, hp⟩
      · exact hbefore j hj p tag' y hy
      · rw [boundAt_cons hm hd]
        exact h.first p hp tag' y ((readsAt_child hm hread p tag' y).mp hy)

def ChildBound (declared : String → Prop) (n : Node) (k : Nat) : Prop :=
  ∀ path tag x, n.ReadsAt (k :: path) tag x → n.BoundAt declared (k :: path) x

theorem Verdict.childBound (h : Verdict declared' m (.ok ())) (hm : n.children[k]? = some m)
    (hd : ∀ x, declared' x ↔ declared x ∨
      ∃ tag table body, n = .block tag table body ∧ ∃ s ∈ body.take k, s.assigns x = true) :
    n.ChildBound declared k := by
  intro path tag x hread
  cases h with
  | passed h =>
    obtain ⟨⟨m', hm', hread'⟩, -⟩ := readsAt_cons.mp hread
    obtain rfl := Option.some.inj (hm.symm.trans hm')
    exact (boundAt_cons hm hd path x).mpr (h path tag x hread')

/-- A fault below a child is that of the whole tree when no earlier child has one. -/
theorem Verdict.fault_child {fault : NameFault} (h : Verdict declared' m (.error fault))
    (hm : n.children[k]? = some m) (hread : k ≠ 0 ∨ n.isAssignment = false)
    (hd : ∀ x, declared' x ↔ declared x ∨
      ∃ tag table body, n = .block tag table body ∧ ∃ s ∈ body.take k, s.assigns x = true)
    (hbefore : ∀ j < k, n.ChildBound declared j) : Verdict declared n (.error fault) := by
  cases h with
  | objected h => exact .objected (h.child hm hread hd hbefore)
  | tooDeep => exact .tooDeep

/-- A node whose children have their variables bound passes. -/
theorem Verdict.passed_of_children (hn : ∀ tag x, n ≠ .var tag x)
    (h : ∀ k < n.children.length, n.ChildBound declared k) : Verdict declared n (.ok ()) := by
  refine .passed fun path tag x hread => ?_
  cases path with
  | nil => exact absurd (readsAt_nil.mp hread) (hn tag x)
  | cons k path =>
    obtain ⟨⟨m, hm, -⟩, -⟩ := readsAt_cons.mp hread
    obtain ⟨hk, -⟩ := List.getElem?_eq_some_iff.mp hm
    exact h k hk path tag x hread

/-- The verdict on the last child is that on the whole tree when no earlier child has an unbound
variable. -/
theorem Verdict.of_last_child {result : Except NameFault Unit} (h : Verdict declared' m result)
    (hm : n.children[k]? = some m) (hlast : n.children.length = k + 1)
    (hread : k ≠ 0 ∨ n.isAssignment = false)
    (hd : ∀ x, declared' x ↔ declared x ∨
      ∃ tag table body, n = .block tag table body ∧ ∃ s ∈ body.take k, s.assigns x = true)
    (hbefore : ∀ j < k, n.ChildBound declared j) : Verdict declared n result := by
  cases result with
  | error fault => exact h.fault_child hm hread hd hbefore
  | ok _ =>
    refine .passed_of_children (fun tag x hn => by subst hn; cases hm) fun j hj => ?_
    rw [hlast, Nat.lt_succ_iff_lt_or_eq] at hj
    rcases hj with hj | rfl
    · exact hbefore j hj
    · exact h.childBound hm hd

/-- The target of an assignment is no variable that is read. -/
theorem childBound_target (declared : String → Prop) (tag target : Tag) (name : String)
    (value : Node) : ChildBound declared (assign tag target name value) 0 := by
  intro path tag' x hread
  obtain ⟨⟨m, hm, hread'⟩, hnot⟩ := readsAt_cons.mp hread
  obtain rfl : var target name = m := Option.some.inj hm
  cases path with
  | nil => exact absurd ⟨rfl, rfl, rfl⟩ hnot
  | cons k path =>
    obtain ⟨⟨m, hm, -⟩, -⟩ := readsAt_cons.mp hread'
    cases hm

/-- A variable alone is read in one place. -/
theorem Verdict.var {tag : Tag} {x : String} (hx : declared x) :
    Verdict declared (.var tag x) (.ok ()) := by
  refine .passed fun path tag' y hread => .inl ?_
  cases path with
  | nil =>
    obtain ⟨-, rfl⟩ := Node.var.inj (readsAt_nil.mp hread)
    exact hx
  | cons k path =>
    obtain ⟨⟨m, hm, -⟩, -⟩ := readsAt_cons.mp hread
    cases hm

theorem FirstUnbound.var {tag : Tag} {x : String} (hx : ¬ declared x) :
    FirstUnbound declared (.var tag x) [] tag x := by
  refine ⟨readsAt_nil.mpr rfl, ?_, fun earlier hlt => absurd hlt (List.not_lt_nil _)⟩
  rintro (h | h)
  · exact hx h
  · exact not_assignedBefore_nil h

end Places

section Scopes

def declare : Node → Chain Scalar → Chain Scalar
  | assign _ _ name _, c => c.define name none
  | _, c => c

theorem tail_declare (n : Node) (c : Chain Scalar) : (n.declare c).tail = c.tail := by
  cases n with
  | assign => cases c <;> rfl
  | _ => rfl

theorem declare_ne_nil (n : Node) {c : Chain Scalar} (hc : c ≠ []) : n.declare c ≠ [] := by
  obtain ⟨b, outer, rfl⟩ := List.exists_cons_of_ne_nil hc
  cases n <;> exact List.cons_ne_nil _ _

theorem contains_declare (n : Node) {c : Chain Scalar} (hc : c ≠ []) (x : String) :
    (n.declare c).contains x = true ↔ c.contains x = true ∨ n.assigns x = true := by
  obtain ⟨b, outer, rfl⟩ := List.exists_cons_of_ne_nil hc
  cases n with
  | assign tag target name value =>
    simp only [declare, Chain.define, Chain.contains_cons, Bindings.contains_define, assigns,
      Bool.or_eq_true, decide_eq_true_iff, beq_iff_eq]
    constructor
    · rintro ((rfl | h) | h)
      · exact .inr rfl
      · exact .inl (.inl h)
      · exact .inl (.inr h)
    · rintro ((h | h) | rfl)
      · exact .inl (.inr h)
      · exact .inr h
      · exact .inl (.inl rfl)
  | _ => simp [declare, assigns]

/-- What the analysis of a node does to the scopes. A fault leaves them as they were. -/
inductive Leaves (n : Node) (c : Chain Scalar) : Except NameFault Unit × NameState → Prop where
  | passed {r : NameState} (h : r.scopes = n.declare c) : Leaves n c (.ok (), r)
  | failed {fault : NameFault} {r : NameState} (h : r.scopes = c) : Leaves n c (.error fault, r)

theorem Leaves.of_snd {n : Node} {r : NameState} {run : Except NameFault Unit × NameState}
    (hn : n.declare r.scopes = r.scopes) (h : run.2 = r) : Leaves n r.scopes run := by
  rcases run with ⟨fault | _, s⟩
  · exact .failed (congrArg NameState.scopes h)
  · exact .passed ((congrArg NameState.scopes h).trans hn.symm)

variable (f : Forest) (whole : Option Location)

/-- The analysis of an expression changes nothing. -/
theorem checkNames_state_of_isExpression (n : Node) (hn : n.isExpression = true) (budget : Nat)
    (statement : Option Nat) (r : NameState) :
    (n.checkNames f whole budget statement r).2 = r := by
  cases n with
  | literal => rfl
  | var tag name =>
    rw [checkNames]
    split <;> rfl
  | binary tag op left right =>
    rw [isExpression, Bool.and_eq_true] at hn
    have hl := checkNames_state_of_isExpression left hn.1 (budget - operatorCost) statement r
    have hr := checkNames_state_of_isExpression right hn.2 (budget - operatorCost) statement r
    rw [checkNames_binary]
    split
    · rfl
    · refine goOn_snd (· = r) (fun s hs => hs.symm.trans hl) fun _ s ha => ?_
      have hs : s = r := by rw [← hl, ha]
      rw [hs]
      exact hr
  | assign => cases hn
  | ret => cases hn
  | block => cases hn

mutual

/-- The analysis of a node binds at most the name that the node itself assigns. -/
theorem checkNames_leaves (n : Node) (hn : n.wellPlaced = true) (budget : Nat)
    (statement : Option Nat) (r : NameState) :
    Leaves n r.scopes (n.checkNames f whole budget statement r) := by
  cases n with
  | literal => exact .of_snd rfl rfl
  | var tag name =>
    exact .of_snd rfl (checkNames_state_of_isExpression f whole _ rfl budget statement r)
  | binary tag op left right =>
    exact .of_snd rfl (checkNames_state_of_isExpression f whole (binary tag op left right) hn budget
      statement r)
  | assign tag target name value =>
    have hv := checkNames_state_of_isExpression f whole value hn (budget - statementCost)
      (some tag.id) r
    rw [checkNames_assign]
    split
    · exact .failed rfl
    · rcases hrun : value.checkNames f whole (budget - statementCost) (some tag.id) r with
        ⟨fault | _, s⟩
      · rw [hrun] at hv
        exact .failed (congrArg NameState.scopes hv)
      · rw [hrun] at hv
        obtain rfl : s = r := hv
        exact .passed rfl
  | ret tag value =>
    rw [checkNames]
    split
    · exact .failed rfl
    · exact .of_snd rfl (checkNames_state_of_isExpression f whole value hn _ _ r)
  | block tag table body =>
    have hbody := checkBody_tail body hn (budget - blockCost)
      (r.enter.report (.entered r.enter.scopes.depth))
    rw [checkNames_block]
    split
    · exact .failed rfl
    -- the scope of the block is dropped, and those around it are as they were
    · rcases hrun : checkBody f whole (budget - blockCost)
        (r.enter.report (.entered r.enter.scopes.depth)) body with ⟨fault | _, s⟩
      · rw [hrun] at hbody
        exact .failed hbody
      · rw [hrun] at hbody
        exact .passed hbody

theorem checkBody_tail (body : List Node) (hn : allWellPlaced body = true) (budget : Nat)
    (r : NameState) : (checkBody f whole budget r body).2.scopes.tail = r.scopes.tail := by
  match body with
  | [] => rfl
  | n :: rest =>
    rw [allWellPlaced, Bool.and_eq_true] at hn
    have hfirst := checkNames_leaves n hn.1 budget (some n.id) r
    rw [checkBody_cons]
    rcases hrun : n.checkNames f whole budget (some n.id) r with ⟨fault | _, s⟩
    · rw [hrun] at hfirst
      cases hfirst with
      | failed h => exact congrArg List.tail h
    · rw [hrun] at hfirst
      cases hfirst with
      | passed h =>
        have hrest := checkBody_tail rest hn.2 budget s
        rw [goOn, hrest, h]
        exact tail_declare n r.scopes

end

end Scopes

section Verdicts

variable (f : Forest) (whole : Option Location)

mutual

/-- An analysis that is given at least the depth of a tree does not go too deep. -/
theorem checkNames_ne_tooDeep (n : Node) {budget : Nat} (hb : n.depth .naming ≤ budget)
    (statement : Option Nat) (r : NameState) (l : Option Location) :
    (n.checkNames f whole budget statement r).1 ≠ .error (.tooDeep l) := by
  cases n with
  | literal tag value => simp [checkNames]
  | var tag name =>
    rw [checkNames]
    split <;> simp [undeclaredFault]
  | binary tag op left right =>
    rw [depth, WalkCost.naming_operator] at hb
    rw [checkNames_binary, if_neg (by omega)]
    exact goOn_ne_error (checkNames_ne_tooDeep left (by omega) statement r l)
      fun _ s => checkNames_ne_tooDeep right (by omega) statement s l
  | assign tag target name value =>
    rw [depth, WalkCost.naming_statement] at hb
    rw [checkNames_assign, if_neg (by omega)]
    exact goOn_ne_error (checkNames_ne_tooDeep value (by omega) (some tag.id) r l)
      fun _ s => by simp
  | ret tag value =>
    rw [depth, WalkCost.naming_statement] at hb
    rw [checkNames, if_neg (by omega)]
    exact checkNames_ne_tooDeep value (by omega) (some tag.id) r l
  | block tag table body =>
    rw [depth, WalkCost.naming_block] at hb
    rw [checkNames_block, if_neg (by omega)]
    exact goOn_ne_error (checkBody_ne_tooDeep body (by omega) _ l) fun _ s => by simp

theorem checkBody_ne_tooDeep (body : List Node) {budget : Nat} (hb : maxDepth .naming body ≤ budget)
    (r : NameState) (l : Option Location) :
    (checkBody f whole budget r body).1 ≠ .error (.tooDeep l) := by
  match body with
  | [] => simp [checkBody]
  | n :: rest =>
    rw [maxDepth] at hb
    rw [checkBody_cons]
    exact goOn_ne_error (checkNames_ne_tooDeep n (by omega) (some n.id) r l)
      fun _ s => checkBody_ne_tooDeep rest (by omega) s l

end

mutual

/-- The analysis of a node gives the right verdict, whatever the scopes around it declare. -/
theorem checkNames_verdict (n : Node) (hn : n.wellPlaced = true) (budget : Nat)
    (statement : Option Nat) {r : NameState} (hr : r.scopes ≠ []) :
    Verdict (fun x => r.scopes.contains x = true) n (n.checkNames f whole budget statement r).1 := by
  cases n with
  | literal tag value =>
    exact .passed_of_children (by simp) fun k hk => absurd hk (Nat.not_lt_zero k)
  | var tag name =>
    rw [checkNames]
    split
    · rename_i hx
      exact .var hx
    · rename_i hx
      exact .objected (.var hx)
  | binary tag op left right =>
    rw [wellPlaced, Bool.and_eq_true] at hn
    rw [checkNames_binary]
    split
    · exact .tooDeep
    · have hl := checkNames_verdict left (wellPlaced_of_isExpression hn.1)
        (budget - operatorCost) statement hr
      have hstate := checkNames_state_of_isExpression f whole left hn.1 (budget - operatorCost)
        statement r
      rcases hrun : left.checkNames f whole (budget - operatorCost) statement r with ⟨fault | _, s⟩
      · rw [hrun] at hl
        exact hl.fault_child (k := 0) rfl (.inr rfl) (by simp) (by simp)
      -- the right operand is analyzed in the same scopes
      · rw [hrun] at hl hstate
        obtain rfl : s = r := hstate
        have hr' := checkNames_verdict right (wellPlaced_of_isExpression hn.2)
          (budget - operatorCost) statement hr
        refine hr'.of_last_child (k := 1) rfl rfl (.inr rfl) (by simp) fun j hj => ?_
        obtain rfl : j = 0 := by omega
        exact hl.childBound rfl (by simp)
  | assign tag target name value =>
    have hv := checkNames_verdict value (wellPlaced_of_isExpression hn) (budget - statementCost)
      (some tag.id) hr
    rw [checkNames_assign]
    split
    · exact .tooDeep
    · have hwhole : Verdict (fun x => r.scopes.contains x = true) (assign tag target name value)
          (value.checkNames f whole (budget - statementCost) (some tag.id) r).1 := by
        refine hv.of_last_child (k := 1) rfl rfl (.inl Nat.one_ne_zero) (by simp) fun j hj => ?_
        obtain rfl : j = 0 := by omega
        exact childBound_target _ tag target name value
      rcases hrun : value.checkNames f whole (budget - statementCost) (some tag.id) r with
        ⟨fault | _, s⟩ <;> rwa [hrun] at hwhole
  | ret tag value =>
    have hv := checkNames_verdict value (wellPlaced_of_isExpression hn) (budget - statementCost)
      (some tag.id) hr
    rw [checkNames]
    split
    · exact .tooDeep
    · exact hv.of_last_child (k := 0) rfl rfl (.inr rfl) (by simp) (by simp)
  | block tag table body =>
    rw [checkNames_block]
    split
    · exact .tooDeep
    · have hscopes (x : String) : r.enter.scopes.contains x = true ↔
          r.scopes.contains x = true ∨ ∃ s ∈ ([] : List Node), s.assigns x = true := by
        rw [NameState.enter, Chain.contains_cons]
        simp [Bindings.contains, Bindings.find?, Bindings.empty]
      have hbody := checkBody_verdict tag table [] body hn (budget - blockCost)
        (r := r.enter.report (.entered r.enter.scopes.depth)) (List.cons_ne_nil _ _) hscopes
        (by simp)
      rw [List.nil_append] at hbody
      rcases hrun : checkBody f whole (budget - blockCost)
        (r.enter.report (.entered r.enter.scopes.depth)) body with ⟨fault | _, s⟩
      · rw [hrun] at hbody
        exact hbody
      · rw [hrun] at hbody
        exact hbody

/-- The analysis of the statements of a block that follow some others, whose variables are bound. -/
theorem checkBody_verdict (tag : Tag) (table : Table) (front rest : List Node)
    (hn : allWellPlaced rest = true) (budget : Nat) {declared : String → Prop} {r : NameState}
    (hr : r.scopes ≠ [])
    (hscopes : ∀ x, r.scopes.contains x = true ↔ declared x ∨ ∃ s ∈ front, s.assigns x = true)
    (hfront : ∀ j < front.length, ChildBound declared (block tag table (front ++ rest)) j) :
    Verdict declared (block tag table (front ++ rest)) (checkBody f whole budget r rest).1 := by
  match rest with
  | [] =>
    refine .passed_of_children (by simp) fun k hk => hfront k ?_
    simpa [children] using hk
  | n :: rest =>
    rw [allWellPlaced, Bool.and_eq_true] at hn
    have hchild : (block tag table (front ++ n :: rest)).children[front.length]? = some n := by
      simp [children]
    have hd : ∀ x, r.scopes.contains x = true ↔ declared x ∨
        ∃ tag' table' body', block tag table (front ++ n :: rest) = .block tag' table' body' ∧
          ∃ s ∈ body'.take front.length, s.assigns x = true := by
      intro x
      rw [hscopes]
      simp
    have hfirst := checkNames_verdict n hn.1 budget (some n.id) hr
    have hleaves := checkNames_leaves f whole n hn.1 budget (some n.id) r
    rw [checkBody_cons]
    rcases hrun : n.checkNames f whole budget (some n.id) r with ⟨fault | _, s⟩
    · rw [hrun] at hfirst
      exact hfirst.fault_child hchild (.inr rfl) hd hfront
    · rw [hrun] at hfirst hleaves
      have hbound := hfirst.childBound hchild hd
      cases hleaves with
      | passed hs =>
        have hbody : (front ++ [n]) ++ rest = front ++ n :: rest := by simp
        have hscopes' (x : String) : s.scopes.contains x = true ↔
            declared x ∨ ∃ t ∈ front ++ [n], t.assigns x = true := by
          rw [hs, contains_declare n hr, hscopes, or_assoc]
          simp only [List.mem_append, List.mem_singleton, or_and_right, exists_or, exists_eq_left]
        have hfront' : ∀ j < (front ++ [n]).length,
            ChildBound declared (block tag table ((front ++ [n]) ++ rest)) j := by
          intro j hj
          rw [hbody]
          rw [List.length_append, List.length_singleton] at hj
          by_cases hlast : j = front.length
          · rw [hlast]
            exact hbound
          · exact hfront j (by omega)
        have hrest := checkBody_verdict tag table (front ++ [n]) rest hn.2 budget
          (by rw [hs]; exact declare_ne_nil n hr) hscopes' hfront'
        rwa [hbody] at hrest

end

end Verdicts

end Node

/-- Name analysis decides lexical scoping. A tree that is not too deep is analyzed to the end.
Unless it goes too deep, the analysis passes just the trees whose variables are all declared around
the tree or assigned before by a block around them, and it objects to the first variable that is
not, in its place. -/
theorem analyzeNames_decides_scoping (budget : Nat) (f : Forest) {n : Node}
    (hn : n.wellPlaced = true) (predeclared : List String) :
    (n.depth .naming ≤ budget →
      ∀ l, (analyzeNames budget f n predeclared).1 ≠ .error (.tooDeep l)) ∧
    ((∀ l, (analyzeNames budget f n predeclared).1 ≠ .error (.tooDeep l)) →
      ((analyzeNames budget f n predeclared).1 = .ok () ↔
        ∀ path tag x, n.ReadsAt path tag x → n.BoundAt (· ∈ predeclared) path x) ∧
      ((analyzeNames budget f n predeclared).1 ≠ .ok () →
        ∃ path tag x similar later, n.FirstUnbound (· ∈ predeclared) path tag x ∧
          (analyzeNames budget f n predeclared).1 =
            .error (.undeclared x tag.location similar later))) := by
  have hdeclared : (fun x => Chain.contains
      [Bindings.ofPairs (predeclared.map fun name => (name, (none : Option Scalar)))] x = true) =
        (· ∈ predeclared) := by
    funext x
    rw [Chain.contains_cons, eq_iff_iff, ← Bindings.contains_ofPairs x (none : Option Scalar)]
    simp [Chain.contains, Chain.find?]
  have hverdict := n.checkNames_verdict f n.location hn budget none
    (r := ⟨[.ofPairs (predeclared.map fun name => (name, none))], []⟩) (List.cons_ne_nil _ _)
  rw [hdeclared] at hverdict
  rw [analyzeNames_fst]
  refine ⟨fun hdepth => n.checkNames_ne_tooDeep f n.location hdepth none _, fun hlimit => ?_⟩
  generalize (n.checkNames f n.location budget none
    ⟨[.ofPairs (predeclared.map fun name => (name, none))], []⟩).1 = result at hverdict hlimit ⊢
  cases hverdict with
  | passed h => exact ⟨iff_of_true rfl h, fun hne => absurd rfl hne⟩
  | objected h =>
    refine ⟨iff_of_false (by simp) fun hall => ?_, fun _ => ⟨_, _, _, _, _, h, rfl⟩⟩
    exact h.unbound (hall _ _ _ h.reads)
  | tooDeep => exact absurd rfl (hlimit _)

/-- A block that reads a name which only a block inside it assigns. -/
theorem analyzeNames_decides_scoping_inner_name :
    ∃ path tag,
      Node.FirstUnbound (· ∈ ["z"])
        (.block ⟨0, none⟩ ⟨0, none, 0, .empty⟩
          [.assign ⟨1, none⟩ ⟨2, none⟩ "x" (.var ⟨3, none⟩ "z"),
            .block ⟨4, none⟩ ⟨1, some 0, 1, .empty⟩
              [.assign ⟨5, none⟩ ⟨6, none⟩ "y" (.var ⟨7, none⟩ "x")],
            .ret ⟨8, none⟩ (.binary ⟨9, none⟩ .plus (.var ⟨10, none⟩ "x")
              (.var ⟨11, some ⟨"f", 3, 12, 40⟩⟩ "y"))])
        path tag "y" ∧ tag.location = some ⟨"f", 3, 12, 40⟩ := by
  let n : Node := .block ⟨0, none⟩ ⟨0, none, 0, .empty⟩
    [.assign ⟨1, none⟩ ⟨2, none⟩ "x" (.var ⟨3, none⟩ "z"),
      .block ⟨4, none⟩ ⟨1, some 0, 1, .empty⟩
        [.assign ⟨5, none⟩ ⟨6, none⟩ "y" (.var ⟨7, none⟩ "x")],
      .ret ⟨8, none⟩ (.binary ⟨9, none⟩ .plus (.var ⟨10, none⟩ "x")
        (.var ⟨11, some ⟨"f", 3, 12, 40⟩⟩ "y"))]
  have hdecides := analyzeNames_decides_scoping 7 .empty (n := n) (by decide) ["z"]
  have hfault : ∃ similar later, (analyzeNames 7 .empty n ["z"]).1 =
      .error (.undeclared "y" (some ⟨"f", 3, 12, 40⟩) similar later) := ⟨_, _, rfl⟩
  obtain ⟨similar, later, hfault⟩ := hfault
  obtain ⟨path, tag, x, _, _, hfirst, hresult⟩ :=
    (hdecides.2 (hdecides.1 (by decide))).2 (by rw [hfault]; simp)
  rw [hfault] at hresult
  obtain ⟨rfl, hlocation, -, -⟩ := NameFault.undeclared.inj (Except.error.inj hresult)
  exact ⟨path, tag, hfirst, hlocation.symm⟩

end Dec
