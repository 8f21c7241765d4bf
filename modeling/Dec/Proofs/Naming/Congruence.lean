import Dec.Proofs.Grammar.Numbering
import Dec.Proofs.Naming.Lockstep

namespace Dec

def NameFault.unplaced : NameFault → NameFault
  | undeclared name _ similar assignedLater => .undeclared name none similar assignedLater
  | tooDeep _ => .tooDeep none

/-- A report goes by what is objected to, and its place is where that is. -/
theorem NameFault.diagnostic_unplaced (fault : NameFault) :
    fault.unplaced.diagnostic = { fault.diagnostic with location := none } := by
  cases fault <;> rfl

def Forest.assignsAround (f : Forest) (statement : Option Nat) (x : String) : Bool :=
  (statement.bind f.blockAround?).any fun table => table.bindings.contains x

abbrev SameCheck := SameWalk (α := Unit) NameFault.unplaced NameState.scopes

namespace Node

variable {f g : Forest} {whole whole' : Option Location}

/-- A name is reported with whether the block around its statement has it. -/
theorem undeclaredFault_eq (f : Forest) (statement : Option Nat) (scopes : Chain Scalar) (tag : Tag)
    (x : String) : undeclaredFault f statement scopes tag x =
      .undeclared x tag.location (scopes.similar x usualDistance) (f.assignsAround statement x) := by
  rw [undeclaredFault, Forest.assignsAround]
  cases statement.bind f.blockAround? <;> rfl

theorem unplaced_undeclaredFault (f : Forest) (statement : Option Nat) (scopes : Chain Scalar)
    (tag : Tag) (x : String) :
    (undeclaredFault f statement scopes tag x).unplaced =
      .undeclared x none (scopes.similar x usualDistance) (f.assignsAround statement x) := by
  rw [undeclaredFault_eq]
  rfl

/-- The names that statements assign go by their skeletons. -/
theorem assignedNames_congr (body body' : List Node) (h : skeletons body' = skeletons body) :
    assignedNames body' = assignedNames body := by
  have hname : ∀ n m : Node, m.skeleton = n.skeleton → assignedNames [m] = assignedNames [n] := by
    intro n m hm
    cases n with
    | literal => obtain ⟨_, rfl⟩ := skeleton_eq_literal hm; rfl
    | var => obtain ⟨_, rfl⟩ := skeleton_eq_var hm; rfl
    | binary => obtain ⟨_, _, _, rfl, -⟩ := skeleton_eq_binary hm; rfl
    | assign => obtain ⟨_, _, _, rfl, -⟩ := skeleton_eq_assign hm; rfl
    | ret => obtain ⟨_, _, rfl, -⟩ := skeleton_eq_ret hm; rfl
    | block => obtain ⟨_, _, _, rfl, -⟩ := skeleton_eq_block hm; rfl
  induction body generalizing body' with
  | nil => rw [skeletons_eq_nil h]
  | cons n rest ih =>
    obtain ⟨m, others, rfl, hm, ho⟩ := skeletons_eq_cons h
    have hcons (n : Node) (rest : List Node) :
        assignedNames (n :: rest) = assignedNames [n] ++ assignedNames rest := by
      rw [assignedNames, ← List.singleton_append, List.filterMap_append]
      rfl
    rw [hcons m, hcons n, hname n m hm, ih others ho]

/-- Expressions with the same skeleton are checked in the same way. -/
theorem checkNames_congr_of_isExpression (n m : Node) (hn : n.isExpression = true)
    (h : m.skeleton = n.skeleton) {statement statement' : Option Nat}
    (hs : ∀ x, f.assignsAround statement x = g.assignsAround statement' x) (budget : Nat)
    {r r' : NameState} (hr : r.scopes = r'.scopes) :
    SameCheck (n.checkNames f whole budget statement r)
      (m.checkNames g whole' budget statement' r') := by
  cases n with
  | literal tag value =>
    obtain ⟨tag', rfl⟩ := skeleton_eq_literal h
    exact ⟨rfl, hr⟩
  | var tag x =>
    obtain ⟨tag', rfl⟩ := skeleton_eq_var h
    rw [checkNames, checkNames, ← hr]
    split
    · exact ⟨rfl, hr⟩
    · refine ⟨congrArg Except.error ?_, hr⟩
      rw [unplaced_undeclaredFault, unplaced_undeclaredFault, hs]
  | binary tag op left right =>
    rw [isExpression, Bool.and_eq_true] at hn
    obtain ⟨tag', left', right', rfl, hl, hright⟩ := skeleton_eq_binary h
    rw [checkNames_binary, checkNames_binary]
    split
    · exact ⟨rfl, hr⟩
    · refine (checkNames_congr_of_isExpression left left' hn.1 hl hs _ hr).goOn
        (fun _ _ hs => hs) fun _ s s' hscopes => ?_
      exact checkNames_congr_of_isExpression right right' hn.2 hright hs _ hscopes
  | assign => cases hn
  | ret => cases hn
  | block => cases hn

/-- The statements of two blocks with the same skeletons are led to tables with the same names. -/
theorem assignsAround_congr {tag tag' : Tag} {table table' : Table} {body body' : List Node}
    (hk : f.Knows (.block tag table body)) (hk' : g.Knows (.block tag' table' body'))
    (ht : (block tag table body).Tabled) (ht' : (block tag' table' body').Tabled)
    (h : skeletons body' = skeletons body) {n m : Node} (hn : n ∈ body) (hm : m ∈ body') (x : String) :
    f.assignsAround (some n.id) x = g.assignsAround (some m.id) x := by
  have hnames : table.bindings.contains x = table'.bindings.contains x := by
    rw [Bool.eq_iff_iff, ht.1 x, ht'.1 x, assignedNames_congr body body' h]
  have hleft := Forest.blockAround?_of_owner? (hk.statements.1 n hn)
  have hright := Forest.blockAround?_of_owner? (hk'.statements.1 m hm)
  rw [Forest.assignsAround, Forest.assignsAround, Option.bind_some, Option.bind_some, hleft, hright,
    Option.any_some, Option.any_some, hnames]

mutual

/-- Trees with the same skeleton are checked in the same way. -/
theorem checkNames_congr (n m : Node) (hn : n.wellPlaced = true) (h : m.skeleton = n.skeleton)
    (hk : f.Knows n) (hk' : g.Knows m) (ht : n.Tabled) (ht' : m.Tabled)
    {statement statement' : Option Nat}
    (hs : ∀ x, f.assignsAround statement x = g.assignsAround statement' x)
    (hown : n.table? = none →
      ∀ x, f.assignsAround (some n.id) x = g.assignsAround (some m.id) x) (budget : Nat)
    {r r' : NameState} (hr : r.scopes = r'.scopes) :
    SameCheck (n.checkNames f whole budget statement r)
      (m.checkNames g whole' budget statement' r') := by
  cases n with
  | literal => exact checkNames_congr_of_isExpression _ m rfl h hs budget hr
  | var => exact checkNames_congr_of_isExpression _ m rfl h hs budget hr
  | binary tag op left right =>
    have he : (binary tag op left right).isExpression = true := hn
    exact checkNames_congr_of_isExpression _ m he h hs budget hr
  | assign tag target name value =>
    obtain ⟨tag', target', value', rfl, hv⟩ := skeleton_eq_assign h
    rw [checkNames_assign, checkNames_assign]
    split
    · exact ⟨rfl, hr⟩
    · -- the value belongs to the assignment
      refine (checkNames_congr_of_isExpression value value' hn hv (hown rfl) _ hr).goOn
        (fun _ _ hs => hs) fun _ s s' hs => ⟨rfl, ?_⟩
      exact congrArg (fun scopes => scopes.define name none) hs
  | ret tag value =>
    obtain ⟨tag', value', rfl, hv⟩ := skeleton_eq_ret h
    rw [checkNames, checkNames]
    split
    · exact ⟨rfl, hr⟩
    · exact checkNames_congr_of_isExpression value value' hn hv (hown rfl) _ hr
  | block tag table body =>
    obtain ⟨tag', table', body', rfl, hb⟩ := skeleton_eq_block h
    have haround : ∀ n ∈ body, ∀ m ∈ body', ∀ x,
        f.assignsAround (some n.id) x = g.assignsAround (some m.id) x :=
      fun _ hn _ hm x => assignsAround_congr hk hk' ht ht' hb hn hm x
    rw [checkNames_block, checkNames_block]
    split
    · exact ⟨rfl, hr⟩
    · refine (checkBody_congr body body' hn hb hk.statements.2 hk'.statements.2 ht.2 ht'.2 haround _
        ?_).goOn ?_ ?_
      · exact congrArg (fun scopes => .empty :: scopes) hr
      · exact fun s s' hs => congrArg List.tail hs
      · exact fun _ s s' hs => ⟨rfl, congrArg List.tail hs⟩

theorem checkBody_congr (body body' : List Node) (hn : allWellPlaced body = true)
    (h : skeletons body' = skeletons body) (hk : ∀ n ∈ body, f.Knows n)
    (hk' : ∀ m ∈ body', g.Knows m) (ht : AllTabled body) (ht' : AllTabled body')
    (haround : ∀ n ∈ body, ∀ m ∈ body', ∀ x,
      f.assignsAround (some n.id) x = g.assignsAround (some m.id) x) (budget : Nat)
    {r r' : NameState} (hr : r.scopes = r'.scopes) :
    SameCheck (checkBody f whole budget r body) (checkBody g whole' budget r' body') := by
  cases body with
  | nil =>
    obtain rfl := skeletons_eq_nil h
    exact ⟨rfl, hr⟩
  | cons n rest =>
    obtain ⟨m, others, rfl, hm, ho⟩ := skeletons_eq_cons h
    rw [allWellPlaced, Bool.and_eq_true] at hn
    obtain ⟨hkn, hkrest⟩ := List.forall_mem_cons.mp hk
    obtain ⟨hkm, hkothers⟩ := List.forall_mem_cons.mp hk'
    have hown := haround n List.mem_cons_self m List.mem_cons_self
    have hothers : ∀ n ∈ rest, ∀ m ∈ others, ∀ x,
        f.assignsAround (some n.id) x = g.assignsAround (some m.id) x :=
      fun n hn m hm => haround n (List.mem_cons_of_mem _ hn) m (List.mem_cons_of_mem _ hm)
    rw [checkBody_cons, checkBody_cons]
    refine (checkNames_congr n m hn.1 hm hkn hkm ht.1 ht'.1 hown (fun _ => hown) budget hr).goOn
      (fun _ _ hs => hs) fun _ s s' hs => ?_
    exact checkBody_congr rest others hn.2 ho hkrest hkothers ht.2 ht'.2 hothers budget hs

end

/-- Blocks with the same skeleton, each in a forest that knows it, pass the analysis alike, with the
same fault up to its place. -/
theorem analyzeNames_congr {n m : Node} (hn : n.wellPlaced = true) (hblock : n.table? ≠ none)
    (h : m.skeleton = n.skeleton) (hk : f.Knows n) (hk' : g.Knows m) (ht : n.Tabled) (ht' : m.Tabled)
    (budget : Nat) (predeclared : List String) :
    (analyzeNames budget f n predeclared).1.mapError NameFault.unplaced =
      (analyzeNames budget g m predeclared).1.mapError NameFault.unplaced := by
  have hs : ∀ x, f.assignsAround none x = g.assignsAround none x := fun _ => rfl
  exact (checkNames_congr n m hn h hk hk' ht ht' hs (fun hnone => absurd hnone hblock)
    budget rfl).1

end Node

end Dec
