import Dec.Proofs.Anchoring
import Dec.Proofs.Naming.Scoping

namespace Dec

namespace NameFault

def laterHelp (x : String) : String :=
  "'" ++ x ++ "' is assigned later in this block, but a variable " ++
    "can only be read after its assignment."

def missingHelp (x : String) : String :=
  "'" ++ x ++ "' is not assigned before this use in the current or an enclosing block."

theorem laterHelp_ne_missingHelp (x : String) : laterHelp x ≠ missingHelp x := by
  intro h
  have htext := congrArg String.toList h
  simp only [laterHelp, missingHelp, String.toList_append, List.append_assoc,
    List.append_right_inj] at htext
  exact absurd htext (by decide)

theorem help_undeclared (x : String) (l : Option Location) (similar : List String) (later : Bool) :
    (undeclared x l similar later).diagnostic.help =
      some (if later then laterHelp x else missingHelp x) := by
  cases later <;> rfl

end NameFault

namespace Node

structure StatementAt (n : Node) (above : List Nat) (body : List Node) (k : Nat) : Prop where
  block : ∃ tag table, n.at? above = some (.block tag table body)
  statement : ∃ s, body[k]? = some s ∧ (s.isAssignment = true ∨ s.isReturn = true)

theorem mem_assignedNames_iff {body : List Node} {x : String} :
    x ∈ assignedNames body ↔ ∃ s ∈ body, s.assigns x = true := by
  rw [assignedNames, List.mem_filterMap]
  refine exists_congr fun s => and_congr_right fun _ => ?_
  cases s <;> simp [assigns]

section Fault

variable {f : Forest} {whole : Option Location} {x : String} {l : Option Location}
  {similar : List String} {later : Bool}

/-- An expression that reads a name too early does so at a place of its own, and the hint goes by
the block around its statement. -/
theorem checkNames_undeclared_of_isExpression (e : Node) (he : e.isExpression = true) {budget : Nat}
    {statement : Option Nat} {r : NameState}
    (h : (e.checkNames f whole budget statement r).1 = .error (.undeclared x l similar later)) :
    later = f.assignsAround statement x ∧ ∃ path tag, e.ReadsAt path tag x ∧ tag.location = l := by
  cases e with
  | literal => cases h
  | var tag name =>
    rw [checkNames] at h
    split at h
    · cases h
    · have hfault := (undeclaredFault_eq f statement r.scopes tag name).symm.trans
        (Except.error.inj h)
      obtain ⟨rfl, rfl, -, rfl⟩ := NameFault.undeclared.inj hfault
      exact ⟨rfl, [], tag, readsAt_nil.mpr rfl, rfl⟩
  | binary tag op left right =>
    rw [isExpression, Bool.and_eq_true] at he
    rw [checkNames_binary] at h
    split at h
    · cases h
    · rcases goOn_fst_eq_error h with h | ⟨_, s, -, h⟩
      · obtain ⟨hlater, path, tag', hread, hplace⟩ :=
          checkNames_undeclared_of_isExpression left he.1 h
        exact ⟨hlater, 0 :: path, tag', (readsAt_child rfl (.inr rfl) _ _ _).mpr hread, hplace⟩
      · obtain ⟨hlater, path, tag', hread, hplace⟩ :=
          checkNames_undeclared_of_isExpression right he.2 h
        exact ⟨hlater, 1 :: path, tag', (readsAt_child rfl (.inr rfl) _ _ _).mpr hread, hplace⟩
  | assign => cases he
  | ret => cases he
  | block => cases he

/-- An assignment or a return that reads a name too early. -/
theorem SourceStatement.checkNames_undeclared {n : Node} (hn : n.SourceStatement)
    (htable : n.table? = none) {budget : Nat} {statement : Option Nat} {r : NameState}
    (h : (n.checkNames f whole budget statement r).1 = .error (.undeclared x l similar later)) :
    (n.isAssignment = true ∨ n.isReturn = true) ∧ later = f.assignsAround (some n.id) x ∧
      ∃ path tag, n.ReadsAt path tag x ∧ tag.location = l := by
  cases hn with
  | assign tag target hname hv =>
    rw [checkNames_assign] at h
    split at h
    · cases h
    · rcases goOn_fst_eq_error h with h | ⟨_, s, -, h⟩
      · obtain ⟨hlater, path, tag', hread, hplace⟩ :=
          checkNames_undeclared_of_isExpression _ hv.isExpression h
        exact ⟨.inl rfl, hlater, 1 :: path, tag',
          (readsAt_child rfl (.inl Nat.one_ne_zero) _ _ _).mpr hread, hplace⟩
      · cases h
  | ret tag hv =>
    rw [checkNames] at h
    split at h
    · cases h
    · obtain ⟨hlater, path, tag', hread, hplace⟩ :=
        checkNames_undeclared_of_isExpression _ hv.isExpression h
      exact ⟨.inr rfl, hlater, 0 :: path, tag', (readsAt_child rfl (.inr rfl) _ _ _).mpr hread,
        hplace⟩
  | block tag table hb => cases htable

/-- Where the statements of a block fail, one of them does. -/
theorem exists_of_checkBody_eq_error {body : List Node} {budget : Nat} {r : NameState}
    {fault : NameFault} (h : (checkBody f whole budget r body).1 = .error fault) :
    ∃ (k : Nat) (s : Node) (r' : NameState), body[k]? = some s ∧
      (s.checkNames f whole budget (some s.id) r').1 = .error fault := by
  induction body generalizing r with
  | nil => cases h
  | cons n rest ih =>
    rw [checkBody_cons] at h
    rcases goOn_fst_eq_error h with h | ⟨_, s, -, h⟩
    · exact ⟨0, n, r, rfl, h⟩
    · obtain ⟨k, s, r', hs, hfault⟩ := ih h
      exact ⟨k + 1, s, r', hs, hfault⟩

/-- A statement of a known block is led to the table of the block, which has the names that the
block assigns. -/
theorem assignsAround_iff {tag : Tag} {table : Table} {body : List Node}
    (hk : f.Knows (.block tag table body)) (ht : (block tag table body).Tabled) {s : Node}
    (hs : s ∈ body) (x : String) :
    f.assignsAround (some s.id) x = true ↔ ∃ s' ∈ body, s'.assigns x = true := by
  have htable := Forest.blockAround?_of_owner? (hk.statements.1 s hs)
  rw [Forest.assignsAround, Option.bind_some, htable, Option.any_some, ht.1 x,
    mem_assignedNames_iff]

/-- A block that reads a name too early, somewhere inside, does so in an assignment or a return, and
the hint tells whether the block directly around that assigns the name, be it before or later. -/
theorem SourceStatement.checkNames_undeclared_inside {n : Node} (hn : n.SourceStatement)
    (hblock : n.table? ≠ none) (hk : f.Knows n) (ht : n.Tabled) {budget : Nat}
    {statement : Option Nat} {r : NameState}
    (h : (n.checkNames f whole budget statement r).1 = .error (.undeclared x l similar later)) :
    ∃ above body k inner tag, n.StatementAt above body k ∧
      n.ReadsAt (above ++ k :: inner) tag x ∧ tag.location = l ∧
      (later = true ↔ ∃ s ∈ body, s.assigns x = true) := by
  induction hn generalizing budget statement r with
  | assign => exact absurd rfl hblock
  | ret => exact absurd rfl hblock
  | @block tag table body hb ih =>
    rw [checkNames_block] at h
    split at h
    · cases h
    rcases goOn_fst_eq_error h with h | ⟨_, s, -, h⟩
    -- leaving the block does not fail, so one of its statements does
    · obtain ⟨k, s, r', hs, h⟩ := exists_of_checkBody_eq_error h
      have hmem := List.mem_of_getElem? hs
      have hchild : (Node.block tag table body).children[k]? = some s := hs
      have hread (path : List Nat) (tag' : Tag) :=
        readsAt_child hchild (.inr rfl) path tag' x
      cases hinner : s.table? with
      | none =>
        -- an assignment or a return of this block, whose table decides
        obtain ⟨hkind, rfl, path, tag', hpath, hplace⟩ := (hb s hmem).checkNames_undeclared hinner h
        exact ⟨[], body, k, path, tag', ⟨⟨tag, table, rfl⟩, s, hs, hkind⟩,
          (hread path tag').mpr hpath, hplace, assignsAround_iff hk ht hmem x⟩
      | some inside =>
        -- the block that decides is inside this one, or is the one that stands here
        obtain ⟨above, body', j, path, tag', hat, hpath, hplace, hlater⟩ :=
          ih s hmem (by rw [hinner]; simp) (hk.statements.2 s hmem) (ht.2.tabled s hmem) h
        obtain ⟨⟨tag'', table', hblock'⟩, hstatement⟩ := hat
        refine ⟨k :: above, body', j, path, tag', ⟨⟨tag'', table', ?_⟩, hstatement⟩,
          (hread _ tag').mpr hpath, hplace, hlater⟩
        rw [at?_cons, hchild, Option.bind_some, hblock']
    · cases h

end Fault

/-- Where a name is not assigned in front of a statement, the block around that assigns it in the
statement itself or behind it, if at all. -/
theorem StatementAt.assigns_iff {n : Node} {above inner : List Nat} {body : List Node} {k : Nat}
    {x : String} (h : n.StatementAt above body k)
    (hbefore : ¬ n.AssignedBefore (above ++ k :: inner) x) :
    (∃ s ∈ body, s.assigns x = true) ↔
      ∃ (j : Nat) (s : Node), k ≤ j ∧ body[j]? = some s ∧ s.assigns x = true := by
  constructor
  · rintro ⟨s, hs, hx⟩
    obtain ⟨j, hj⟩ := List.mem_iff_getElem?.mp hs
    refine ⟨j, s, ?_, hj, hx⟩
    -- in front of the statement it would bind the name there
    by_contra hlt
    obtain ⟨tag, table, hblock⟩ := h.block
    have hfront : (body.take k)[j]? = some s := by
      rw [List.getElem?_take_of_lt (Nat.lt_of_not_le hlt), hj]
    exact hbefore ⟨above, k, inner, tag, table, body, rfl, hblock, s,
      List.mem_of_getElem? hfront, hx⟩
  · rintro ⟨j, s, -, hj, hx⟩
    exact ⟨s, List.mem_of_getElem? hj, hx⟩

/-- The analysis gives the right verdict with the predeclared names in scope. -/
theorem analyzeNames_verdict (budget : Nat) (f : Forest) {n : Node} (hn : n.wellPlaced = true)
    (predeclared : List String) :
    Verdict (· ∈ predeclared) n (analyzeNames budget f n predeclared).1 := by
  have hscope (x : String) : Chain.contains
      [Bindings.ofPairs (predeclared.map fun name => (name, (none : Option Scalar)))] x = true ↔
        x ∈ predeclared := by
    rw [Chain.contains_cons, ← Bindings.contains_ofPairs x (none : Option Scalar)]
    simp [Chain.contains, Chain.find?]
  have hverdict := n.checkNames_verdict f n.location hn budget none
    (r := ⟨[.ofPairs (predeclared.map fun name => (name, none))], []⟩) (List.cons_ne_nil _ _)
  rw [analyzeNames_fst]
  rwa [funext fun x => propext (hscope x)] at hverdict

/-- A variable that a verdict objects to is the first one that is not bound. -/
theorem Verdict.exists_firstUnbound {declared : String → Prop} {n : Node} {x : String}
    {l : Option Location} {similar : List String} {later : Bool}
    (h : Verdict declared n (.error (.undeclared x l similar later))) :
    ∃ path tag, n.FirstUnbound declared path tag x ∧ tag.location = l := by
  cases h with
  | objected h => exact ⟨_, _, h, rfl⟩

end Node

namespace Program

variable {limit budget : Nat} {source file : String} {f : Forest} {n : Node}

/-- What is read at one place of a source text is one variable. -/
theorem path_eq_of_location (h : (ofSource limit .making source file f).result = .ok (some n))
    {p q : List Nat} {tag tag' : Tag} {x y : String} (hp : n.ReadsAt p tag x)
    (hq : n.ReadsAt q tag' y) (hplace : tag.location = tag'.location) : p = q := by
  have hsame : Node.var tag x = .var tag' y := by
    by_contra hne
    -- two nodes of the tree come one behind the other, in one order or the other
    have horder : n.nodes.Pairwise fun a b => a.Precedes b ∨ b.Precedes a :=
      (pairwise_nodes h).imp .inl
    have hoffset : (Node.var tag x).offset = (Node.var tag' y).offset := by
      rw [Node.offset, Node.offset, Node.location, Node.location, Node.tag, Node.tag, hplace]
    have : Std.Symm fun a b : Node => a.Precedes b ∨ b.Precedes a := ⟨fun _ _ => Or.symm⟩
    have hbefore := horder.forall (Node.mem_nodes_of_at? hp.1) (Node.mem_nodes_of_at? hq.1) hne
    -- at one place only a target comes behind its assignment, and neither is an assignment
    rcases hbefore with (hlt | ⟨-, _, _, _, _, hassign, -⟩) | (hlt | ⟨-, _, _, _, _, hassign, -⟩)
    · omega
    · cases hassign
    · omega
    · cases hassign
  have hids : (n.nodes.filterMap fun m => some m.id).Nodup := by
    rw [List.filterMap_eq_map', ← Node.ids_eq_map_nodes]
    exact (ofSource_hosts h).nodup
  exact Node.at?_injective hids hp.1 hq.1 rfl (by rw [hsame])

/-- The hint that comes with an undeclared name tells the truth. Where a program that was read fails
the analysis, its first unbound variable is read in an assignment or a return, and the name is said
to be assigned later just where the block directly around that assigns it there or behind it. What
other blocks assign, and what is assigned before, is no reason for the hint. -/
theorem analyzeNames_assignedLater
    (h : (ofSource limit .making source file f).result = .ok (some n))
    {predeclared : List String} {x : String} {l : Option Location} {similar : List String}
    {later : Bool}
    (hfault : (analyzeNames budget (ofSource limit .making source file f).forest n predeclared).1 =
      .error (.undeclared x l similar later)) :
    ∃ above body k inner tag, n.StatementAt above body k ∧
      n.FirstUnbound (· ∈ predeclared) (above ++ k :: inner) tag x ∧ tag.location = l ∧
      ((NameFault.undeclared x l similar later).diagnostic.help = some (NameFault.laterHelp x) ↔
        ∃ (j : Nat) (s : Node), k ≤ j ∧ body[j]? = some s ∧ s.assigns x = true) ∧
      ((NameFault.undeclared x l similar later).diagnostic.help ≠ some (NameFault.laterHelp x) →
        (NameFault.undeclared x l similar later).diagnostic.help =
          some (NameFault.missingHelp x)) := by
  have hprogram := sourceProgram_of_ofSource h
  have hhosts := ofSource_hosts h
  have hverdict := Node.analyzeNames_verdict budget (ofSource limit .making source file f).forest
    hprogram.statement.wellPlaced predeclared
  rw [hfault] at hverdict
  rw [analyzeNames_fst] at hfault
  have hblock : n.table? ≠ none := by
    obtain ⟨tag, table, body, rfl⟩ := hprogram.isBlock
    simp [Node.table?]
  obtain ⟨above, body, k, inner, tag, hat, hread, hplace, hlater⟩ :=
    hprogram.statement.checkNames_undeclared_inside hblock hhosts.knows hhosts.tabled hfault
  -- the variable that the hint is about is the first one that is not bound
  obtain ⟨path, tag', hfirst, hplace'⟩ := hverdict.exists_firstUnbound
  obtain rfl := path_eq_of_location h hfirst.reads hread (hplace'.trans hplace.symm)
  obtain ⟨rfl, -⟩ := Node.var.inj (Option.some.inj (hfirst.reads.1.symm.trans hread.1))
  have hassigns := hat.assigns_iff fun hbefore => hfirst.unbound (.inr hbefore)
  rw [hassigns] at hlater
  have hne := NameFault.laterHelp_ne_missingHelp x
  rw [NameFault.help_undeclared]
  refine ⟨above, body, k, inner, tag', hat, hfirst, hplace, ?_, ?_⟩
  · rw [← hlater]
    cases later <;> simp [hne.symm]
  · cases later <;> simp

/-- A block assigns `y` in terms of itself, after a block inside it has assigned another `y`. -/
theorem analyzeNames_assignedLater_own_name :
    ∃ n above body k inner tag,
      (ofSource 3 .making "\x7b\x7by := 1\x7d y := (y + 1)\x7d" "f" .empty).result = .ok (some n) ∧
      (analyzeNames 9 (ofSource 3 .making "\x7b\x7by := 1\x7d y := (y + 1)\x7d" "f" .empty).forest n
        []).1 = .error (.undeclared "y" (some ⟨"f", 1, 17, 16⟩) [] true) ∧
      n.StatementAt above body k ∧ n.FirstUnbound (· ∈ []) (above ++ k :: inner) tag "y" ∧
      tag.location = some ⟨"f", 1, 17, 16⟩ ∧
      ∃ (j : Nat) (s : Node), k ≤ j ∧ body[j]? = some s ∧ s.assigns "y" = true := by
  let place (i : Int) : Option Location := some ⟨"f", 1, i + 1, i⟩
  let tokens : List Token :=
    [⟨.leftBrace, "\x7b", none, place 0⟩, ⟨.leftBrace, "\x7b", none, place 1⟩,
      ⟨.identifier, "y", some (.text "y"), place 2⟩, ⟨.assign, ":=", none, place 4⟩,
      ⟨.integer, "1", some (.number (.int 1)), place 7⟩, ⟨.rightBrace, "\x7d", none, place 8⟩,
      ⟨.identifier, "y", some (.text "y"), place 10⟩, ⟨.assign, ":=", none, place 12⟩,
      ⟨.leftParen, "(", none, place 15⟩, ⟨.identifier, "y", some (.text "y"), place 16⟩,
      ⟨.operator .plus, "+", none, place 18⟩, ⟨.integer, "1", some (.number (.int 1)), place 20⟩,
      ⟨.rightParen, ")", none, place 21⟩, ⟨.rightBrace, "\x7d", none, place 22⟩,
      .endOfInput (place 23)]
  let inside : Node := .block ⟨3, place 1⟩ ⟨1, some 0, 1, ⟨[("y", none)]⟩⟩
    [.assign ⟨2, place 2⟩ ⟨1, place 2⟩ "y" (.literal ⟨0, place 7⟩ (.int 1))]
  let sum : Node :=
    .binary ⟨6, place 15⟩ .plus (.var ⟨4, place 16⟩ "y") (.literal ⟨5, place 20⟩ (.int 1))
  let n : Node := .block ⟨9, place 0⟩ ⟨0, none, 0, ⟨[("y", none)]⟩⟩
    [inside, .assign ⟨8, place 10⟩ ⟨7, place 10⟩ "y" sum]
  have htokens : tokenize "\x7b\x7by := 1\x7d y := (y + 1)\x7d" "f" = .ok tokens := by
    decide +kernel
  have hn : (ofSource 3 .making "\x7b\x7by := 1\x7d y := (y + 1)\x7d" "f" .empty).result =
      .ok (some n) := by
    rw [ofSource_of_tokenize htokens]
    rfl
  have hfault : (analyzeNames 9
      (ofSource 3 .making "\x7b\x7by := 1\x7d y := (y + 1)\x7d" "f" .empty).forest n []).1 =
        .error (.undeclared "y" (some ⟨"f", 1, 17, 16⟩) [] true) := by
    rw [ofSource_of_tokenize htokens]
    decide +kernel
  obtain ⟨above, body, k, inner, tag, hat, hfirst, hplace, hhint, -⟩ :=
    analyzeNames_assignedLater hn hfault
  have hhelp := NameFault.help_undeclared "y" (some ⟨"f", 1, 17, 16⟩) [] true
  exact ⟨n, above, body, k, inner, tag, hn, hfault, hat, hfirst, hplace, hhint.mp hhelp⟩

end Program

end Dec
