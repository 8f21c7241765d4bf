import Dec.Proofs.Diagnosis
import Dec.Proofs.Evaluation.Handled
import Dec.Proofs.Number.Quotients

namespace Dec

/-- Why an evaluation that is watched halts: at a fault, at an operation whose result is not finite, or
where such a value would be stored. -/
inductive Halt where
  | fault (fault : EvalFault)
  | beyond (op : BinaryOp) (location : Option Location) (left right : Scalar)
  | stored (name : String) (value : Scalar)

namespace Scalar

def isFinite : Scalar → Bool
  | number n => n.isFinite
  | _ => false

end Scalar

/-- Evaluation under watch: nothing that is not finite comes out of an operator or into a scope. -/
def watching : Handling Halt where
  raise := .fault
  apply op location a b :=
    match op.apply location a b with
    | .error fault => .error (.fault fault)
    | .ok v => if v.isFinite then .ok v else .error (.beyond op location a b)
  store name v := if v.isFinite then .ok v else .error (.stored name v)

/-- Steps that go well do so one after the other. -/
theorem exists_of_bind_eq_ok {α β : Type} {first : Except EvalFault α}
    {next : α → Except EvalFault β} {b : β} (h : first >>= next = .ok b) :
    ∃ a, first = .ok a ∧ next a = .ok b := by
  cases first with
  | error fault => cases h
  | ok a => exact ⟨a, rfl, h⟩

namespace BinaryOp

variable {op : BinaryOp} {location : Option Location}

theorem onIntegers_eq_ok {f : Int → Int → Except EvalFault Number} {a b : Scalar} {v : Number}
    (h : op.onIntegers location f a b = .ok v) : ∃ i j, f i j = .ok v := by
  obtain ⟨i, -, h⟩ := exists_of_bind_eq_ok h
  obtain ⟨j, -, h⟩ := exists_of_bind_eq_ok h
  exact ⟨i, j, h⟩

theorem divideWhole_isFinite {part : Int × Int → Int} {i j : Int} {v : Number}
    (h : op.divideWhole location part i j = .ok v) : v.isFinite = true := by
  rw [divideWhole] at h
  split at h
  · cases h
  · obtain rfl := Except.ok.inj h
    rfl

theorem raise_isFinite {i j : Int} {v : Number} (h : op.raise location i j = .ok v) :
    v.isFinite = true := by
  rw [raise] at h
  split at h
  · cases h
  · obtain ⟨x, -, h⟩ := exists_of_bind_eq_ok h
    obtain ⟨y, -, h⟩ := exists_of_bind_eq_ok h
    dsimp only at h
    split at h
    · rename_i hfinite
      obtain rfl := Except.ok.inj h
      exact hfinite
    · cases h

/-- Every operator but division makes finite numbers only, whatever its operands are. -/
theorem apply_isFinite (hop : op ≠ .floatDiv) {a b : Scalar} {v : Number}
    (h : op.apply location a b = .ok v) : v.isFinite = true := by
  cases op with
  | plus | minus | times =>
    obtain ⟨i, j, h⟩ := onIntegers_eq_ok h
    obtain rfl := Except.ok.inj h
    rfl
  | floatDiv => exact absurd rfl hop
  | intDiv | modulus =>
    obtain ⟨i, j, h⟩ := onIntegers_eq_ok h
    exact divideWhole_isFinite h
  | power =>
    obtain ⟨i, j, h⟩ := onIntegers_eq_ok h
    exact raise_isFinite h

/-- A quotient is that of the doubles of the operands. -/
theorem divide_eq_ok {a b : Number} {v : Number}
    (h : op.divide location (.number a) (.number b) = .ok v) :
    ∃ x y, a.toBinary64? = some x ∧ b.toBinary64? = some y ∧ y.isZero = false ∧
      v = .float (x.div y) := by
  have hdouble : ∀ {w : Number} {x : Binary64}, op.doubleOf location (.number w) = .ok x →
      w.toBinary64? = some x := by
    intro w x hx
    have hget : w.toBinary64?.getDM (.error (EvalFault.overflow op location)) = Except.ok x := hx
    cases hw : w.toBinary64? with
    | none =>
      rw [hw] at hget
      cases hget
    | some y =>
      rw [hw] at hget
      obtain rfl := Except.ok.inj hget
      rfl
  rw [divide] at h
  split at h
  · cases h
  · obtain ⟨x, hx, h⟩ := exists_of_bind_eq_ok h
    obtain ⟨y, hy, h⟩ := exists_of_bind_eq_ok h
    split at h
    · cases h
    · rename_i hz
      obtain rfl := Except.ok.inj h
      exact ⟨x, y, hdouble hx, hdouble hy, by simpa using hz, rfl⟩

end BinaryOp

/-- The double of a finite number is finite. -/
theorem Number.toBinary64?_isFinite {v : Number} (hv : v.isFinite = true) {x : Binary64}
    (hx : v.toBinary64? = some x) : x.isFinite = true := by
  cases v with
  | int n =>
    obtain ⟨hfinite, hx⟩ := Option.ite_none_right_eq_some.mp hx
    obtain rfl := Option.some.inj hx
    exact hfinite
  | float y =>
    obtain rfl := Option.some.inj hx
    exact hv

/-- A division of two finite numbers that is too large: its quotient is at least half way beyond the
largest double, and it yields an infinity. -/
structure QuotientBeyond (location : Option Location) (a b : Number) (x y : Binary64) : Prop where
  left : a.isFinite = true ∧ a.toBinary64? = some x
  right : b.isFinite = true ∧ b.toBinary64? = some y
  nonzero : y.isZero = false
  beyond : Binary64.halfwayBeyond * y.units ≤ 2 * (x.units * unitsPerOne)
  value : BinaryOp.floatDiv.apply location (.number a) (.number b) =
    .ok (.float (.infinite (x.isNegative != y.isNegative)))

/-- Of finite numbers a division makes a finite one or one that is too large. -/
theorem divide_isFinite_or_beyond {location : Option Location} {a b v : Number}
    (ha : a.isFinite = true) (hb : b.isFinite = true)
    (h : BinaryOp.floatDiv.apply location (.number a) (.number b) = .ok v) :
    v.isFinite = true ∨ v.isFinite = false ∧ ∃ x y, QuotientBeyond location a b x y := by
  obtain ⟨x, y, hx, hy, hz, rfl⟩ := BinaryOp.divide_eq_ok h
  have hxf := Number.toBinary64?_isFinite ha hx
  have hyf := Number.toBinary64?_isFinite hb hy
  rcases hfinite : (x.div y).isFinite with _ | _
  · refine Or.inr ⟨hfinite, x, y, ⟨ha, hx⟩, ⟨hb, hy⟩, hz, ?_, ?_⟩
    · have hiff := Binary64.div_isFinite_iff hxf hyf hz
      rw [hfinite] at hiff
      simpa using hiff
    · rw [h, Binary64.div_eq_infinite hxf hyf hz hfinite]
  · exact Or.inl hfinite

def finiteValues : Promise where
  value v := ∃ n, v = .number n ∧ n.isFinite = true
  fault _ := True

def Halt.IsQuotient (halt : Halt) : Prop :=
  ∃ location a b x y, halt = .beyond .floatDiv location (.number a) (.number b) ∧
    QuotientBeyond location a b x y

theorem watching_agrees : watching.Agrees finiteValues Halt.IsQuotient where
  raise _ _ := trivial
  store := by
    rintro name _ ⟨n, rfl, hn⟩
    exact if_pos hn
  apply := by
    rintro op location _ _ ⟨a, rfl, ha⟩ ⟨b, rfl, hb⟩
    simp only [watching]
    cases h : op.apply location (.number a) (.number b) with
    | error fault => exact Or.inr ⟨rfl, trivial⟩
    | ok v =>
      by_cases hop : op = .floatDiv
      · subst hop
        rcases divide_isFinite_or_beyond ha hb h with hv | ⟨hv, x, y, hbeyond⟩
        · exact Or.inr ⟨if_pos hv, v, rfl, hv⟩
        · refine Or.inl ⟨_, if_neg (by simp [hv]), location, a, b, x, y, rfl, hbeyond⟩
      · have hv := BinaryOp.apply_isFinite hop h
        exact Or.inr ⟨if_pos hv, v, rfl, hv⟩

namespace Program

/-- The numbers of a program that was read are finite. -/
theorem numbers_isFinite {limit : Nat} {source file : String} {f : Forest} {n : Node}
    (h : (ofSource limit .making source file f).result = .ok (some n)) :
    ∀ v ∈ n.numbers, v.isFinite = true := by
  intro v hv
  have hwritable := (sourceProgram_of_ofSource h).statement.writable v hv
  cases v with
  | int i => rfl
  | float x => exact hwritable

/-- Evaluation hands out finite numbers until a quotient is too large. Take a program that was read and
bind finite numbers around it. Either it is evaluated just as under watch, where each result of an
operator and each value that is stored is found to be finite, and its own value is finite; or the watch
halts at a division of two finite numbers, whose quotient is too large and which yields an infinity
where a power that is too large is a fault. -/
theorem evaluate_finite_or_quotientBeyond {limit : Nat} {source file : String} {f : Forest}
    {n : Node} (h : (ofSource limit .making source file f).result = .ok (some n)) (budget : Nat)
    (e : Evaluator) (bindings : List (String × Option Number))
    (hb : ∀ name v, (name, some v) ∈ bindings → v.isFinite = true) :
    (e.evaluateHandled budget watching n (ofNumbers bindings) =
        (e.evaluate budget n (ofNumbers bindings)).1.mapError .fault ∧
      ∀ v, (e.evaluate budget n (ofNumbers bindings)).1 = .ok v →
        ∃ m, v = .number m ∧ m.isFinite = true) ∨
    ∃ location a b x y, e.evaluateHandled budget watching n (ofNumbers bindings) =
        .error (.beyond .floatDiv location (.number a) (.number b)) ∧
      QuotientBeyond location a b x y := by
  have hgiven : ∀ name v, (name, some v) ∈ ofNumbers bindings →
      ∃ m, v = Scalar.number m ∧ m.isFinite = true := by
    intro name v hv
    obtain ⟨m, rfl, hm⟩ := mem_ofNumbers hv
    exact ⟨m, rfl, hb name m hm⟩
  have hnumbers : ∀ v ∈ n.numbers, ∃ m, Scalar.number v = .number m ∧ m.isFinite = true :=
    fun v hv => ⟨v, rfl, numbers_isFinite h v hv⟩
  rcases Evaluator.evaluateHandled_follows watching_agrees budget e hnumbers hgiven with
    ⟨failure, hwatch, location, a, b, x, y, rfl, hbeyond⟩ | ⟨hwatch, hkept⟩
  · exact Or.inr ⟨location, a, b, x, y, hwatch, hbeyond⟩
  · refine Or.inl ⟨hwatch, ?_⟩
    intro v hv
    rw [hv] at hkept
    exact hkept

/-- A tree that was read and evaluated in one computation. -/
theorem exists_tree_of_map {ε β : Type} {r : Except ε (Option Node)} {f : Node → β} {b : β}
    (h : r.toOption.join.map f = some b) : ∃ n, r = .ok (some n) ∧ f n = b := by
  obtain ⟨n, hread, hb⟩ := Option.map_eq_some_iff.mp h
  refine ⟨n, ?_, hb⟩
  cases r with
  | error fault => cases hread
  | ok tree => exact congrArg Except.ok (Option.some.inj (Option.join_eq_some_iff.mp hread))

theorem evaluate_finite_or_quotientBeyond_sum :
    ∃ n, (ofSource 2 .making "\x7breturn (x + 2)\x7d" "f" .empty).result = .ok (some n) ∧
      (∀ name v, (name, some v) ∈ [("x", some (Number.int 7))] → v.isFinite = true) ∧
      ∃ v, (Evaluator.fresh.evaluate 10 n (ofNumbers [("x", some (.int 7))])).1 = .ok (.number v) ∧
        v.isFinite = true := by
  have hrun : ((ofSource 2 .making "\x7breturn (x + 2)\x7d" "f" .empty).result.toOption.join.map
      fun n => ((Evaluator.fresh.evaluate 10 n (ofNumbers [("x", some (.int 7))])).1,
        (Evaluator.fresh.evaluateHandled 10 watching n (ofNumbers [("x", some (.int 7))])).isOk)) =
      some (.ok (.number (.int 9)), true) := by decide +kernel
  obtain ⟨n, hread, hvalues⟩ := exists_tree_of_map hrun
  obtain ⟨hvalue, hwatched⟩ := Prod.mk.inj hvalues
  have hb : ∀ name v, (name, some v) ∈ [("x", some (Number.int 7))] → v.isFinite = true := by
    intro name v hv
    cases List.mem_singleton.mp hv
    rfl
  refine ⟨n, hread, hb, ?_⟩
  rcases evaluate_finite_or_quotientBeyond hread 10 .fresh _ hb with
    ⟨-, hfinite⟩ | ⟨_, _, _, _, _, hwatch, -⟩
  · obtain ⟨m, hm, hfinite⟩ := hfinite _ hvalue
    obtain rfl := Scalar.number.inj hm
    exact ⟨_, hvalue, hfinite⟩
  · -- there is no division in it
    rw [hwatch] at hwatched
    cases hwatched

def largeQuotient : String := "\x7b return (1e308 / 1e-308) \x7d"

/-- A quotient of two finite literals that is too large is handed out as an infinity. -/
theorem evaluate_quotient_infinite :
    ∃ n, (ofSource (usualLimit .making) .making largeQuotient "<string>" .empty).result =
        .ok (some n) ∧
      evaluate Node.usualBudget n [] = .ok (.number (.float (.infinite false))) := by
  have hrun : ((ofSource (usualLimit .making) .making largeQuotient "<string>"
      .empty).result.toOption.join.map fun n => evaluate Node.usualBudget n []) =
      some (.ok (.number (.float (.infinite false)))) := by decide +kernel
  exact exists_tree_of_map hrun

end Program

end Dec
