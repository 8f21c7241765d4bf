import Dec.Scope

namespace Dec

structure Enclosed (α : Type) where
  outer : Option Nat
  bindings : Bindings α
deriving Inhabited

structure Store (α : Type) where
  scopes : List (Enclosed α)
deriving Inhabited

namespace Store

variable {α : Type}

def empty : Store α := ⟨[]⟩

def add (s : Store α) (outer : Option Nat) : Store α × Nat :=
  (⟨s.scopes ++ [⟨outer, .empty⟩]⟩, s.scopes.length)

/-- A scope with those around it, innermost first. Only older scopes count as enclosing. -/
def chain (s : Store α) (id : Nat) : Chain α :=
  match s.scopes[id]? with
  | none => []
  | some scope =>
    scope.bindings ::
      match scope.outer with
      | none => []
      | some outer => if outer < id then chain s outer else []
termination_by id

def bindings (s : Store α) (id : Nat) : Bindings α :=
  (s.scopes[id]?.map (·.bindings)).getD .empty

def update (s : Store α) (id : Nat) (b : Bindings α) : Store α :=
  ⟨s.scopes.modify id fun scope => { scope with bindings := b }⟩

def define (s : Store α) (id : Nat) (name : String) (value : Option α) : Store α :=
  s.update id ((s.bindings id).define name value)

def remove? (s : Store α) (id : Nat) (name : String) : Option (Store α) :=
  ((s.bindings id).remove? name).map (s.update id)

def clear (s : Store α) (id : Nat) : Store α := s.update id .empty

def find? (s : Store α) (id : Nat) (name : String) : Option (Option α) := (s.chain id).find? name

def get (s : Store α) (id : Nat) (name : String) (default : Option α) : Option α :=
  (s.find? id name).getD default

def depth (s : Store α) (id : Nat) : Nat := (s.chain id).depth

end Store

def Bindings.details? (b : Bindings Scalar) (depth : Nat) : Option String := do
  let symbols ← b.quoted? quotedOrAbsent?
  return "SymbolTable(depth=" ++ decimalText depth ++ ", symbols=" ++ symbols ++ ")"

end Dec
