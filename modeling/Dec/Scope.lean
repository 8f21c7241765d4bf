import Dec.Scalar

namespace Dec

/-- One scope: names with values that may be missing, oldest first. -/
structure Bindings (α : Type) where
  entries : List (String × Option α)
deriving DecidableEq, Inhabited

namespace Bindings

variable {α : Type}

def empty : Bindings α := ⟨[]⟩

def setEntry (name : String) (value : Option α) :
    List (String × Option α) → List (String × Option α)
  | [] => [(name, value)]
  | entry :: rest =>
    if entry.1 = name then (name, value) :: rest else entry :: setEntry name value rest

/-- Binds a name, which keeps its place if it has one. -/
def define (b : Bindings α) (name : String) (value : Option α) : Bindings α :=
  ⟨setEntry name value b.entries⟩

def ofPairs (pairs : List (String × Option α)) : Bindings α :=
  pairs.foldl (fun b p => b.define p.1 p.2) empty

/-- The value a name is bound to, if it is bound; the value itself may be missing. -/
def find? (b : Bindings α) (name : String) : Option (Option α) := b.entries.lookup name

def contains (b : Bindings α) (name : String) : Bool := (b.find? name).isSome

def remove? (b : Bindings α) (name : String) : Option (Bindings α) :=
  if b.contains name then some ⟨b.entries.filter fun e => e.1 ≠ name⟩ else none

def names (b : Bindings α) : List String := b.entries.map (·.1)

def size (b : Bindings α) : Nat := b.entries.length

def text? (shown : Option α → Option String) (b : Bindings α) : Option String :=
  if b.entries.isEmpty then some "\x7b \x7d"
  else do
    let items ← b.entries.mapM fun (name, value) => (name ++ " : " ++ ·) <$> shown value
    return "\x7b " ++ ", ".intercalate items ++ " \x7d"

def quoted? (shown : Option α → Option String) (b : Bindings α) : Option String := do
  let items ← b.entries.mapM fun (name, value) => (Text.quoted name ++ ": " ++ ·) <$> shown value
  return "\x7b" ++ ", ".intercalate items ++ "\x7d"

end Bindings

/-- A scope with the scopes around it, innermost first. -/
abbrev Chain (α : Type) := List (Bindings α)

namespace Chain

variable {α : Type}

/-- What the innermost scope that binds a name binds it to. -/
def find? : Chain α → String → Option (Option α)
  | [], _ => none
  | b :: outer, name =>
    match b.find? name with
    | some value => some value
    | none => find? outer name

def contains (c : Chain α) (name : String) : Bool := (find? c name).isSome

def define : Chain α → String → Option α → Chain α
  | [], _, _ => []
  | b :: outer, name, value => b.define name value :: outer

def visible (c : Chain α) : List String := (c.flatMap Bindings.names).eraseDups

def depth (c : Chain α) : Nat := c.length - 1

end Chain

end Dec
