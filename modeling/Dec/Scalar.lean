import Dec.Number
import Dec.Text.Quoted

namespace Dec

inductive Scalar where
  | number (n : Number)
  | text (s : String)
  | flag (b : Bool)
deriving DecidableEq

namespace Scalar

instance : Inhabited Scalar := ⟨.flag false⟩

def flagText (b : Bool) : String := if b then "True" else "False"

def quoted? : Scalar → Option String
  | .number n => n.text?
  | .text s => some (Text.quoted s)
  | .flag b => some (flagText b)

def bare? : Scalar → Option String
  | .text s => some s
  | s => s.quoted?

/-- Truth values count as the integers zero and one. -/
def number? : Scalar → Option Number
  | .number n => some n
  | .flag b => some (.int (if b then 1 else 0))
  | .text _ => none

def same : Scalar → Scalar → Bool
  | .text s, .text t => s == t
  | s, t =>
    match s.number?, t.number? with
    | some m, some n => m.same n
    | _, _ => false

end Scalar

/-- A scalar that counts as equal to every scalar of the same value. -/
structure Label where
  scalar : Scalar
deriving Inhabited

instance : BEq Label := ⟨fun a b => a.scalar.same b.scalar⟩

def absentText : String := "None"

def quotedOrAbsent? : Option Scalar → Option String
  | none => some absentText
  | some s => s.quoted?

def bareOrAbsent? : Option Scalar → Option String
  | none => some absentText
  | some s => s.bare?

end Dec
