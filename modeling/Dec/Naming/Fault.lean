import Dec.Diagnostic

namespace Dec

/-- What name analysis objects to. An undeclared name comes with similar names that are visible, and
with whether its block assigns it too late. -/
inductive NameFault where
  | undeclared (name : String) (location : Option Location) (similar : List String)
      (assignedLater : Bool)
  | tooDeep (location : Option Location)
deriving DecidableEq

namespace NameFault

def titles : List (String × String) :=
  [("N001", "Undeclared variable"), ("N002", "Nesting too deep")]

def code : NameFault → String
  | undeclared .. => "N001"
  | tooDeep _ => "N002"

def offeredNames : Nat := 3

def undeclaredDiagnostic (name : String) (location : Option Location) (similar : List String)
    (assignedLater : Bool) : Diagnostic where
  message := "Undeclared variable: '" ++ name ++ "'"
  location := location
  code := some "N001"
  help := some <|
    if assignedLater then
      "'" ++ name ++ "' is assigned later in this block, but a variable " ++
        "can only be read after its assignment."
    else
      "'" ++ name ++ "' is not assigned before this use in the current or an enclosing block."
  suggestions := (similar.take offeredNames).map (fun s => "Did you mean '" ++ s ++ "'?") ++
    ["Assign '" ++ name ++ "' before using it"]

def tooDeepDiagnostic (location : Option Location) : Diagnostic where
  message := "Nesting too deep to analyze"
  location := location
  code := some "N002"
  help := some
    "The program nests blocks or expressions more deeply than name analysis can follow."

def diagnostic : NameFault → Diagnostic
  | undeclared name location similar later => undeclaredDiagnostic name location similar later
  | tooDeep location => tooDeepDiagnostic location

end NameFault

end Dec
