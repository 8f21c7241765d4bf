import Dec.Location
import Dec.Text.Casing

namespace Dec

structure Diagnostic where
  message : String
  location : Option Location
  severity : String := "error"
  code : Option String := none
  help : Option String := none
  suggestions : List String := []
deriving DecidableEq, Inhabited

namespace Diagnostic

def line (s : String) : String := s ++ "\n"

def nonempty? (s : Option String) : Option String := s.filter (· ≠ "")

def heading (d : Diagnostic) : String :=
  Text.upper d.severity ++
    (match nonempty? d.code with
      | some code => "[" ++ code ++ "]"
      | none => "") ++ ": " ++ d.message

def render (d : Diagnostic) : String :=
  line d.heading ++
  line ("  --> " ++ (match d.location with
    | some l => l.text
    | none => "<unknown>")) ++
  (match nonempty? d.help with
    | some help => line ("  help: " ++ help)
    | none => "") ++
  (if d.suggestions.isEmpty then ""
    else line "  suggestions:" ++
      String.join (d.suggestions.map fun s => line ("    - " ++ s)))

end Diagnostic

end Dec
