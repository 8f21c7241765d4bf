import Dec.Text.CaseTable

namespace Dec.Text

def CaseRun.find? (runs : List CaseRun) (code : Nat) : Option CaseRun :=
  runs.find? fun r => r.first ≤ code && code ≤ r.last && (code - r.first) % r.step == 0

def caseImage (long : List (Nat × List Nat)) (runs : List CaseRun) (c : Char) : List Char :=
  match long.lookup c.toNat with
  | some image => image.map Char.ofNat
  | none =>
    match CaseRun.find? runs c.toNat with
    | some run => [Char.ofNat (c.toNat + run.shift).toNat]
    | none => [c]

def upper (s : String) : String :=
  String.ofList (s.toList.flatMap (caseImage upperLong upperRuns))

def meetsCased (cs : List Char) : Bool :=
  match cs.dropWhile caseTransparent.contains with
  | [] => false
  | c :: _ => casedLetters.contains c

/-- The lower-case form of the characters `cs`, which stand after those of `before` (nearest first).
A capital sigma is final when a cased letter stands before it and none follows. -/
def lowerFrom : List Char → List Char → List Char
  | _, [] => []
  | before, c :: cs =>
    let image :=
      if c = 'Σ' then
        if meetsCased before && !meetsCased cs then ['ς'] else ['σ']
      else caseImage lowerLong lowerRuns c
    image ++ lowerFrom (c :: before) cs

def lower (s : String) : String :=
  String.ofList (lowerFrom [] s.toList)

end Dec.Text
