import Dec.Scope
import Dec.Text.Casing

namespace Dec

namespace EditDistance

/-- The rest of a row for the character `c`, given the entry to the left and, from the entry above
and to the left onwards, the row before. -/
def fillRow (c : Char) : Nat → List Nat → List Char → List Nat
  | left, diagonal :: above :: row, d :: ds =>
    let here := min (min (above + 1) (left + 1)) (diagonal + if c = d then 0 else 1)
    left :: fillRow c here (above :: row) ds
  | left, _, _ => [left]

def nextRow (ds : List Char) (row : List Nat) (c : Char) : List Nat :=
  fillRow c (row.headD 0 + 1) row ds

def byRows (cs ds : List Char) : Nat :=
  (cs.foldl (nextRow ds) (List.range (ds.length + 1))).getLastD 0

/-- How many characters have to be inserted, deleted or replaced to turn one text into another. The
rows run over the shorter text. -/
def distance (cs ds : List Char) : Nat :=
  if cs.length < ds.length then byRows ds cs else byRows cs ds

end EditDistance

def nameDistance (a b : String) : Nat :=
  EditDistance.distance (Text.lower a).toList (Text.lower b).toList

def usualDistance : Int := 2

def mostSuggestions : Nat := 5

namespace Chain

variable {α : Type}

/-- The visible names within a distance of a given name, nearest first; equally near ones keep their
order of visibility. -/
def similar (c : Chain α) (name : String) (within : Int) : List String :=
  let near := (visible c).map (fun v => (v, nameDistance name v)) |>.filter
    fun (v : String × Nat) => decide ((v.2 : Int) ≤ within)
  ((near.mergeSort fun a b => decide (a.2 ≤ b.2)).take mostSuggestions).map (·.1)

end Chain

end Dec
