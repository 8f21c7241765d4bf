import Dec.Log

namespace Dec

inductive Stop (ε : Type) where
  | fault (why : ε)
  | unwritable (why : Unwritable)

structure Session where
  builder : Builder
  limit : Nat
  budget : Nat
  forest : Forest
  evaluator : Evaluator
  log : Option (List LogEntry)

namespace Session

variable {α ε : Type}

def start (builder : Builder) (limit budget : Nat) (logged : Bool) : Session :=
  ⟨builder, limit, budget, .empty, .fresh, if logged then some [] else none⟩

def note (s : Session) (entries : List LogEntry) : Option Unwritable × Session :=
  match s.log with
  | none => (none, s)
  | some log =>
    let (written, obstacle) := LogEntry.writable s.budget entries
    (obstacle, { s with log := some (log ++ written) })

def settle (obstacle : Option Unwritable) (result : Except ε α) : Except (Stop ε) α :=
  match obstacle with
  | some why => .error (.unwritable why)
  | none => result.mapError .fault

/-- Asks the builder for a node. A recorded request is logged before it is met. -/
def create (s : Session) (request : Creation (Option Node)) (location : Option Location) :
    Except (Stop BuildFault) (Option Node) × Session :=
  let entries : List LogEntry :=
    if s.builder = .recording then [.reading (.requested ⟨request, location⟩)] else []
  match s.note entries with
  | (some why, s) => (.error (.unwritable why), s)
  | (none, s) =>
    let (result, forest) := s.builder.create request location s.forest
    (result.mapError .fault, { s with forest := { forest with record := [] } })

def read (s : Session) (source file : String) :
    Except (Stop ReadFailure) (Option Node) × Session :=
  let reading := Program.ofSource s.limit s.builder source file s.forest
  let (obstacle, s) := s.note (reading.events.map .reading)
  (settle obstacle reading.result, { s with forest := reading.forest })

/-- Evaluates a tree. Where the log ends the run, the evaluator remembers a return up to there. -/
def evaluate (s : Session) (n : Node) (bindings : List (String × Option Scalar)) :
    Except (Stop EvalFault) Scalar × Session :=
  let (result, evaluator, events) := s.evaluator.evaluate s.budget n bindings
  let entries := events.map LogEntry.evaluation
  match s.note entries with
  | (none, s) => (result.mapError .fault, { s with evaluator })
  | (some why, s) =>
    let reached := events.take ((LogEntry.writable s.budget entries).1.length + 1)
    (.error (.unwritable why), { s with evaluator := ⟨reached.any EvalEvent.isReturn⟩ })

def checkNames (s : Session) (n : Node) (predeclared : List String) :
    Except (Stop NameFault) Unit × Session :=
  let (result, events) := analyzeNames s.budget s.forest n predeclared
  let (obstacle, s) := s.note (events.map .naming)
  (settle obstacle result, s)

/-- Makes the flow graph of a tree. A statement that is nested too deeply to be logged counts as too
deep for the graph. -/
def flow (s : Session) (n : Node) : Except (Stop FlowFault) (FlowGraph Node) × Session :=
  let (result, events) := n.flow s.budget
  match s.note (events.map .flow) with
  | (some .nestedTooDeep, s) => (.error (.fault ⟨n.location⟩), s)
  | (obstacle, s) => (settle obstacle result, s)

end Session

end Dec
