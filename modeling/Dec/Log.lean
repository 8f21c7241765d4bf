import Dec.Program
import Dec.Evaluation.Run
import Dec.Naming.Analysis
import Dec.Flow

namespace Dec

inductive LogEntry where
  | reading (e : ReadEvent)
  | evaluation (e : EvalEvent)
  | naming (e : NameEvent)
  | flow (e : FlowEvent)

namespace LogEntry

def channel : LogEntry → String
  | reading (.requested _) => "declang.parser.builders"
  | reading _ => "declang.parser.parser"
  | evaluation _ => "declang.runtime.evaluator"
  | naming _ => "declang.analyzer.name_analysis"
  | flow _ => "declang.optimizer.cfg_generator"

def text (budget : Nat) : LogEntry → Except Unwritable String
  | reading e => e.text budget
  | evaluation e => orTooLong e.text?
  | naming e => orTooLong e.text?
  | flow e => e.text budget

def line (budget : Nat) (e : LogEntry) : Except Unwritable String :=
  (e.text budget).map fun s => "DEBUG " ++ e.channel ++ ": " ++ s

def lines (budget : Nat) (log : List LogEntry) : List String :=
  log.filterMap fun e => (e.line budget).toOption

/-- The entries up to the first that cannot be written, and what is wrong with that one. -/
def writable (budget : Nat) : List LogEntry → List LogEntry × Option Unwritable
  | [] => ([], none)
  | e :: rest =>
    match e.text budget with
    | .error why => ([], some why)
    | .ok _ =>
      let (written, obstacle) := writable budget rest
      (e :: written, obstacle)

end LogEntry

end Dec
