import Dec.Log
import Dec.Tree.Skeleton
import Dec.Tree.Source

namespace Dec

structure SelfCheck where
  passed : Bool
  report : String
  log : List LogEntry

namespace SelfCheck

def sample : String :=
  "\n" ++
  "    \x7b\n" ++
  "        x := (2)\n" ++
  "        \x7b\n" ++
  "            y := (2 * 4)\n" ++
  "            return (x+y)\n" ++
  "        \x7d\n" ++
  "        z := (3)\n" ++
  "        return x\n" ++
  "    \x7d\n" ++
  "    "

def expected : Scalar := .number (.int 10)

/-- What a check has said and logged so far; the last line said comes first. -/
structure Trace where
  lines : List String
  log : List LogEntry

abbrev Check := ExceptT (Option String) (StateM Trace)

def say (line : String) : Check Unit := modify fun t => { t with lines := line :: t.lines }

def note (entries : List LogEntry) : Check Unit :=
  modify fun t => { t with log := t.log ++ entries }

def orReport {ε α : Type} (report : ε → Diagnostic) : Except ε α → Check α
  | .ok a => pure a
  | .error e => throw (some (report e).render)

def read (limit budget : Nat) (tokens : List Token) (f : Forest) : Check (Node × Forest) := do
  let reading := Program.ofTokens limit .making tokens f
  note (reading.events.map .reading)
  match reading.result with
  | .ok (some node) => return (node, reading.forest)
  | .ok none => throw (some "nothing was built")
  | .error (.lexical e) => throw (some e.diagnostic.render)
  | .error (.grammar (.fault fault)) => throw (some fault.diagnostic.render)
  | .error (.grammar (.unknownOperator symbol)) => throw (some symbol)
  | .error (.grammar (.refused reason)) => throw (reason.message budget).toOption

def stages (limit budget : Nat) : Check Unit := do
  say "DEC Front-End Test Suite"
  say (String.ofList (List.replicate 60 '='))
  say "All front-end modules imported successfully"
  say ""
  say "Testing the full pipeline..."
  say "  Lexing..."
  let tokens ← orReport LexicalError.diagnostic (tokenize sample "<pipeline>")
  say ("     Generated " ++ decimalText tokens.length ++ " tokens")
  say "  Parsing..."
  let (tree, forest) ← read limit budget tokens .empty
  say ("     Generated AST with " ++ decimalText tree.children.length ++ " top-level statements")
  say "  Name analysis..."
  let (names, events) := analyzeNames budget forest tree []
  note (events.map .naming)
  orReport NameFault.diagnostic names
  say "     No undeclared variables"
  say "  Evaluation..."
  let (value, _, events) := Evaluator.fresh.evaluate budget tree []
  note (events.map .evaluation)
  let value ← orReport EvalFault.diagnostic value
  say ("     Result: " ++ value.bare?.getD tooManyDigits)
  unless value.same expected do
    say ("     Expected " ++ expected.bare?.getD tooManyDigits)
    throw none
  say "  Control flow graph..."
  let (flow, events) := tree.flow budget
  note (events.map .flow)
  let flow ← orReport FlowFault.diagnostic flow
  say ("     " ++ decimalText flow.graph.vertexCount ++ " vertices, " ++
    decimalText flow.graph.edgeCount ++ " edges")
  say "  Unparsing..."
  let text ← orReport (fun _ => SourceFault.tooDeepDiagnostic tree.location)
    (tree.source budget usualIndent 0)
  let again ← orReport LexicalError.diagnostic (tokenize text Program.unnamed)
  let (copy, _) ← read limit budget again forest
  unless Node.sameShape? budget (some copy) (some tree) = some true do
    say "     Round trip changed the tree"
    throw none
  say "     Round trip preserved the tree"
  say ""
  say "Unparsed program:"
  say (String.ofList (List.replicate 40 '-'))
  say text
  say (String.ofList (List.replicate 40 '-'))
  say ""

def run (limit budget : Nat) : SelfCheck :=
  let (result, trace) := stages limit budget ⟨[], []⟩
  let lines := match result with
    | .error (some message) => ("Pipeline check FAILED: " ++ message) :: trace.lines
    | _ => trace.lines
  ⟨result.toBool, String.join (lines.reverse.map (· ++ "\n")), trace.log⟩

end SelfCheck

end Dec
