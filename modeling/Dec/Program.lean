import Dec.Token.Stream
import Dec.Grammar.Machine

namespace Dec

namespace SourceFile

/-- Turns a carriage return, with or without a line feed after it, into one line feed. -/
def unifyLines : List Char → List Char
  | '\r' :: '\n' :: cs => '\n' :: unifyLines cs
  | '\r' :: cs => '\n' :: unifyLines cs
  | c :: cs => c :: unifyLines cs
  | [] => []

/-- The text of a file, unless its bytes are not UTF-8. A byte order mark stays in the text. -/
def decode? (bytes : ByteArray) : Option String :=
  (String.fromUTF8? bytes).map fun s => .ofList (unifyLines s.toList)

end SourceFile

inductive ReadEvent where
  | started (tokens : Nat) (builder : Builder)
  | requested (request : BuildEvent)
  | finished (location : Option Location)

namespace ReadEvent

def text (budget : Nat) : ReadEvent → Except Unwritable String
  | started tokens builder =>
    .ok ("Parsing " ++ decimalText tokens ++ " tokens with " ++ builder.label)
  | requested request => request.text budget
  | finished location => .ok ("Parsed program at " ++ Location.textOrAbsent location)

end ReadEvent

inductive ReadFailure where
  | lexical (error : LexicalError)
  | grammar (failure : Grammar.Failure BuildFault)

structure Reading where
  result : Except ReadFailure (Option Node)
  forest : Forest
  events : List ReadEvent
  consumed : Nat
  openBlocks : Nat

namespace Program

def markedLength (tokens : List Token) : Nat :=
  match tokens.getLast? with
  | some t => if t.isEnd then tokens.length else tokens.length + 1
  | none => 1

def ofTokens (limit : Nat) (builder : Builder) (tokens : List Token) (f : Forest) : Reading :=
  let (outcome, grown) :=
    Grammar.parse limit builder.create tokens f.nextTable { f with record := [] }
  let forest := { grown with nextTable := outcome.nextTable, record := f.record }
  let events := .started (markedLength tokens) builder :: grown.record.reverse.map .requested
  match outcome.result with
  | .ok node =>
    let done := .finished (node.bind Node.location)
    ⟨.ok node, forest, events ++ [done], outcome.consumed, outcome.openBlocks⟩
  | .error failure =>
    ⟨.error (.grammar failure), forest, events, outcome.consumed, outcome.openBlocks⟩

/-- How deeply programs nest within the host's usual stack, as measured. The calls of a builder that
makes nodes go deeper than those of the others, and a record takes one more. -/
def usualLimit : Builder → Nat
  | .making => 491
  | .recording => 490
  | .refusing => 493
  | .skipping => 494

def ofSource (limit : Nat) (builder : Builder) (source file : String) (f : Forest) : Reading :=
  match tokenize source file with
  | .error e => ⟨.error (.lexical e), f, [], 0, 0⟩
  | .ok tokens => ofTokens limit builder tokens f

def unnamed : String := "<string>"

end Program

end Dec
