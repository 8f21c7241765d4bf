import Dec.Main
import Dec.Scope.Store
import Dec.Session
import Dec.Proofs.Grammar.Derivation
import Dec.Proofs.Grammar.Descent
import Dec.Proofs.Grammar.Beginning
import Dec.Proofs.Number.Digits
import Dec.Proofs.Token.Spelling
import Dec.Proofs.Grammar.Acceptance
import Dec.Proofs.Grammar.Making
import Dec.Proofs.Digraph.Edges
import Dec.Proofs.Digraph.WellFormed
import Dec.Proofs.Digraph.DepthFirst
import Dec.Proofs.Digraph.Components
import Dec.Proofs.Naming.Lockstep
import Dec.Proofs.Naming.Unbound
import Dec.Proofs.Number.Rounding
import Dec.Proofs.Number.Shortest
import Dec.Proofs.Token.Numeral
import Dec.Proofs.Token.Literal
import Dec.Proofs.Token.Lexing
import Dec.Proofs.Tree.Sourced
import Dec.Proofs.Tree.Writing
import Dec.Proofs.Grammar.Phrases
import Dec.Proofs.RoundTrip
import Dec.Proofs.Tree.Statements
import Dec.Proofs.Digraph.Line
import Dec.Proofs.Digraph.Acyclic
import Dec.Proofs.Flow.Shape
import Dec.Proofs.Evaluation.Trace
import Dec.Proofs.Evaluation.Unreached
import Dec.Proofs.Flow.Prediction
import Dec.Proofs.Grammar.Completion
import Dec.Proofs.Grammar.Faults
import Dec.Proofs.Grammar.Granted
import Dec.Proofs.Grammar.FirstFault
import Dec.Proofs.Grammar.Signs
import Dec.Proofs.Token.Placement
import Dec.Proofs.Tree.Path
import Dec.Proofs.Naming.Scoping
import Dec.Proofs.Evaluation.Rules
import Dec.Proofs.Evaluation.Flag
import Dec.Proofs.Digraph.Lookups
import Dec.Proofs.Digraph.Sets
import Dec.Proofs.Digraph.History
import Dec.Proofs.Naming.Independence
import Dec.Proofs.Grammar.Numbering
import Dec.Proofs.Grammar.Builders
import Dec.Proofs.Reprinting
import Dec.Proofs.Scope.History
import Dec.Proofs.Tree.Numbers
import Dec.Proofs.Diagnosis
import Dec.Proofs.Evaluation.Handled
import Dec.Proofs.Evaluation.Refusals
import Dec.Proofs.Number.Quotients
import Dec.Proofs.Evaluation.Finite
import Dec.Proofs.Digraph.BreadthFirst
import Dec.Proofs.Flow.Start
import Dec.Proofs.Tree.Refusal
import Dec.Proofs.Tree.Rendering
import Dec.Proofs.Tree.Places
import Dec.Proofs.Mirroring
import Dec.Proofs.Token.Separation
import Dec.Proofs.Token.Layout
import Dec.Proofs.Digraph.Postorder
import Dec.Proofs.Digraph.Distance
import Dec.Proofs.Flow.Changes
import Dec.Proofs.Scope.Suggestions
import Dec.Proofs.Number.Value
import Dec.Proofs.Tree.Likeness
import Dec.Proofs.Comparison
import Dec.Proofs.Grammar.Matching
import Dec.Proofs.Token.Runs
import Dec.Proofs.Anchoring
import Dec.Proofs.Naming.AssignedLater
import Dec.Proofs.Digraph.Transposition
import Dec.Proofs.Scope.Frame
import Dec.Proofs.Number.Overflow
import Dec.Proofs.Token.LongestNumeral
import Dec.Proofs.Token.NumeralTokens
import Dec.Proofs.Grammar.Rereading
import Dec.Proofs.Number.Truncation
import Dec.Proofs.Evaluation.Division
