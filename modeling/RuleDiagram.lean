import RuleDiagram.Number.Decimal
import RuleDiagram.Number.Single
import RuleDiagram.Text.Bounds
import RuleDiagram.Text.Blank
import RuleDiagram.Text.Cased
import RuleDiagram.Text.Digit
import RuleDiagram.Text.Identifier
import RuleDiagram.Text.Printable
import RuleDiagram.Text.LowerCase
import RuleDiagram.Text.Literal
import RuleDiagram.Text.Digest
import RuleDiagram.Fact
import RuleDiagram.Snapshot
import RuleDiagram.Diagram.Builder
import RuleDiagram.Draft.Analysis
import RuleDiagram.Draft.Build
import RuleDiagram.Draft.Features
import RuleDiagram.Draft.Edit
import RuleDiagram.Draft.HashCode
import RuleDiagram.Draft.Mutation
import RuleDiagram.Draft.Registration
import RuleDiagram.Draft.Score
import RuleDiagram.Draft.Settings
import RuleDiagram.Source.Parser
import RuleDiagram.Source.Printer
import RuleDiagram.Random.Weighted
import RuleDiagram.Search.Weights
import RuleDiagram.Main
import RuleDiagram.Proofs.Lookup
import RuleDiagram.Proofs.Predicate
import RuleDiagram.Proofs.Sameness
import RuleDiagram.Proofs.Snapshot
import RuleDiagram.Proofs.Outcome
import RuleDiagram.Proofs.Run.Unification
import RuleDiagram.Proofs.Run.Propagation
import RuleDiagram.Proofs.Run.Arrivals
import RuleDiagram.Proofs.Run.NodeTable
import RuleDiagram.Proofs.Run.Rounds
import RuleDiagram.Proofs.Run.Stages
import RuleDiagram.Proofs.Run.LeastFamily
import RuleDiagram.Proofs.Diagram.Nodes
import RuleDiagram.Proofs.Diagram.BoundTable
import RuleDiagram.Proofs.Diagram.WellFormed
import RuleDiagram.Proofs.Run.Safety
import RuleDiagram.Proofs.Run.RoundCount
import RuleDiagram.Proofs.Run.Simulation
import RuleDiagram.Proofs.Run.Congruence
import RuleDiagram.Proofs.Run.Exchange
import RuleDiagram.Proofs.Mutation.Site
import RuleDiagram.Proofs.Mutation.Exchange
import RuleDiagram.Proofs.Mutation.Quiet
import RuleDiagram.Proofs.Diagram.Editing
import RuleDiagram.Proofs.Mutation.Refusal
import RuleDiagram.Proofs.Mutation.Restructuring
import RuleDiagram.Proofs.Run.Monotone
import RuleDiagram.Proofs.Run.Produced
import RuleDiagram.Proofs.Run.FactPattern
import RuleDiagram.Proofs.Run.Preserved
import RuleDiagram.Proofs.Diagram.Respected
import RuleDiagram.Proofs.Diagram.Ways
import RuleDiagram.Proofs.Analysis.Parts
import RuleDiagram.Proofs.Analysis.Graft
import RuleDiagram.Proofs.Analysis.Grafted
import RuleDiagram.Proofs.Analysis.Escape
import RuleDiagram.Proofs.Text.Numeral
import RuleDiagram.Proofs.Text.Quoted
import RuleDiagram.Proofs.Number.Rounding
import RuleDiagram.Proofs.Number.Text
import RuleDiagram.Proofs.Source.Token
import RuleDiagram.Proofs.Source.Written
import RuleDiagram.Proofs.Source.Printer
import RuleDiagram.Proofs.Source.RoundTrip
import RuleDiagram.Proofs.Source.Reading
import RuleDiagram.Proofs.Source.Reprint
import RuleDiagram.Proofs.Source.Vocabulary
import RuleDiagram.Proofs.Analysis.Candidates
import RuleDiagram.Proofs.Analysis.Mending
import RuleDiagram.Proofs.Search.Population
import RuleDiagram.Proofs.Number.Sum
import RuleDiagram.Proofs.Search.Fitness
import RuleDiagram.Proofs.Search.Leader
import RuleDiagram.Proofs.Search.Perfect
import RuleDiagram.Proofs.Diagram.Secured
import RuleDiagram.Proofs.Mutation.Inverse
import RuleDiagram.Proofs.Analysis.Sizing
import RuleDiagram.Proofs.Mutation.OffCycle
import RuleDiagram.Proofs.Mutation.Checks
import RuleDiagram.Proofs.Mutation.Reversal
import RuleDiagram.Proofs.Mutation.Verdict
import RuleDiagram.Proofs.Analysis.Neutral
import RuleDiagram.Proofs.Mutation.RoundCost
import RuleDiagram.Proofs.Demo.NextBoard
import RuleDiagram.Proofs.Analysis.Outcomes
import RuleDiagram.Proofs.Source.Derivation
import RuleDiagram.Proofs.Source.Acceptance
import RuleDiagram.Proofs.Source.Layout
import RuleDiagram.Proofs.Source.Unambiguous
import RuleDiagram.Proofs.Source.Bodies
import RuleDiagram.Proofs.Source.Flattening
import RuleDiagram.Proofs.Text.Literal
import RuleDiagram.Proofs.Text.Readable
import RuleDiagram.Proofs.Diagram.Description
import RuleDiagram.Proofs.Search.Deduplication
import RuleDiagram.Diagram.Call
import RuleDiagram.Proofs.Builder.Calls
import RuleDiagram.Proofs.Builder.Failure
import RuleDiagram.Proofs.Builder.History
import RuleDiagram.Proofs.Builder.Records
import RuleDiagram.Proofs.Builder.Alike
import RuleDiagram.Proofs.Builder.Exchange
import RuleDiagram.Proofs.Run.Union
import RuleDiagram.Proofs.Number.Level
import RuleDiagram.Proofs.Search.Ranking
import RuleDiagram.Proofs.Analysis.Budget
import RuleDiagram.Proofs.Number.Sign
import RuleDiagram.Proofs.Search.Shares
import RuleDiagram.Proofs.Search.Reduction
import RuleDiagram.Proofs.Search.Weights
import RuleDiagram.Proofs.Run.Renumbering
import RuleDiagram.Proofs.Diagram.Removal
import RuleDiagram.Proofs.Source.Lexeme
import RuleDiagram.Proofs.Source.Scan
import RuleDiagram.Proofs.Number.Whole
import RuleDiagram.Proofs.Search.Agreement
import RuleDiagram.Proofs.Guide.Features
import RuleDiagram.Proofs.Registration
import RuleDiagram.Proofs.Source.FactOrder
import RuleDiagram.Proofs.Run.Positions
import RuleDiagram.Proofs.Run.Conservation
