import LocationPath.Text
import LocationPath.Text.Blank
import LocationPath.Text.Digit
import LocationPath.Text.Printable
import LocationPath.Text.Sorted
import LocationPath.Text.Quoted
import LocationPath.Text.Literal
import LocationPath.Text.Name
import LocationPath.Binary64
import LocationPath.Binary64.Shortest
import LocationPath.Binary64.Written
import LocationPath.Scalar
import LocationPath.Span
import LocationPath.Token
import LocationPath.Token.Lexer
import LocationPath.Error
import LocationPath.Node
import LocationPath.Node.Level
import LocationPath.Node.Opening
import LocationPath.Node.Parser
import LocationPath.Node.Printer
import LocationPath.Node.Outline
import LocationPath.Step
import LocationPath.PathInfo
import LocationPath.Decomposition
import LocationPath.Path
import LocationPath.Record
import LocationPath.Flag
import LocationPath.Proofs.Step.Inclusion
import LocationPath.Proofs.Grammar.Derivation
import LocationPath.Proofs.Grammar.Boundary
import LocationPath.Proofs.Grammar.Unambiguity
import LocationPath.Proofs.Grammar.Reading
import LocationPath.Proofs.Grammar.Head
import LocationPath.Proofs.Grammar.Completeness
import LocationPath.Proofs.Grammar.Soundness
import LocationPath.Proofs.Grammar.Recognition
import LocationPath.Proofs.Grammar.Outcome
import LocationPath.Proofs.Grammar.Viable
import LocationPath.Proofs.Grammar.Lookahead
import LocationPath.Proofs.Lexing.Unknown
import LocationPath.Proofs.Grammar.Faults
import LocationPath.Proofs.Placement.Nesting
import LocationPath.Proofs.Grammar.Parts
import LocationPath.Proofs.Decomposition.Outermost
import LocationPath.Proofs.Decomposition.Walk
import LocationPath.Proofs.Decomposition.Collected
import LocationPath.Proofs.Lexing.Spelling
import LocationPath.Proofs.Lexing.Tokenized
import LocationPath.Proofs.Grammar.Move
import LocationPath.Proofs.Lexing.Padding
import LocationPath.Proofs.Lexing.Edges
import LocationPath.Proofs.Grammar.Closing
import LocationPath.Proofs.Placement.Source
import LocationPath.Proofs.Placement.Enclosure
import LocationPath.Proofs.Decomposition.Front
import LocationPath.Proofs.Decomposition.Progress
import LocationPath.Proofs.Decomposition.Attributes
import LocationPath.Proofs.Decomposition.LastAttribute
import LocationPath.Proofs.Decomposition.Cutting
import LocationPath.Proofs.Decomposition.LastElement
import LocationPath.Proofs.Decomposition.Refilling
import LocationPath.Proofs.Decomposition.Traits
import LocationPath.Proofs.Lexing.Rules
import LocationPath.Proofs.Lexing.Quotation
import LocationPath.Proofs.Decomposition.Failures
import LocationPath.Proofs.Lexing.Tiling
import LocationPath.Proofs.Decomposition.Readable
import LocationPath.Proofs.Decomposition.Joined
import LocationPath.Proofs.Step.Comparison
import LocationPath.Proofs.Decomposition.Replacement
import LocationPath.Proofs.Path.Contextual
import LocationPath.Proofs.Path.Meaning
import LocationPath.Proofs.Path.ContextualMeaning
import LocationPath.Proofs.Path.Divergence
import LocationPath.Proofs.Path.Legs
import LocationPath.Proofs.Path.Equivalence
import LocationPath.Proofs.Path.Joining
import LocationPath.Proofs.Path.Axes
import LocationPath.Proofs.Path.Cancelling
import LocationPath.Proofs.Path.Associativity
import LocationPath.Proofs.Path.JoinedMeaning
import LocationPath.Proofs.Printing.Rank
import LocationPath.Proofs.Printing.Digits
import LocationPath.Proofs.Printing.Written
import LocationPath.Proofs.Printing.Respelling
import LocationPath.Proofs.Printing.Spacing
import LocationPath.Proofs.Printing.Neighbours
import LocationPath.Proofs.Grammar.Operators
import LocationPath.Proofs.Printing.Rereading
import LocationPath.Proofs.Printing.Gaps
import LocationPath.Proofs.Printing.Faithful
import LocationPath.Proofs.Printing.RoundTrip
