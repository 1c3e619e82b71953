import FlowLint.Flow.Diagram
import FlowLint.Grammar.Script
import FlowLint.Lint.Check
import FlowLint.Lint.Document
import FlowLint.Proofs.Flow.Census
import FlowLint.Proofs.Flow.Drawing
import FlowLint.Proofs.Flow.Entry
import FlowLint.Proofs.Flow.Exit
import FlowLint.Proofs.Flow.Fault
import FlowLint.Proofs.Flow.Finishing
import FlowLint.Proofs.Flow.Lenient
import FlowLint.Proofs.Flow.Shape
import FlowLint.Proofs.Flow.Visiting
import FlowLint.Proofs.Grammar.Precedence
import FlowLint.Proofs.Grammar.Restriction
import FlowLint.Proofs.Grammar.RoundTrip
import FlowLint.Proofs.Grammar.Safe
import FlowLint.Proofs.Lint.Complexity
import FlowLint.Proofs.Lint.Formatting
import FlowLint.Proofs.Token.Respaced
import FlowLint.Proofs.Token.Tiling
import FlowLint.Table
import FlowLint.Proofs.Token.Cut
import FlowLint.Proofs.Token.Wrapped
import FlowLint.Proofs.Lint.Selection
import FlowLint.Proofs.Literal.Quoted
import FlowLint.Proofs.Literal.Number
import FlowLint.Proofs.Tree.Tour
import FlowLint.Proofs.Grammar.Excerpt
import FlowLint.Proofs.Grammar.Margin
import FlowLint.Proofs.Grammar.Parenthesized
