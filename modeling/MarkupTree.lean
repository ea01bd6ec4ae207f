import MarkupTree.Arena
import MarkupTree.Dialect
import MarkupTree.Dump
import MarkupTree.Json.Read
import MarkupTree.Log
import MarkupTree.Node.Chain
import MarkupTree.Walk.Collect
import MarkupTree.Walk.Preorder
import MarkupTree.Proofs.Text.Cut
import MarkupTree.Proofs.Text.Reach
import MarkupTree.Proofs.Text.Encoding
import MarkupTree.Proofs.Text.Boundary
import MarkupTree.Proofs.Text.Bytes
import MarkupTree.Proofs.Text.Drawn
import MarkupTree.Proofs.Text.Quotation
import MarkupTree.Proofs.Position.CodeUnits
import MarkupTree.Proofs.Position.Strict
import MarkupTree.Proofs.Walk.Calls
import MarkupTree.Proofs.Walk.Places
import MarkupTree.Proofs.Walk.Levels
import MarkupTree.Proofs.Walk.Bounded
import MarkupTree.Proofs.Walk.Subtree
import MarkupTree.Proofs.Walk.Tokens
import MarkupTree.Proofs.Walk.Change
import MarkupTree.Proofs.Conformance.Obligation
import MarkupTree.Proofs.Conformance.Acceptance
import MarkupTree.Proofs.Conformance.Cover
import MarkupTree.Proofs.Conformance.Pears
import MarkupTree.Proofs.Conformance.Made
import MarkupTree.Proofs.Tags.Item
import MarkupTree.Proofs.Tags.Draft
import MarkupTree.Proofs.Tags.Placement
import MarkupTree.Proofs.Tags.Run
import MarkupTree.Proofs.Position.Ends
import MarkupTree.Proofs.Position.Order
import MarkupTree.Proofs.Position.LineStart
import MarkupTree.Proofs.Tags.Order
import MarkupTree.Proofs.Tags.Tiling
import MarkupTree.Proofs.Conformance.Parsed
import MarkupTree.Proofs.Conformance.Report
import MarkupTree.Proofs.Conformance.Messages
import MarkupTree.Proofs.Conformance.First
import MarkupTree.Proofs.Conformance.Against
import MarkupTree.Proofs.Conformance.Fragment
import MarkupTree.Proofs.Conformance.Local
import MarkupTree.Proofs.Conformance.Renaming
import MarkupTree.Proofs.Conformance.Tampering
import MarkupTree.Proofs.Conformance.Ghosts
import MarkupTree.Proofs.Walk.Logged
import MarkupTree.Proofs.Conformance.Answers
import MarkupTree.Proofs.Tags.Grammar
import MarkupTree.Proofs.Tags.Append
import MarkupTree.Proofs.Tags.Flaw
import MarkupTree.Proofs.Tags.Nesting
import MarkupTree.Proofs.Tags.Rounds
import MarkupTree.Proofs.Tags.ToEnd
import MarkupTree.Proofs.Token.Threads
import MarkupTree.Proofs.Token.Outcome
import MarkupTree.Proofs.Token.Concat
import MarkupTree.Proofs.Dump.Line
import MarkupTree.Proofs.Dump.Record
import MarkupTree.Proofs.Dump.Tree
import MarkupTree.Proofs.Dump.Breaks
import MarkupTree.Proofs.Json.Hidden
import MarkupTree.Proofs.Json.Order
import MarkupTree.Proofs.Dump.Drawing
import MarkupTree.Proofs.Position.Sums
import MarkupTree.Proofs.Token.Ordered
