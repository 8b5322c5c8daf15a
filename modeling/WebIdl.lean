import WebIdl.Document.Json
import WebIdl.Proofs.Anchor.Normal
import WebIdl.Proofs.Anchor.Ranks
import WebIdl.Proofs.Block.Concat
import WebIdl.Proofs.Block.Context
import WebIdl.Proofs.Block.Printed
import WebIdl.Proofs.Block.Spans
import WebIdl.Proofs.Dfn.ExportIds
import WebIdl.Proofs.Document.Comments
import WebIdl.Proofs.Document.Exports
import WebIdl.Proofs.Document.External
import WebIdl.Proofs.Document.Html
import WebIdl.Proofs.Document.Links
import WebIdl.Proofs.Document.Offending
import WebIdl.Proofs.Document.Orphans
import WebIdl.Proofs.Document.Prefetch
import WebIdl.Proofs.Document.Preservation
import WebIdl.Proofs.Document.Repeated
import WebIdl.Proofs.Document.Settling
import WebIdl.Proofs.Document.UniqueIds
import WebIdl.Proofs.Grammar.Progress
import WebIdl.Proofs.Grammar.Shapes.Definitions
import WebIdl.Proofs.Lexing.Tiling
import WebIdl.Proofs.Link.Claimed
import WebIdl.Proofs.Link.Members
import WebIdl.Proofs.Lint.DictArguments
import WebIdl.Proofs.Lint.Exposed
import WebIdl.Proofs.Lint.Repeats
import WebIdl.Proofs.Lint.Report
import WebIdl.Proofs.Lint.Walks
import WebIdl.Proofs.Settings.Layers
import WebIdl.Proofs.Text.Feeds
import WebIdl.Proofs.Text.Normalize
import WebIdl.Proofs.Text.Excerpt
import WebIdl.Proofs.Xref.Narrow
import WebIdl.Proofs.Xref.Runs
