import Interchange.CommandLine.Run
import Interchange.Conversion
import Interchange.Document.Basic
import Interchange.Document.Construct
import Interchange.Main
import Interchange.Proofs.Delimited.Bare
import Interchange.Proofs.Delimited.Grammar
import Interchange.Proofs.Delimited.Keeping
import Interchange.Proofs.Delimited.Pieces
import Interchange.Proofs.Delimited.Reporting
import Interchange.Proofs.Delimited.Rereading
import Interchange.Proofs.Delimited.RoundTrip
import Interchange.Proofs.Delimited.Scanning
import Interchange.Proofs.Document.Changes
import Interchange.Proofs.Document.StyledText
import Interchange.Proofs.Document.Texts
import Interchange.Proofs.Document.Traversal
import Interchange.Proofs.Document.Validation
import Interchange.Proofs.FileTree
import Interchange.Proofs.Json.RoundTrip
import Interchange.Proofs.Json.Texts
import Interchange.Proofs.Layout.Accounting
import Interchange.Proofs.Layout.Balance
import Interchange.Proofs.Layout.Boundaries
import Interchange.Proofs.Layout.Columns
import Interchange.Proofs.Layout.Dressing
import Interchange.Proofs.Layout.Keeping
import Interchange.Proofs.Layout.Media
import Interchange.Proofs.Layout.Orderly
import Interchange.Proofs.Layout.Shapes
import Interchange.Proofs.Layout.Stacking
import Interchange.Proofs.Media
import Interchange.Proofs.Native.Discipline
import Interchange.Proofs.Native.Grammar
import Interchange.Proofs.Native.Rereading
import Interchange.Proofs.Native.RoundTrip
import Interchange.Proofs.Number.Digits
import Interchange.Proofs.PlainText.RoundTrip
import Interchange.Proofs.Resolution
import Interchange.Proofs.Terminal.Chunks
import Interchange.Proofs.Terminal.Codes
import Interchange.Proofs.Terminal.Joining
import Interchange.Proofs.Terminal.LineByLine
import Interchange.Proofs.Terminal.RoundTrip
import Interchange.Proofs.Terminal.Showing
import Interchange.Proofs.Text.Encoding
import Interchange.Proofs.Text.Letters
import Interchange.Proofs.Text.Paragraphs
import Interchange.Proofs.Text.Segments
import Interchange.Proofs.Text.Words
import Interchange.Proofs.Transform.Emptiness
import Interchange.Proofs.Transform.Headings
import Interchange.Proofs.Transform.Keeping
import Interchange.Proofs.Transform.Merging
import Interchange.Proofs.Transform.Rebuilding
import Interchange.Proofs.Transform.Wrappers
import Interchange.Proofs.Word.Carrying
import Interchange.Proofs.Word.Citing
import Interchange.Proofs.Word.Cleaning
import Interchange.Proofs.Word.Finding
import Interchange.Proofs.Word.Grid
import Interchange.Proofs.Word.Grouping
import Interchange.Proofs.Word.Integrity
import Interchange.Proofs.Word.Keeping
import Interchange.Proofs.Word.Merging
import Interchange.Proofs.Word.Metadata
import Interchange.Proofs.Word.Noting
import Interchange.Proofs.Word.Numbering
import Interchange.Proofs.Word.Plain
import Interchange.Proofs.Word.ReadingOrder
import Interchange.Proofs.Word.Referring
import Interchange.Proofs.Word.Rereading
import Interchange.Proofs.Word.RoundTrip
import Interchange.Proofs.Word.RunOrder
import Interchange.Proofs.Word.Sketch
import Interchange.Proofs.Word.Succeeding
import Interchange.Proofs.Workspace.Embedding
import Interchange.Proofs.Workspace.Independence
import Interchange.Proofs.Workspace.Run
import Interchange.Workspace
