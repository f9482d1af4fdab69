import LiveHighlight.ByteRange
import LiveHighlight.Capture.Basic
import LiveHighlight.Capture.Fallback
import LiveHighlight.CommandLine.Files
import LiveHighlight.CommandLine.Options
import LiveHighlight.CommandLine.Run
import LiveHighlight.Config.Basic
import LiveHighlight.Config.Failure
import LiveHighlight.Config.Input
import LiveHighlight.Config.Reader
import LiveHighlight.Decimal.Binary
import LiveHighlight.Decimal.Fixed
import LiveHighlight.Decimal.Shortest
import LiveHighlight.Duration
import LiveHighlight.Failure
import LiveHighlight.Highlight.Clock
import LiveHighlight.Highlight.DocumentParser
import LiveHighlight.Highlight.Highlighter
import LiveHighlight.Highlight.Query
import LiveHighlight.Highlight.Repaint
import LiveHighlight.Highlight.Worker
import LiveHighlight.Language.Basic
import LiveHighlight.Language.Builtin
import LiveHighlight.Language.C
import LiveHighlight.Language.Cpp
import LiveHighlight.Language.Go
import LiveHighlight.Language.Grammar
import LiveHighlight.Language.JavaScript
import LiveHighlight.Language.Json
import LiveHighlight.Language.Python
import LiveHighlight.Language.Rust
import LiveHighlight.Language.TypeScript
import LiveHighlight.Language.Words
import LiveHighlight.Main
import LiveHighlight.Session
import LiveHighlight.Span.Basic
import LiveHighlight.Span.Change
import LiveHighlight.Span.Overlay
import LiveHighlight.Stats
import LiveHighlight.Syntax.Difference
import LiveHighlight.Syntax.Engine
import LiveHighlight.Syntax.Grammar
import LiveHighlight.Syntax.GrammarEngine
import LiveHighlight.Syntax.Parse
import LiveHighlight.Syntax.Query.Basic
import LiveHighlight.Syntax.Query.Match
import LiveHighlight.Syntax.Query.Reader
import LiveHighlight.Syntax.Regex
import LiveHighlight.Syntax.Reshape
import LiveHighlight.Syntax.Tree
import LiveHighlight.Text.Cursor
import LiveHighlight.Text.Document
import LiveHighlight.Text.Edit
import LiveHighlight.Text.Printable
import LiveHighlight.Text.Quoted
import LiveHighlight.Text.Utf8
import LiveHighlight.Theme
import LiveHighlight.Proofs.Span.Canonical
import LiveHighlight.Proofs.Span.Tiles
import LiveHighlight.Proofs.Text.Bytes
import LiveHighlight.Proofs.Text.Edits
import LiveHighlight.Proofs.Text.Positions
import LiveHighlight.Proofs.Text.Points
import LiveHighlight.Proofs.Text.Trails
import LiveHighlight.Proofs.Text.Cursors
import LiveHighlight.Proofs.Span.Rewrite
import LiveHighlight.Proofs.Span.Commute
import LiveHighlight.Proofs.Span.Layers
import LiveHighlight.Proofs.Span.Pile
import LiveHighlight.Proofs.Span.Window
import LiveHighlight.Proofs.Highlight.Answer
import LiveHighlight.Proofs.Host
import LiveHighlight.Proofs.Highlight.Parser
import LiveHighlight.Proofs.Highlight.Currency
import LiveHighlight.Proofs.Highlight.Coverage
import LiveHighlight.Proofs.Highlight.Frame
import LiveHighlight.Proofs.Highlight.Extent
import LiveHighlight.Proofs.Highlight.Mirror
import LiveHighlight.Proofs.Highlight.Increments
import LiveHighlight.Proofs.Highlight.Knowledge
import LiveHighlight.Proofs.Highlight.Commas
import LiveHighlight.Proofs.Highlight.Advance
import LiveHighlight.Proofs.Highlight.Tails
import LiveHighlight.Proofs.Highlight.Attendance
import LiveHighlight.Proofs.Highlight.Updates
import LiveHighlight.Proofs.Highlight.Bearing
import LiveHighlight.Proofs.Highlight.Rebuild
import LiveHighlight.Proofs.Highlight.Idling
import LiveHighlight.Proofs.Highlight.Freshness
import LiveHighlight.Proofs.Highlight.Painting
import LiveHighlight.Proofs.Highlight.Silence
import LiveHighlight.Proofs.Highlight.Ranges
import LiveHighlight.Proofs.Highlight.Nearest
import LiveHighlight.Proofs.Highlight.Extension
import LiveHighlight.Proofs.Highlight.Outstanding
import LiveHighlight.Proofs.Highlight.Upkeep
import LiveHighlight.Proofs.Highlight.Backlog
import LiveHighlight.Proofs.Sessions.Requests
import LiveHighlight.Proofs.Sessions.Handles
import LiveHighlight.Proofs.CommandLine.Scripts
import LiveHighlight.Proofs.CommandLine.Arguments
import LiveHighlight.Proofs.Capture.Names
import LiveHighlight.Proofs.Capture.Themes
import LiveHighlight.Proofs.Config.Grammar
import LiveHighlight.Proofs.Config.Skipping
import LiveHighlight.Proofs.Config.Reading
import LiveHighlight.Proofs.Config.Documents
import LiveHighlight.Proofs.RollingWindow
