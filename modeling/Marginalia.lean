import Marginalia.Binary64
import Marginalia.Binary64.Decimal
import Marginalia.Diagnostic
import Marginalia.Editor
import Marginalia.Highlight
import Marginalia.Json.Lexeme
import Marginalia.Json.Number
import Marginalia.Json.Problem
import Marginalia.Json.Skip
import Marginalia.Json.Value
import Marginalia.Json.Written
import Marginalia.Layer
import Marginalia.LogRecord
import Marginalia.Marker
import Marginalia.Marker.Group
import Marginalia.Marker.Rule
import Marginalia.OpenFiles
import Marginalia.Overlay
import Marginalia.Overlay.Query
import Marginalia.Path
import Marginalia.Position
import Marginalia.Proofs.Marker.Group
import Marginalia.Proofs.Overlay.Agreement
import Marginalia.Proofs.Overlay.Change
import Marginalia.Proofs.Overlay.Display
import Marginalia.Proofs.Overlay.LifeCycle
import Marginalia.Proofs.Overlay.Mirror
import Marginalia.Proofs.Overlay.Numbering
import Marginalia.Proofs.Screen
import Marginalia.Proofs.Session.Publish
import Marginalia.Proofs.Session.Reachable
import Marginalia.Proofs.Session.Staleness
import Marginalia.Proofs.SortedMap
import Marginalia.Rendering
import Marginalia.Report
import Marginalia.Report.Filter
import Marginalia.Revision
import Marginalia.Screen
import Marginalia.Session
import Marginalia.Settings
import Marginalia.Settings.Field
import Marginalia.Settings.Reader
import Marginalia.Settings.Writer
import Marginalia.SortedMap
import Marginalia.Text
import Marginalia.Text.Hidden
import Marginalia.Text.Line
import Marginalia.Text.Quoted
import Marginalia.Text.Resolve
import Marginalia.Theme
import Marginalia.Proofs.Document.View
import Marginalia.Proofs.Overlay.Locality
import Marginalia.Proofs.Session.Locality
import Marginalia.Proofs.Session.Edit
import Marginalia.Proofs.Document.Layers
import Marginalia.Proofs.Session.Layers
import Marginalia.Proofs.Marker.Rule
import Marginalia.Proofs.Overlay.Gutter
import Marginalia.Proofs.Position
import Marginalia.Proofs.Session.Query
import Marginalia.Proofs.Text.Lines
import Marginalia.Proofs.Text.Resolve
import Marginalia.Proofs.Text.Offset
import Marginalia.Proofs.Json.Written
import Marginalia.Proofs.Settings.RoundTrip
import Marginalia.Proofs.Document.Styling
import Marginalia.Proofs.Session.Styling
import Marginalia.Proofs.Overlay.Announcement
import Marginalia.Proofs.Overlay.Disabling
import Marginalia.Proofs.Overlay.Spelling
import Marginalia.Proofs.Session.Announcement
import Marginalia.Proofs.Session.Spelling
import Marginalia.Proofs.Overlay.Rendering
import Marginalia.Proofs.Session.Answers
import Marginalia.Proofs.Session.Clearing
import Marginalia.Proofs.Session.Display
import Marginalia.Proofs.Json.Grammar
import Marginalia.Proofs.Json.Reading
import Marginalia.Proofs.Json.Skip
import Marginalia.Proofs.Settings.ByName
import Marginalia.Proofs.Session.Files
import Marginalia.Proofs.Text.Locality
import Marginalia.Proofs.Text.Partition
import Marginalia.Proofs.Text.Splice
import Marginalia.Proofs.Report.History
import Marginalia.Proofs.Json.Limits
import Marginalia.Proofs.Settings.Limits
import Marginalia.Proofs.Text.Undo
import Marginalia.Proofs.Path
import Marginalia.Proofs.Settings.Client
import Marginalia.Proofs.Text.Order
import Marginalia.Proofs.Text.Seam
