import Marginalia.Highlight
import Marginalia.Marker.Rule
import Marginalia.Report

/-! From a report to what is to be seen of it. Highlights and markers are made together, under the one
condition that the report fits the revision of the text. -/
namespace Marginalia

/-- What is to be seen of a report. -/
structure Rendering where
  highlights : List Highlight := []
  markers : List Marker := []
  /-- Diagnostics without a highlight: the text is too short for them. -/
  unresolved : List Diagnostic := []
  /-- Whether the report said anything about the revision. -/
  applied : Bool := false
deriving Inhabited

/-- Render a report over the text of a revision. A report for another revision shows nothing, and
neither does an empty one. A diagnostic whose range does not resolve can still have a marker. -/
def Report.render (r : Report) (revision : Revision) (text : Text) (setting : Setting)
    (rule : MarkerRule) : Rendering :=
  if r.fits revision && !r.diagnostics.isEmpty then
    { highlights := r.diagnostics.filterMap (·.highlight? text setting.theme)
      markers := r.diagnostics.filterMap (rule setting)
      unresolved := r.diagnostics.filter fun d => (text.resolveSpan d.span).isNone
      applied := true }
  else {}

end Marginalia
