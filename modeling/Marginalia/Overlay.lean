import Marginalia.Editor
import Marginalia.LogRecord
import Marginalia.Rendering
import Marginalia.Report.Filter
import Marginalia.Screen

/-! The overlay of one analyser: its reports, and the markers that stand for them. An operation reads
the editor and gives the overlay after it with its effects in order. A report is only drawn over
a revision that it fits. Over another one its highlights go, and markers that are there already stay
until they are replaced or hidden. -/
namespace Marginalia

inductive Effect where
  | draw (call : ScreenCall)
  /-- New markers can be seen. -/
  | announce (document : Path) (count : Nat)
  | log (record : LogRecord)
deriving DecidableEq

structure Overlay where
  settings : Settings
  layer : Layer
  theme : Theme := .standard
  rule : MarkerRule
  filter : Filter := fun _ ds => ds
  reports : Reports := {}
  groups : SortedMap Path MarkerGroup := {}
  nextGroup : Nat := 1

namespace Overlay

def start (settings : Settings) : Overlay where
  settings := settings
  layer := settings.layer
  rule := .standard settings.client

abbrev Outcome := Overlay × List Effect

def Outcome.andThen (x : Outcome) (f : Overlay → Outcome) : Outcome :=
  let y := f x.1
  (y.1, x.2 ++ y.2)

/-- Take the markers of a document away. -/
def discard (o : Overlay) (document : Path) : Outcome :=
  match o.groups.find? document with
  | none => (o, [])
  | some group =>
    ({ o with groups := o.groups.erase document },
      group.entries.map fun (h, _) => .draw (.removeMarker document h))

/-- Put new markers in place of those of a document. No markers make no group. -/
def install (o : Overlay) (document : Path) (markers : List Marker) : Outcome :=
  (o.discard document).andThen fun o =>
    if markers.isEmpty then (o, [])
    else
      let group : MarkerGroup := { number := o.nextGroup, markers }
      ({ o with groups := o.groups.insert document group, nextGroup := o.nextGroup + 1 },
        group.entries.map fun (h, m) => .draw (.addMarker document h m))

/-- Clear a layer of a document, if the editor shows it. -/
def clearLayer (editor : Editor) (layer : Layer) (document : Path) : List Effect :=
  if (editor.buffer document).isSome then [.draw (.setHighlights document layer [])] else []

/-- Nothing of a document is to be seen any more; its report stays. -/
def hide (o : Overlay) (editor : Editor) (document : Path) : Outcome :=
  Outcome.andThen (o, clearLayer editor o.layer document) (·.discard document)

/-- Take a report in place of the last one for a document, and show nothing of either. -/
def report (o : Overlay) (editor : Editor) (document : Path) (diagnostics : List Diagnostic)
    (revision : Option Revision) : Outcome :=
  (o.hide editor document).andThen fun o =>
    let kept := o.filter document diagnostics
    ({ o with reports := o.reports.replace document ⟨revision, kept⟩ },
      [.log (.stored document revision kept.length)])

/-- What is to be seen over a buffer, with what there is to tell. -/
def rendering (o : Overlay) (editor : Editor) (document : Path) (text : Text)
    (revision : Revision) : Rendering × List LogRecord :=
  match o.reports.find? document with
  | none => ({}, [])
  | some report =>
    if o.settings.allowsSize text.byteSize then
      let seen := report.render revision text ⟨document, editor.inProject document, o.theme⟩ o.rule
      let stale := !seen.applied && !report.diagnostics.isEmpty
      (seen, seen.unresolved.map (fun d => .unresolved document d.span.start.line) ++
        if stale then [.stale document report.revision revision] else [])
    else ({}, [.oversized document text.byteSize])

/-- Bring the markers of a document in line with a rendering: new ones if it applies, none if the
buffer is too large, else the old ones. -/
def placeMarkers (o : Overlay) (document : Path) (text : Text) (seen : Rendering) : Outcome :=
  if seen.applied then o.install document seen.markers
  else if o.settings.allowsSize text.byteSize then (o, [])
  else o.discard document

/-- Show the report of a document as of a revision. The highlights are always replaced, so those of a
stale report go away. -/
def display (o : Overlay) (editor : Editor) (document : Path) (revision : Revision) : Outcome :=
  match editor.buffer document with
  | none => (o, [])
  | some text =>
    let rendered := o.rendering editor document text revision
    let seen := rendered.1
    Outcome.andThen (o, rendered.2.map .log) fun o =>
      (o.placeMarkers document text seen).andThen fun o =>
        (o, .draw (.setHighlights document o.layer seen.highlights) ::
          if seen.applied && !seen.markers.isEmpty then [.announce document seen.markers.length]
          else [])

/-- Take a report and show it at once, if the document has a revision. -/
def publish (o : Overlay) (editor : Editor) (document : Path) (diagnostics : List Diagnostic)
    (revision : Option Revision) : Outcome :=
  (o.report editor document diagnostics revision).andThen fun o =>
    match editor.revision document with
    | some live => o.display editor document live
    | none => (o, [])

/-- Do the same for one document after the other. -/
def forEach (o : Overlay) (documents : List Path) (f : Overlay → Path → Outcome) : Outcome :=
  documents.foldl (fun x document => x.andThen (f · document)) (o, [])

/-- Hide all and forget all reports. Every group belongs to a document with a report, so that no
marker should be left; any that is goes too. -/
def clear (o : Overlay) (editor : Editor) : Outcome :=
  (o.forEach o.reports.documents fun o document => o.hide editor document).andThen fun o =>
    let o := { o with reports := {} }
    if o.groups.isEmpty then (o, [])
    else
      Outcome.andThen (o, [.log (.leftovers o.groups.size)]) fun o =>
        o.forEach o.groups.keys discard

/-- Grey out the markers of a document, once. -/
def disable (o : Overlay) (document : Path) : Outcome :=
  match o.groups.find? document with
  | none => (o, [])
  | some group =>
    if group.enabled then
      let group := group.disable o.theme
      ({ o with groups := o.groups.insert document group },
        group.entries.map fun (h, m) => .draw (.updateMarker document h m))
    else (o, [])

/-- Use another theme, for the markers that are alive too. -/
def restyle (o : Overlay) (theme : Theme) : Outcome :=
  let groups := o.groups.map (·.restyle theme)
  ({ o with theme, groups },
    groups.entries.flatMap fun (document, group) =>
      group.entries.map fun (h, m) => .draw (.updateMarker document h m))

/-- Write highlights to another layer from now on, and clear the old one. -/
def setLayer (o : Overlay) (editor : Editor) (layer : Layer) : Outcome :=
  if layer = o.layer then (o, [])
  else
    ({ o with layer },
      if o.reports.isEmpty then []
      else .log (.layerChanged o.layer layer) ::
        o.reports.documents.flatMap (clearLayer editor o.layer))

end Overlay

end Marginalia
