import Marginalia.Overlay

/-! Questions about reports and markers. Questions about reports are answered only if the report holds
for the live revision of its document. -/
namespace Marginalia.Overlay

def current? (o : Overlay) (editor : Editor) (document : Path) : Option (List Diagnostic) :=
  o.reports.current? document (editor.revision document)

/-- The diagnostics that overlap a span, in the order of the report. -/
def diagnosticsIn (o : Overlay) (editor : Editor) (document : Path) (span : Span) :
    List Diagnostic :=
  ((o.current? editor document).getD []).filter (·.span.overlaps span)

def diagnosticsAt (o : Overlay) (editor : Editor) (document : Path) (p : Position) :
    List Diagnostic :=
  o.diagnosticsIn editor document (.caret p)

/-- Whether a document that the editor shows has just this diagnostic. -/
def has (o : Overlay) (editor : Editor) (document : Path) (d : Diagnostic) : Bool :=
  (editor.buffer document).isSome && ((o.current? editor document).getD []).contains d

def hasAny (o : Overlay) (editor : Editor) (document : Path) : Bool :=
  !((o.current? editor document).getD []).isEmpty

def group? (o : Overlay) (document : Path) : Option MarkerGroup := o.groups.find? document

/-- All markers, document by document. -/
def markers (o : Overlay) : List (Path × Handle × Marker) :=
  o.groups.entries.flatMap fun (document, group) => group.entries.map (document, ·)

def markerCount (o : Overlay) : Nat := o.groups.values.foldl (fun n g => n + g.size) 0

end Marginalia.Overlay
