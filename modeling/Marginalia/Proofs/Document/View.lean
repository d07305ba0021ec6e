import Marginalia.Session

/-! What a session holds for one document, apart from all others, and what becomes of it at a
command for that document (`DocumentView.act`). Nothing here knows that there are other documents:
that this is enough is what `Session.view_perform` says. -/
namespace Marginalia

structure DocumentView where
  settings : Settings
  layer : Layer
  theme : Theme
  rule : MarkerRule
  filter : Filter
  file : Option OpenFile
  report : Option Report
  /-- Without the number, which is counted over all documents. -/
  group : Option MarkerGroup
  highlights : Layer → List Highlight

namespace DocumentView

variable (v : DocumentView)

/-- New highlights on the current layer. -/
def draw (hs : List Highlight) : DocumentView :=
  { v with highlights := fun layer => if layer = v.layer then hs else v.highlights layer }

/-- The current layer is only cleared while the document is open. -/
def wipe : DocumentView := if v.file.isSome then v.draw [] else v

def bare : DocumentView := { v with group := none }

def hide : DocumentView := v.wipe.bare

def take (document : Path) (diagnostics : List Diagnostic) (revision : Option Revision) :
    DocumentView :=
  { v.hide with report := some ⟨revision, v.filter document diagnostics⟩ }

def rendering (document : Path) (file : OpenFile) (revision : Revision) : Rendering :=
  match v.report with
  | none => {}
  | some report =>
    if v.settings.allowsSize file.text.byteSize then
      report.render revision file.text ⟨document, file.inProject, v.theme⟩ v.rule
    else {}

/-- The markers that go with a rendering: new ones, the old ones, or none. -/
def placed (file : OpenFile) (seen : Rendering) : Option MarkerGroup :=
  if seen.applied then
    if seen.markers = [] then none else some { number := 0, markers := seen.markers }
  else if v.settings.allowsSize file.text.byteSize then v.group
  else none

def display (document : Path) (revision : Revision) : DocumentView :=
  match v.file with
  | none => v
  | some file =>
    let seen := v.rendering document file revision
    { v.draw seen.highlights with group := v.placed file seen }

def publish (document : Path) (diagnostics : List Diagnostic) (revision : Option Revision) :
    DocumentView :=
  match v.file with
  | none => v.take document diagnostics revision
  | some file => (v.take document diagnostics revision).display document file.revision

def clear : DocumentView :=
  { (if v.report.isSome then v.hide else v).bare with report := none }

def setLayer (layer : Layer) : DocumentView :=
  if layer = v.layer then v else { (if v.report.isSome then v.wipe else v) with layer }

def edit (change : Text → Text) : DocumentView :=
  { v with file := v.file.map fun file =>
      { file with text := change file.text, revision := file.revision.next } }

/-- What a command does. One that names a document is for this one. -/
def act : Command → DocumentView
  | .openFile _ text revision => { v with file := some (v.file.getD { text, revision }) }
  | .close _ => { v with file := none }
  | .setInProject _ inProject => { v with file := v.file.map ({ · with inProject }) }
  | .insert _ offset new => v.edit (·.insert offset new)
  | .delete _ start count => v.edit (·.delete start count)
  | .setText _ text => v.edit fun _ => text
  | .report document diagnostics revision => v.take document diagnostics revision
  | .publish document diagnostics revision => v.publish document diagnostics revision
  | .display document revision => v.display document revision
  | .hide _ => v.hide
  | .clear => v.clear
  | .disable _ => { v with group := v.group.map (·.disable v.theme) }
  | .restyle theme => { v with theme, group := v.group.map (·.restyle theme) }
  | .setLayer layer => v.setLayer layer
  | .subscribe _ => v

def run (commands : List Command) : DocumentView := commands.foldl act v

/-- The diagnostics that hold for the document as it is. -/
def current? : Option (List Diagnostic) :=
  (v.report.filter (·.fitsLive (v.file.map (·.revision)))).map (·.diagnostics)

@[simp] theorem draw_highlights (hs : List Highlight) (layer : Layer) :
    (v.draw hs).highlights layer = if layer = v.layer then hs else v.highlights layer := rfl

theorem wipe_of_open {file : OpenFile} (h : v.file = some file) : v.wipe = v.draw [] := by
  simp [wipe, h]

theorem wipe_of_closed (h : v.file = none) : v.wipe = v := by
  simp [wipe, h]

/-- Nothing but highlights is wiped. -/
theorem wipe_eq : v.wipe = { v with highlights := v.wipe.highlights } := by
  unfold wipe
  split <;> rfl

theorem wipe_layer : v.wipe.layer = v.layer := by
  rw [wipe_eq]

theorem wipe_highlights (layer : Layer) :
    v.wipe.highlights layer =
      if layer = v.layer ∧ v.file.isSome then [] else v.highlights layer := by
  unfold wipe
  by_cases h : v.file.isSome <;> simp [h]

theorem draw_draw (hs ks : List Highlight) : (v.draw hs).draw ks = v.draw ks := by
  unfold draw
  congr 1
  funext layer
  by_cases h : layer = v.layer <;> simp [h]

theorem wipe_wipe : v.wipe.wipe = v.wipe := by
  cases h : v.file with
  | none => rw [v.wipe_of_closed h, v.wipe_of_closed h]
  | some file => rw [v.wipe_of_open h, (v.draw []).wipe_of_open h, draw_draw]

theorem wipe_bare : v.bare.wipe = v.wipe.bare := by
  cases h : v.file with
  | none => rw [v.wipe_of_closed h, v.bare.wipe_of_closed h]
  | some file =>
    rw [v.wipe_of_open h, v.bare.wipe_of_open h]
    rfl

theorem hide_hide : v.hide.hide = v.hide := by
  unfold hide
  rw [wipe_bare, wipe_wipe]
  rfl

theorem display_of_open {file : OpenFile} (h : v.file = some file) (document : Path)
    (revision : Revision) :
    v.display document revision =
      let seen := v.rendering document file revision
      { v.draw seen.highlights with group := v.placed file seen } := by
  unfold display
  rw [h]

/-- To display a report again shows nothing else. -/
theorem display_display (document : Path) (revision : Revision) :
    (v.display document revision).display document revision = v.display document revision := by
  cases hfile : v.file with
  | none =>
    have hsame : v.display document revision = v := by simp [display, hfile]
    rw [hsame, hsame]
  | some file =>
    let seen := v.rendering document file revision
    let shown := v.display document revision
    have hshown : shown = { v.draw seen.highlights with group := v.placed file seen } :=
      v.display_of_open hfile document revision
    have hopen : shown.file = some file := by
      rw [hshown]
      exact hfile
    have hagain : shown.rendering document file revision = seen := by
      rw [hshown]
      rfl
    have hplaced : shown.placed file seen = v.placed file seen := by
      rw [hshown]
      simp only [placed, draw]
      split
      · rfl
      · split <;> rfl
    have hdrawn : shown.draw seen.highlights = shown := by
      rw [hshown]
      exact congrArg (fun w : DocumentView => { w with group := v.placed file seen })
        (v.draw_draw seen.highlights seen.highlights)
    have hgroup : shown.group = v.placed file seen := by rw [hshown]
    rw [shown.display_of_open hopen, hagain]
    dsimp only
    rw [hdrawn, hplaced, ← hgroup]

end DocumentView

namespace MarkerGroup

/-- A group by its markers alone. -/
def unnumbered (g : MarkerGroup) : MarkerGroup := { g with number := 0 }

@[simp] theorem enabled_unnumbered (g : MarkerGroup) : g.unnumbered.enabled = g.enabled := rfl

theorem unnumbered_disable (g : MarkerGroup) (theme : Theme) :
    (g.disable theme).unnumbered = g.unnumbered.disable theme := by
  unfold disable unnumbered
  split <;> rfl

end MarkerGroup

def Overlay.view (o : Overlay) (screen : Screen) (files : OpenFiles) (d : Path) :
    DocumentView where
  settings := o.settings
  layer := o.layer
  theme := o.theme
  rule := o.rule
  filter := o.filter
  file := files.find? d
  report := o.reports.find? d
  group := (o.groups.find? d).map (·.unnumbered)
  highlights := screen.highlights d

def Session.view (s : Session) (d : Path) : DocumentView := s.overlay.view s.screen s.files d

end Marginalia
