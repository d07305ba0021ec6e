import Marginalia.Proofs.Overlay.Locality
import Marginalia.Proofs.Session.Reachable

/-! Documents do not get in each other's way. The view of a document is changed by a command as the
view alone says (`view_perform`), so that a run leaves on a document what it leaves when all
that is done to other documents is left out (`documents_apart`). -/
namespace Marginalia

namespace Command

/-- The document that a command is for, unless it is for all. -/
def document? : Command → Option Path
  | openFile document _ _ => some document
  | close document => some document
  | setInProject document _ => some document
  | insert document _ _ => some document
  | delete document _ _ => some document
  | setText document _ => some document
  | report document _ _ => some document
  | publish document _ _ => some document
  | display document _ => some document
  | hide document => some document
  | disable document => some document
  | clear => none
  | restyle _ => none
  | setLayer _ => none
  | subscribe _ => none

/-- Whether a command is for a document or for all. -/
def concerns (command : Command) (d : Path) : Bool :=
  match command.document? with
  | some document => d ≈ document
  | none => true

theorem concerns_of_document? {command : Command} {d : Path} (h : command.document? = some d) :
    command.concerns d = true := by
  unfold concerns
  rw [h]
  exact decide_eq_true (Setoid.refl d)

end Command

namespace Session

variable (s : Session) (d : Path)

theorem files_pass (effect : Effect) : (s.pass effect).1.files = s.files := by
  cases effect <;> rfl

theorem files_passAll (effects : List Effect) : (s.passAll effects).1.files = s.files := by
  induction effects generalizing s with
  | nil => rfl
  | cons effect rest ih => exact (ih _).trans (s.files_pass effect)

theorem files_enact (x : Overlay.Outcome) : (s.enact x).session.files = s.files :=
  files_passAll { s with overlay := x.1 } x.2

theorem view_enact (x : Overlay.Outcome) :
    (s.enact x).session.view d = x.view s.screen s.files d := by
  have hf := s.enact_follows x
  unfold view Overlay.Outcome.view
  rw [hf.overlay, hf.screen, s.files_enact x]

theorem view_store (result : Except OpenFiles.Problem OpenFiles) :
    (s.store result).session.view d =
      { s.view d with file := (s.files.after result).find? d } := by
  cases result <;> rfl

theorem view_storeEdit (result : Except OpenFiles.Problem (OpenFiles × Revision)) :
    (s.storeEdit result).session.view d =
      { s.view d with file := (s.files.after (result.map (·.1))).find? d } := by
  cases result <;> rfl

theorem view_edit (e : Path) (change : Text → Text) :
    (s.storeEdit (s.files.edit e change)).session.view d =
      if d ≈ e then (s.view d).edit change else s.view d := by
  rw [view_storeEdit, OpenFiles.find?_edit]
  split <;> rfl

/-- A command does to the view of a document what the view itself says. -/
theorem view_perform {s : Session} (hs : s.masks = {}) (d : Path) (command : Command) :
    (s.perform command).session.view d =
      if command.concerns d then (s.view d).act command else s.view d := by
  have heditor : s.editor = s.files.editor := by
    unfold editor
    rw [hs]
    rfl
  have hif : ∀ (e : Path) (v : DocumentView), (if d ≈ e then v else s.view d) =
      if decide (d ≈ e) then v else s.view d := fun e v => by simp only [decide_eq_true_eq]
  cases command with
  | openFile e text revision =>
    refine (s.view_store d _).trans ?_
    rw [OpenFiles.find?_openFile]
    exact Eq.trans (by split <;> rfl) (hif e _)
  | close e =>
    refine (s.view_store d _).trans ?_
    rw [OpenFiles.find?_close]
    exact Eq.trans (by split <;> rfl) (hif e _)
  | setInProject e inProject =>
    refine (s.view_store d _).trans ?_
    rw [OpenFiles.find?_setInProject]
    exact Eq.trans (by split <;> rfl) (hif e _)
  | insert e offset new => exact (s.view_edit d e _).trans (hif e _)
  | delete e start count => exact (s.view_edit d e _).trans (hif e _)
  | setText e text => exact (s.view_edit d e _).trans (hif e _)
  | report e ds revision =>
    refine (s.view_enact d _).trans ?_
    rw [heditor, Overlay.view_report]
    exact hif e _
  | publish e ds revision =>
    refine (s.view_enact d _).trans ?_
    rw [heditor, Overlay.view_publish]
    exact hif e _
  | display e revision =>
    refine (s.view_enact d _).trans ?_
    rw [heditor, Overlay.view_display]
    exact hif e _
  | hide e =>
    refine (s.view_enact d _).trans ?_
    rw [heditor, Overlay.view_hide]
    exact hif e _
  | disable e =>
    refine (s.view_enact d _).trans ?_
    rw [Overlay.view_disable]
    exact hif e _
  | clear =>
    refine (s.view_enact d _).trans ?_
    rw [heditor]
    exact Overlay.view_clear ..
  | restyle theme => exact (s.view_enact d _).trans (Overlay.view_restyle ..)
  | setLayer layer =>
    refine (s.view_enact d _).trans ?_
    rw [heditor]
    exact Overlay.view_setLayer ..
  | subscribe tag => rfl

/-- Of a run, only the commands for the document and those for all make a difference. -/
theorem view_run {s : Session} (hr : Reachable s) (d : Path) (commands : List Command) :
    (s.run commands).view d = (s.view d).run (commands.filter (·.concerns d)) := by
  induction commands generalizing s with
  | nil => rfl
  | cons command rest ih =>
    have hstep := view_perform hr.sound.unmasked d command
    rw [run_cons, ih (hr.perform command), hstep, List.filter_cons]
    split <;> rfl

/-- Markers by their indices, whatever the number of their group is. -/
def indexed (es : List (Handle × Marker)) : List (Nat × Marker) := es.map fun e => (e.1.index, e.2)

/-- Two sessions that give the same answers about a document and show the same of it. -/
structure AgreeOn (d : Path) (s t : Session) : Prop where
  report : s.overlay.reports.find? d = t.overlay.reports.find? d
  isOpen : s.files.isOpen d = t.files.isOpen d
  text : s.files.text? d = t.files.text? d
  revision : s.files.revision? d = t.files.revision? d
  inProject : s.files.inProject d = t.files.inProject d
  inSpan : ∀ span,
    s.overlay.diagnosticsIn s.editor d span = t.overlay.diagnosticsIn t.editor d span
  atPlace : ∀ p, s.overlay.diagnosticsAt s.editor d p = t.overlay.diagnosticsAt t.editor d p
  has : ∀ x, s.overlay.has s.editor d x = t.overlay.has t.editor d x
  hasAny : s.overlay.hasAny s.editor d = t.overlay.hasAny t.editor d
  highlights : ∀ layer, s.screen.highlights d layer = t.screen.highlights d layer
  /-- The same markers with the same indices, in groups whose numbers can differ. -/
  group : (s.overlay.group? d).map (fun g => (g.enabled, indexed g.entries)) =
    (t.overlay.group? d).map (fun g => (g.enabled, indexed g.entries))
  alive : indexed (s.screen.aliveFor d) = indexed (t.screen.aliveFor d)
  markers : s.screen.markers d = t.screen.markers d

theorem current?_eq_view {s : Session} (hr : Reachable s) (d : Path) :
    s.overlay.current? s.editor d = (s.view d).current? := by
  rw [hr.editor_eq]
  rfl

theorem indexed_entries_unnumbered (g : MarkerGroup) :
    indexed g.unnumbered.entries = indexed g.entries := by
  unfold indexed MarkerGroup.entries
  rw [List.map_map, List.map_map]
  rfl

theorem map_snd_indexed (es : List (Handle × Marker)) : (indexed es).map (·.2) = es.map (·.2) :=
  List.map_map

theorem indexed_aliveFor {s : Session} (hr : Reachable s) (d : Path) :
    indexed (s.screen.aliveFor d) =
      ((s.overlay.group? d).map fun g => indexed g.entries).getD [] := by
  rw [hr.sound.mirrors.aliveFor_eq]
  cases s.overlay.group? d <;> rfl

theorem agreeOn_of_view {s t : Session} (hs : Reachable s) (ht : Reachable t) {d : Path}
    (h : s.view d = t.view d) : AgreeOn d s t := by
  have hfile : s.files.find? d = t.files.find? d := congrArg DocumentView.file h
  have hgroup : (s.overlay.group? d).map (·.unnumbered) = (t.overlay.group? d).map (·.unnumbered) :=
    congrArg DocumentView.group h
  have hcurrent : s.overlay.current? s.editor d = t.overlay.current? t.editor d := by
    rw [current?_eq_view hs, current?_eq_view ht, h]
  have hbuffer : s.editor.buffer d = t.editor.buffer d := by
    rw [hs.editor_eq, ht.editor_eq, OpenFiles.buffer_editor, OpenFiles.buffer_editor, hfile]
  have hspan : ∀ span,
      s.overlay.diagnosticsIn s.editor d span = t.overlay.diagnosticsIn t.editor d span := by
    intro span
    unfold Overlay.diagnosticsIn
    rw [hcurrent]
  have hentries := congrArg (Option.map fun g => (g.enabled, indexed g.entries)) hgroup
  simp only [Option.map_map, Function.comp_def, indexed_entries_unnumbered,
    MarkerGroup.enabled_unnumbered] at hentries
  have halive : indexed (s.screen.aliveFor d) = indexed (t.screen.aliveFor d) := by
    have hindexed := congrArg (fun g => (g.map (·.2)).getD []) hentries
    rw [Option.map_map, Option.map_map] at hindexed
    rw [indexed_aliveFor hs, indexed_aliveFor ht]
    exact hindexed
  constructor
  · exact congrArg DocumentView.report h
  · exact congrArg Option.isSome hfile
  · exact congrArg (Option.map _) hfile
  · exact congrArg (Option.map _) hfile
  · unfold OpenFiles.inProject
    rw [hfile]
  · exact hspan
  · exact fun p => hspan (.caret p)
  · intro x
    unfold Overlay.has
    rw [hcurrent, hbuffer]
  · unfold Overlay.hasAny
    rw [hcurrent]
  · exact fun layer => congrFun (congrArg DocumentView.highlights h) layer
  · exact hentries
  · exact halive
  · rw [← Screen.map_snd_aliveFor, ← Screen.map_snd_aliveFor]
    have hmarkers := congrArg (List.map (·.2)) halive
    rwa [map_snd_indexed, map_snd_indexed] at hmarkers

/-- A new session with parts from its host. -/
def fresh (settings : Settings) (theme : Theme) (rule : MarkerRule) (filter : Filter) : Session :=
  { start settings with overlay := (Overlay.start settings).equip theme rule filter }

theorem reachable_fresh (settings : Settings) (theme : Theme) (rule : MarkerRule)
    (filter : Filter) : Reachable (fresh settings theme rule filter) :=
  (Reachable.start settings).equip theme rule filter

/-- A run leaves on a document what it leaves without all that is done to other documents. -/
theorem documents_apart (settings : Settings) (theme : Theme) (rule : MarkerRule) (filter : Filter)
    (commands : List Command) (d : Path) :
    let s := fresh settings theme rule filter
    AgreeOn d (s.run commands) (s.run (commands.filter (·.concerns d))) := by
  intro s
  have hr : Reachable s := reachable_fresh settings theme rule filter
  apply agreeOn_of_view (hr.run _) (hr.run _)
  rw [view_run hr, view_run hr, List.filter_filter]
  simp only [Bool.and_self]

end Session

end Marginalia
