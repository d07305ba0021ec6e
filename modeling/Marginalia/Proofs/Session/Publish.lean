import Marginalia.Proofs.Overlay.Display
import Marginalia.Proofs.Session.Reachable

/-! A document after its report is published. Nothing that was shown, greyed out or reported before
makes a difference. -/
namespace Marginalia

theorem Screen.highlights_applyAll_concat (s : Screen) (calls : List ScreenCall) (d : Path)
    (layer : Layer) (hs : List Highlight) :
    (s.applyAll (calls ++ [.setHighlights d layer hs])).highlights d layer = hs := by
  rw [applyAll_append]
  simp only [applyAll_cons, applyAll_nil, highlights_setHighlights]
  exact if_pos ⟨Setoid.refl d, trivial⟩

namespace Session

/-- What is to be seen of a document: its highlights on the current layer, and the markers of its
group. -/
structure Displays (s : Session) (d : Path) (drawn : List Highlight) (held : Option MarkerGroup) :
    Prop where
  highlights : s.screen.highlights d s.overlay.layer = drawn
  group : s.overlay.group? d = held
  markers : s.screen.markers d = (held.map (·.markers)).getD []

variable {s : Session}

/-- A step whose last call draws highlights of a document on the current layer. -/
theorem Reachable.displays (hr : Reachable s) {command : Command} {calls : List ScreenCall}
    {d : Path} {hs : List Highlight}
    (hcalls : (s.overlay.respond s.editor command).calls =
      calls ++ [.setHighlights d (s.overlay.respond s.editor command).1.layer hs]) :
    Displays (s.perform command).session d hs
      ((s.overlay.respond s.editor command).1.group? d) := by
  have hf := s.perform_follows command
  constructor
  · rw [hf.screen, hf.overlay, hcalls]
    exact Screen.highlights_applyAll_concat ..
  · rw [hf.overlay]
  · rw [← hf.overlay]
    exact (hr.perform command).sound.mirrors.inOrder d

theorem Reachable.buffer_eq (hr : Reachable s) (d : Path) :
    s.editor.buffer d = (s.files.find? d).map (·.text) := by
  rw [hr.editor_eq]
  rfl

theorem Reachable.buffer_of_open (hr : Reachable s) {d : Path} {file : OpenFile}
    (hopen : s.files.find? d = some file) : s.editor.buffer d = some file.text := by
  rw [hr.buffer_eq, hopen, Option.map_some]

theorem Reachable.revision_eq (hr : Reachable s) (d : Path) :
    s.editor.revision d = (s.files.find? d).map (·.revision) := by
  rw [hr.editor_eq]
  rfl

theorem Reachable.inProject_eq (hr : Reachable s) {d : Path} {file : OpenFile}
    (hopen : s.files.find? d = some file) : s.editor.inProject d = file.inProject := by
  rw [hr.editor_eq]
  simp [OpenFiles.editor, OpenFiles.inProject, hopen]

/-- A report of a document that is not open: its markers go, and its highlights are left alone. -/
theorem publish_of_closed (hr : Reachable s) {d : Path} (hclosed : s.files.find? d = none)
    (ds : List Diagnostic) (revision : Option Revision) :
    let step := s.perform (.publish d ds revision)
    step.session.overlay.group? d = none ∧ step.session.screen.markers d = [] ∧
      ∀ e layer hs, .call (.setHighlights e layer hs) ∉ step.notices := by
  have hf := s.perform_follows (.publish d ds revision)
  have hunknown : s.editor.revision d = none := by rw [hr.revision_eq, hclosed, Option.map_none]
  have hhidden : s.editor.buffer d = none := by rw [hr.buffer_eq, hclosed, Option.map_none]
  obtain ⟨hover, hcalls⟩ := Overlay.publish_of_unknown hunknown s.overlay ds revision
  have hgroup : (s.perform (.publish d ds revision)).session.overlay.group? d = none := by
    rw [hf.overlay]
    exact (congrArg (Overlay.group? · d) hover).trans (Overlay.find?_report ..)
  refine ⟨hgroup, ?_, ?_⟩
  · rw [(hr.perform _).sound.mirrors.inOrder d, hgroup]
    rfl
  · intro e layer hs hmem
    have hcall : .setHighlights e layer hs ∈ (s.overlay.discard d).calls := by
      have hin : _ ∈ (s.overlay.publish s.editor d ds revision).calls := hf.mem_calls hmem
      rw [hcalls, Overlay.calls_report] at hin
      simpa [Overlay.clearLayer, hhidden, Overlay.Outcome.calls] using hin
    obtain ⟨k, hk⟩ := Overlay.mem_calls_discard hcall
    cases hk

theorem publish_of_open (hr : Reachable s) {d : Path} {file : OpenFile}
    (hopen : s.files.find? d = some file) (ds : List Diagnostic) (revision : Option Revision) :
    let report : Report := ⟨revision, s.overlay.filter d ds⟩
    let seen : Rendering := if s.overlay.settings.allowsSize file.text.byteSize then
        report.render file.revision file.text ⟨d, file.inProject, s.overlay.theme⟩ s.overlay.rule
      else {}
    Displays (s.perform (.publish d ds revision)).session d seen.highlights
      (if seen.applied then
        if seen.markers = [] then none
        else some { number := s.overlay.nextGroup, markers := seen.markers }
      else none) := by
  intro report seen
  have hbuffer : s.editor.buffer d = some file.text := by
    rw [hr.buffer_eq, hopen, Option.map_some]
  have hlive : s.editor.revision d = some file.revision := by
    rw [hr.revision_eq, hopen, Option.map_some]
  have hpublish := Overlay.publish_of_known hlive s.overlay ds revision
  let o := (s.overlay.report s.editor d ds revision).1
  have hparts := Overlay.report_fst s.overlay s.editor d ds revision
  have hreport : o.reports.find? d = some report := Overlay.reports_report ..
  have hseen : (o.rendering s.editor d file.text file.revision).1 = seen := by
    rw [Overlay.rendering_fst hreport, hr.inProject_eq hopen]
    simp only [o, hparts]
    rfl
  have hgroup : (s.overlay.publish s.editor d ds revision).1.group? d =
      if seen.applied then
        if seen.markers = [] then none
        else some { number := s.overlay.nextGroup, markers := seen.markers }
      else none := by
    rw [hpublish]
    change (o.display s.editor d file.revision).1.groups.find? d = _
    rw [Overlay.display_fst hbuffer, Overlay.find?_placeMarkers, hseen, Overlay.find?_report]
    simp only [o, hparts, ite_self]
  have hcalls : (s.overlay.publish s.editor d ds revision).calls =
      ((s.overlay.report s.editor d ds revision).calls ++
        (o.placeMarkers d file.text seen).calls) ++
      [.setHighlights d (s.overlay.publish s.editor d ds revision).1.layer seen.highlights] := by
    rw [hpublish, Overlay.Outcome.calls_andThen, List.append_assoc, ← hseen]
    exact congrArg (_ ++ ·) (Overlay.calls_display hbuffer file.revision)
  rw [← hgroup]
  exact hr.displays hcalls

theorem publish_resets (hr : Reachable s) (d : Path) (ds : List Diagnostic)
    (revision : Option Revision) :
    let step := s.perform (.publish d ds revision)
    let kept := s.overlay.filter d ds
    let theme := s.overlay.theme
    step.session.overlay.reports.find? d = some ⟨revision, kept⟩ ∧
      match s.files.find? d with
      | none =>
        step.session.overlay.group? d = none ∧ step.session.screen.markers d = [] ∧
          ∀ e layer hs, .call (.setHighlights e layer hs) ∉ step.notices
      | some file =>
        if (revision = none ∨ revision = some file.revision) ∧ kept ≠ [] ∧
            s.overlay.settings.allowsSize file.text.byteSize = true then
          let markers := kept.filterMap (s.overlay.rule ⟨d, file.inProject, theme⟩)
          Displays step.session d
            (kept.filterMap fun x => (file.text.resolveSpan x.span).map fun range =>
              ⟨range.1, range.2, .of x.severity, theme.underline (.of x.severity)⟩)
            (if markers = [] then none
              else some { number := s.overlay.nextGroup, enabled := true, markers }) ∧
          ∀ h ∈ s.issued, h.group < s.overlay.nextGroup
        else Displays step.session d [] none := by
  intro step kept theme
  have hf := s.perform_follows (.publish d ds revision)
  constructor
  · rw [hf.overlay]
    exact Overlay.reports_publish ..
  · cases hopen : s.files.find? d with
    | none => exact publish_of_closed hr hopen ds revision
    | some file =>
      have hdisplays := publish_of_open hr hopen ds revision
      dsimp only at hdisplays ⊢
      by_cases hshown : (revision = none ∨ revision = some file.revision) ∧ kept ≠ [] ∧
          s.overlay.settings.allowsSize file.text.byteSize = true
      · rw [if_pos hshown]
        obtain ⟨hrevision, hsome, hsize⟩ := hshown
        have hfits := Report.fits_iff (r := ⟨revision, kept⟩).mpr hrevision
        obtain ⟨happlied, hmarkers, hhighlights⟩ := Report.render_of_fits file.text
          ⟨d, file.inProject, theme⟩ s.overlay.rule hfits hsome
        rw [if_pos hsize, if_pos happlied, hmarkers, hhighlights] at hdisplays
        exact ⟨hdisplays, hr.sound.issued⟩
      · rw [if_neg hshown]
        have hseen : (if s.overlay.settings.allowsSize file.text.byteSize = true then
            Report.render ⟨revision, kept⟩ file.revision file.text ⟨d, file.inProject, theme⟩
              s.overlay.rule
            else {}) = {} := by
          split
          · rename_i hsize
            apply Report.render_of_not
            exact fun h => hshown ⟨Report.fits_iff.mp h.1, h.2, hsize⟩
          · rfl
        rw [hseen] at hdisplays
        exact hdisplays

/-- A new report over an edited text: the second diagnostic is beyond its end. -/
theorem publish_resets_edited :
    let issues : List Diagnostic :=
      [⟨⟨⟨0, 1⟩, ⟨0, 0⟩⟩, none, "m"⟩, ⟨⟨⟨0, 9⟩, ⟨0, 9⟩⟩, some .error, "n"⟩]
    let after := (edited.perform (.publish ⟨"/a"⟩ issues none)).session
    Reachable edited ∧ after.overlay.reports.find? ⟨"/a"⟩ = some ⟨none, issues⟩ ∧
      ∃ g, Displays after ⟨"/a"⟩ [⟨0, 1, .warning, 0x04000002⟩] (some g) ∧ g.number = 2 ∧
        g.markers.map (·.severity) = [.hint, .error] := by
  intro issues after
  obtain ⟨hreport, hshown⟩ := publish_resets reachable_edited ⟨"/a"⟩ issues none
  rw [find?_edited] at hshown
  exact ⟨reachable_edited, hreport, _, hshown.1, rfl, rfl⟩

/-- The limit is one of bytes. 512 characters of two bytes each are a kilobyte, and one more is too
many for anything to be shown. -/
example :
    let settings : Settings := { sizeLimitKb := 1 }
    let text (n : Nat) : Text := ⟨List.replicate n 'é'⟩
    let shown (n : Nat) : Session := (start settings).run
      [.openFile ⟨"/a"⟩ (text n) default,
        .publish ⟨"/a"⟩ [⟨⟨⟨0, 0⟩, ⟨0, 1⟩⟩, some .error, "m"⟩] none]
    ((text 512).byteSize = 1024 ∧ settings.allowsSize 1024 = true ∧
        (shown 512).screen.highlights ⟨"/a"⟩ .codeWarnings = [⟨0, 1, .error, 0x04000001⟩] ∧
        ((shown 512).screen.markers ⟨"/a"⟩).length = 1) ∧
      (text 513).byteSize = 1026 ∧ settings.allowsSize 1026 = false ∧
        (shown 513).screen.highlights ⟨"/a"⟩ .codeWarnings = [] ∧
        (shown 513).screen.markers ⟨"/a"⟩ = [] := by decide +kernel

end Session

end Marginalia
