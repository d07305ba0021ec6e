import Marginalia.Proofs.Overlay.Mirror
import Marginalia.Proofs.Report

/-! What reporting and displaying leave behind for one document: the reports, the group and the
highlights that are drawn last. -/
namespace Marginalia

namespace Report

variable {revision : Revision} (text : Text) (setting : Setting) (rule : MarkerRule)

/-- The diagnostics that resolve are drawn where they resolve to, in their order. -/
theorem render_of_fits {r : Report} (hfits : r.fits revision = true) (hsome : r.diagnostics ≠ []) :
    let seen := r.render revision text setting rule
    seen.applied = true ∧ seen.markers = r.diagnostics.filterMap (rule setting) ∧
      seen.highlights = r.diagnostics.filterMap fun d => (text.resolveSpan d.span).map fun range =>
        ⟨range.1, range.2, .of d.severity, setting.theme.underline (.of d.severity)⟩ := by
  have hif : (r.fits revision && !r.diagnostics.isEmpty) = true := by simp [hfits, hsome]
  unfold render
  rw [if_pos hif]
  exact ⟨rfl, rfl, rfl⟩

theorem render_of_not {r : Report} (h : ¬(r.fits revision = true ∧ r.diagnostics ≠ [])) :
    r.render revision text setting rule = {} := by
  have hif : ¬(r.fits revision && !r.diagnostics.isEmpty) = true := by simpa using h
  unfold render
  rw [if_neg hif]

end Report

namespace Overlay

variable {o : Overlay} {editor : Editor} {d : Path} {text : Text}

theorem discard_fst (o : Overlay) (d : Path) :
    (o.discard d).1 = { o with groups := (o.discard d).1.groups } := by
  unfold discard
  split <;> rfl

theorem disable_fst (o : Overlay) (d : Path) :
    (o.disable d).1 = { o with groups := (o.disable d).1.groups } := by
  unfold disable
  split
  · rfl
  · split <;> rfl

theorem mem_calls_discard {call : ScreenCall} (h : call ∈ (o.discard d).calls) :
    ∃ k, call = .removeMarker d k := by
  cases hg : o.groups.find? d with
  | none =>
    rw [discard_of_none hg] at h
    cases h
  | some g =>
    rw [calls_discard hg] at h
    obtain ⟨k, _, rfl⟩ := List.mem_map.mp h
    exact ⟨k, rfl⟩

/-- Only the report of the document and its group are touched. -/
theorem report_fst (o : Overlay) (editor : Editor) (d : Path) (ds : List Diagnostic)
    (revision : Option Revision) :
    (o.report editor d ds revision).1 =
      { o with
        groups := (o.discard d).1.groups
        reports := o.reports.replace d ⟨revision, o.filter d ds⟩ } := by
  have hhide : (o.hide editor d).1 = { o with groups := (o.discard d).1.groups } := discard_fst o d
  unfold report Outcome.andThen
  rw [hhide]

theorem calls_report (o : Overlay) (editor : Editor) (d : Path) (ds : List Diagnostic)
    (revision : Option Revision) :
    (o.report editor d ds revision).calls =
      Outcome.calls (o, clearLayer editor o.layer d) ++ (o.discard d).calls := by
  unfold report hide
  rw [Outcome.calls_andThen, Outcome.calls_andThen]
  exact List.append_nil _

/-- The group of a document after new markers are put in. -/
theorem find?_install (o : Overlay) (d : Path) (markers : List Marker) :
    (o.install d markers).1.groups.find? d =
      if markers = [] then none else some { number := o.nextGroup, markers } := by
  rw [install_eq]
  cases markers with
  | nil =>
    change (o.discard d).1.groups.find? d = none
    rw [find?_discard, if_pos (Setoid.refl d)]
  | cons m ms =>
    change ((o.discard d).1.add d (m :: ms)).1.groups.find? d = _
    rw [find?_add, if_pos (Setoid.refl d), nextGroup_discard]
    rfl

theorem find?_placeMarkers (o : Overlay) (d : Path) (text : Text) (seen : Rendering) :
    (o.placeMarkers d text seen).1.groups.find? d =
      if seen.applied then
        if seen.markers = [] then none else some { number := o.nextGroup, markers := seen.markers }
      else if o.settings.allowsSize text.byteSize then o.groups.find? d
      else none := by
  unfold placeMarkers
  split
  · exact find?_install o d seen.markers
  · split
    · rfl
    · rw [find?_discard, if_pos (Setoid.refl d)]

theorem display_of_hidden (h : editor.buffer d = none) (revision : Revision) :
    o.display editor d revision = (o, []) := by
  simp [display, h]

theorem display_fst (h : editor.buffer d = some text) (revision : Revision) :
    (o.display editor d revision).1 =
      (o.placeMarkers d text (o.rendering editor d text revision).1).1 := by
  simp [display, h, Outcome.andThen]

theorem reports_discard (o : Overlay) (d : Path) : (o.discard d).1.reports = o.reports := by
  rw [discard_fst]

theorem reports_placeMarkers (o : Overlay) (d : Path) (text : Text) (seen : Rendering) :
    (o.placeMarkers d text seen).1.reports = o.reports := by
  unfold placeMarkers
  split
  · rw [install_eq]
    cases seen.markers <;> exact reports_discard o d
  · split
    · rfl
    · exact reports_discard o d

theorem reports_display (o : Overlay) (editor : Editor) (d : Path) (revision : Revision) :
    (o.display editor d revision).1.reports = o.reports := by
  cases h : editor.buffer d with
  | none => rw [display_of_hidden h]
  | some text =>
    rw [display_fst h]
    exact reports_placeMarkers ..

/-- The highlights are drawn last. -/
theorem calls_display (h : editor.buffer d = some text) (revision : Revision) :
    let seen := (o.rendering editor d text revision).1
    (o.display editor d revision).calls = (o.placeMarkers d text seen).calls ++
      [.setHighlights d (o.display editor d revision).1.layer seen.highlights] := by
  rw [display_fst h]
  unfold display
  rw [h]
  simp only [Outcome.calls_andThen, Outcome.calls_of_log, Outcome.calls_of_paint]
  rfl

theorem publish_of_unknown (h : editor.revision d = none) (o : Overlay) (ds : List Diagnostic)
    (revision : Option Revision) :
    (o.publish editor d ds revision).1 = (o.report editor d ds revision).1 ∧
      (o.publish editor d ds revision).calls = (o.report editor d ds revision).calls := by
  unfold publish
  rw [Outcome.calls_andThen, h]
  exact ⟨rfl, List.append_nil _⟩

theorem publish_of_known {live : Revision} (h : editor.revision d = some live) (o : Overlay)
    (ds : List Diagnostic) (revision : Option Revision) :
    o.publish editor d ds revision =
      (o.report editor d ds revision).andThen (·.display editor d live) := by
  unfold publish
  rw [h]

theorem reports_report (o : Overlay) (editor : Editor) (d : Path) (ds : List Diagnostic)
    (revision : Option Revision) :
    (o.report editor d ds revision).1.reports.find? d = some ⟨revision, o.filter d ds⟩ := by
  rw [report_fst]
  exact (Reports.find?_replace ..).trans (if_pos (Setoid.refl d))

theorem find?_report (o : Overlay) (editor : Editor) (d : Path) (ds : List Diagnostic)
    (revision : Option Revision) : (o.report editor d ds revision).1.groups.find? d = none := by
  rw [report_fst]
  exact (find?_discard o d d).trans (if_pos (Setoid.refl d))

theorem reports_publish (o : Overlay) (editor : Editor) (d : Path) (ds : List Diagnostic)
    (revision : Option Revision) :
    (o.publish editor d ds revision).1.reports.find? d = some ⟨revision, o.filter d ds⟩ := by
  rw [← o.reports_report editor d ds revision]
  cases h : editor.revision d with
  | none => rw [(publish_of_unknown h o ds revision).1]
  | some live =>
    rw [publish_of_known h]
    exact congrArg (Reports.find? · d) (reports_display _ editor d live)

/-- What is rendered of a report: nothing of one that does not apply, or in too large a buffer. -/
theorem rendering_fst {r : Report} (h : o.reports.find? d = some r) (editor : Editor)
    (text : Text) (revision : Revision) :
    (o.rendering editor d text revision).1 =
      if o.settings.allowsSize text.byteSize then
        r.render revision text ⟨d, editor.inProject d, o.theme⟩ o.rule
      else {} := by
  unfold rendering
  rw [h]
  dsimp only
  split <;> rfl

end Overlay

end Marginalia
