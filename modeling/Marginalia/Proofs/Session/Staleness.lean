import Marginalia.Proofs.Session.Publish

/-! A report displayed over another revision than its own. Its highlights go away, but the markers
of the document only go if the buffer is too large. -/
namespace Marginalia.Session

variable {s : Session}

theorem display_of_open (hr : Reachable s) {d : Path} {file : OpenFile}
    (hopen : s.files.find? d = some file) (revision : Revision) :
    let seen := (s.overlay.rendering s.editor d file.text revision).1
    Displays (s.perform (.display d revision)).session d seen.highlights
      ((s.overlay.placeMarkers d file.text seen).1.group? d) := by
  intro seen
  have hbuffer : s.editor.buffer d = some file.text := by
    rw [hr.buffer_eq, hopen, Option.map_some]
  have hcalls : (s.overlay.respond s.editor (.display d revision)).calls = _ :=
    Overlay.calls_display hbuffer revision
  have hgroup : (s.overlay.respond s.editor (.display d revision)).1 =
      (s.overlay.placeMarkers d file.text seen).1 := Overlay.display_fst hbuffer revision
  rw [← hgroup]
  exact hr.displays hcalls

/-- Nothing stays of a report for another revision just if there were no markers before, or if the
buffer is too large for any. -/
theorem display_stale (hr : Reachable s) {d : Path} {file : OpenFile} {report : Report}
    {own revision : Revision} (hopen : s.files.find? d = some file)
    (hreport : s.overlay.reports.find? d = some report) (htag : report.revision = some own)
    (hstale : own ≠ revision) :
    let after := (s.perform (.display d revision)).session
    let fitting := s.overlay.settings.allowsSize file.text.byteSize
    Displays after d [] (if fitting then s.overlay.group? d else none) ∧
      (after.screen.highlights d after.overlay.layer = [] ∧ after.screen.markers d = [] ↔
        s.screen.markers d = [] ∨ fitting = false) := by
  intro after fitting
  have hseen : (s.overlay.rendering s.editor d file.text revision).1 = {} := by
    have hunfit : ¬(report.fits revision = true ∧ report.diagnostics ≠ []) := by
      rw [Report.fits_iff, htag]
      simp [hstale]
    rw [Overlay.rendering_fst hreport, Report.render_of_not _ _ _ hunfit, ite_self]
  have hdisplays := display_of_open hr hopen revision
  dsimp only at hdisplays
  rw [hseen] at hdisplays
  have hgroup : (s.overlay.placeMarkers d file.text {}).1.group? d =
      if fitting then s.overlay.group? d else none :=
    Overlay.find?_placeMarkers s.overlay d file.text {}
  rw [hgroup] at hdisplays
  refine ⟨hdisplays, ?_⟩
  rw [hdisplays.highlights, hdisplays.markers, hr.sound.mirrors.inOrder d]
  cases fitting <;> simp

/-- The markers of the first revision are displayed over the second one. -/
theorem display_stale_edited :
    let after := (edited.perform (.display ⟨"/a"⟩ ⟨2, by decide, by decide⟩)).session
    Reachable edited ∧ Displays after ⟨"/a"⟩ [] (edited.overlay.group? ⟨"/a"⟩) ∧
      ¬(after.screen.highlights ⟨"/a"⟩ after.overlay.layer = [] ∧
        after.screen.markers ⟨"/a"⟩ = []) := by
  have hne : (⟨1, by decide, by decide⟩ : Revision) ≠ ⟨2, by decide, by decide⟩ := by decide
  have hstale := display_stale reachable_edited find?_edited reports_edited rfl hne
  refine ⟨reachable_edited, hstale.1, fun hnone => ?_⟩
  rcases hstale.2.mp hnone with hbefore | hlarge
  · exact absurd hbefore (by decide)
  · exact absurd hlarge (by decide)

theorem not_always_blank : ¬∀ (s : Session) (d : Path) (file : OpenFile) (report : Report)
    (own revision : Revision), Reachable s → s.files.find? d = some file →
      s.overlay.reports.find? d = some report → report.revision = some own → own ≠ revision →
      let after := (s.perform (.display d revision)).session
      after.screen.highlights d after.overlay.layer = [] ∧ after.screen.markers d = [] := by
  intro hblank
  have hne : (⟨1, by decide, by decide⟩ : Revision) ≠ ⟨2, by decide, by decide⟩ := by decide
  have hmarkers := (hblank edited ⟨"/a"⟩ _ _ _ _ reachable_edited find?_edited reports_edited
    rfl hne).2
  exact absurd hmarkers (by decide)

end Marginalia.Session
