import Marginalia.Proofs.Session.Locality
import Marginalia.Proofs.Session.Publish

/-! Edits of a document with a report for its revision. An edit gives the document the next
revision, so that nothing of the report is answered or drawn any more. But the greatest revision has
no next one: there the report goes on to be taken for one of the edited text. -/
namespace Marginalia

namespace Revision

theorem next_eq_self_iff (r : Revision) : r.next = r ↔ ¬r.number < 2147483647 := by
  have hhigh := r.high
  constructor
  · intro h
    have hnumber : min (r.number + 1) 2147483647 = r.number := congrArg number h
    omega
  · intro h
    have hnumber : r.next.number = r.number := by
      change min (r.number + 1) 2147483647 = r.number
      omega
    cases r
    simpa [next] using hnumber

end Revision

/-- The document that a command edits, and how its text is changed. -/
def Command.edit? : Command → Option (Path × (Text → Text))
  | insert document offset new => some (document, (·.insert offset new))
  | delete document start count => some (document, (·.delete start count))
  | setText document text => some (document, fun _ => text)
  | _ => none

/-- A report that fits the revision before an edit holds after it only if that was the greatest. -/
theorem DocumentView.current?_edit {v : DocumentView} {file : OpenFile} (hfile : v.file = some file)
    {report : Report} (hreport : v.report = some report)
    (htag : report.revision = some file.revision) (change : Text → Text) :
    (v.edit change).current? =
      if file.revision.number < 2147483647 then none else some report.diagnostics := by
  have hfits : report.fits file.revision.next = true ↔ ¬file.revision.number < 2147483647 := by
    rw [Report.fits_iff, htag, ← Revision.next_eq_self_iff]
    simp [eq_comm]
  unfold current? edit
  dsimp only
  rw [hfile, hreport]
  by_cases hlt : file.revision.number < 2147483647
  · have hnot : report.fits file.revision.next = false :=
      Bool.eq_false_iff.mpr fun h => hfits.mp h hlt
    simp [Option.filter, Report.fitsLive, hnot, hlt]
  · simp [Option.filter, Report.fitsLive, hfits.mpr hlt, hlt]

theorem Overlay.rendering_of_idle {o : Overlay} {editor : Editor} {d : Path} {revision : Revision}
    (hlive : editor.revision d = some revision) (h : (o.current? editor d).getD [] = [])
    (text : Text) : (o.rendering editor d text revision).1 = {} := by
  cases hreport : o.reports.find? d with
  | none =>
    unfold rendering
    rw [hreport]
  | some report =>
    have hnot : ¬(report.fits revision = true ∧ report.diagnostics ≠ []) := by
      rintro ⟨hfits, hsome⟩
      unfold current? Reports.current? at h
      rw [hreport, hlive] at h
      exact hsome (by simpa [Option.filter, Report.fitsLive, hfits] using h)
    rw [rendering_fst hreport, Report.render_of_not _ _ _ hnot, ite_self]

namespace Session

variable {s : Session} {d : Path}

/-- No question about the diagnostics of a document finds any, and to display it at its live revision
draws no highlights. -/
structure Unanswered (s : Session) (d : Path) : Prop where
  inSpan : ∀ span, s.overlay.diagnosticsIn s.editor d span = []
  atPlace : ∀ p, s.overlay.diagnosticsAt s.editor d p = []
  has : ∀ x, s.overlay.has s.editor d x = false
  hasAny : s.overlay.hasAny s.editor d = false
  undrawn : ∀ revision, s.files.revision? d = some revision → ∀ e layer hs,
    .call (.setHighlights e layer hs) ∈ (s.perform (.display d revision)).notices → hs = []

theorem drawn_of_idle (hr : Reachable s) (h : (s.overlay.current? s.editor d).getD [] = [])
    {revision : Revision} (hlive : s.files.revision? d = some revision) {e : Path} {layer : Layer}
    {hs : List Highlight}
    (hcall : .call (.setHighlights e layer hs) ∈ (s.perform (.display d revision)).notices) :
    hs = [] := by
  obtain ⟨file, hopen, -⟩ := Option.map_eq_some_iff.mp hlive
  have hbuffer : s.editor.buffer d = some file.text := by
    rw [hr.buffer_eq, hopen, Option.map_some]
  have hseen : (s.overlay.rendering s.editor d file.text revision).1 = {} :=
    Overlay.rendering_of_idle ((hr.revision_eq d).trans hlive) h file.text
  have hmem : .setHighlights e layer hs ∈ (s.overlay.display s.editor d revision).calls :=
    (s.perform_follows _).mem_calls hcall
  rw [Overlay.calls_display hbuffer, hseen] at hmem
  rcases List.mem_append.mp hmem with hplaced | hlast
  · unfold Overlay.placeMarkers at hplaced
    rw [if_neg Bool.false_ne_true] at hplaced
    split at hplaced
    · cases hplaced
    · obtain ⟨k, hk⟩ := Overlay.mem_calls_discard hplaced
      cases hk
  · cases List.mem_singleton.mp hlast
    rfl

/-- All of this is one thing: the document has no diagnostics that hold for it as it is. -/
theorem unanswered_iff (hr : Reachable s) :
    Unanswered s d ↔ (s.overlay.current? s.editor d).getD [] = [] := by
  constructor
  · intro h
    have hany := h.hasAny
    unfold Overlay.hasAny at hany
    simpa using hany
  · intro h
    have hspan : ∀ span, s.overlay.diagnosticsIn s.editor d span = [] := by
      intro span
      unfold Overlay.diagnosticsIn
      rw [h]
      rfl
    refine ⟨hspan, fun p => hspan (.caret p), fun x => ?_, ?_, fun revision hlive e layer hs => ?_⟩
    · unfold Overlay.has
      simp [h]
    · unfold Overlay.hasAny
      simp [h]
    · exact drawn_of_idle hr h hlive

theorem perform_of_edit (s : Session) {command : Command} {e : Path} {change : Text → Text}
    (h : command.edit? = some (e, change)) :
    s.perform command = s.storeEdit (s.files.edit e change) := by
  cases command <;> cases h <;> rfl

/-- After an edit nothing of a report for the revision before holds, unless that was the greatest
one: then all of it still does. -/
theorem edit_outdates (hr : Reachable s) {file : OpenFile} (hopen : s.files.find? d = some file)
    {report : Report} (hreport : s.overlay.reports.find? d = some report)
    (htag : report.revision = some file.revision) {command : Command} {e : Path}
    {change : Text → Text} (hedit : command.edit? = some (e, change)) (he : d ≈ e) :
    let after := s.perform command
    after.answer = .edited file.revision.next ∧
      after.session.overlay.current? after.session.editor d =
        (if file.revision.number < 2147483647 then none else some report.diagnostics) ∧
      (Unanswered after.session d ↔
        file.revision.number < 2147483647 ∨ report.diagnostics = []) := by
  intro after
  have hafter : after = s.storeEdit (s.files.edit e change) := s.perform_of_edit hedit
  have hview : after.session.view d = (s.view d).edit change := by
    rw [hafter, view_edit, if_pos he]
  have hcurrent : after.session.overlay.current? after.session.editor d =
      if file.revision.number < 2147483647 then none else some report.diagnostics := by
    rw [current?_eq_view (hr.perform command), hview]
    exact DocumentView.current?_edit hopen hreport htag change
  refine ⟨?_, hcurrent, ?_⟩
  · rw [hafter, OpenFiles.edit_of_open _ _ ((s.files.find?_congr he).symm.trans hopen)]
    rfl
  · rw [unanswered_iff (hr.perform command), hcurrent]
    by_cases hlt : file.revision.number < 2147483647
    · simp [hlt]
    · simp [hlt]

/-- One error is reported for a document as it is. -/
def reported (revision : Revision) : Session := (start {}).run
  [.openFile ⟨"/a"⟩ (.ofString "abc") revision,
    .report ⟨"/a"⟩ [⟨⟨⟨0, 0⟩, ⟨0, 1⟩⟩, some .error, "m"⟩] (some revision)]

theorem reachable_reported (revision : Revision) : Reachable (reported revision) :=
  (Reachable.start {}).run _

theorem view_file (s : Session) (d : Path) : (s.view d).file = s.files.find? d := rfl

theorem view_report (s : Session) (d : Path) : (s.view d).report = s.overlay.reports.find? d := rfl

theorem view_reported (revision : Revision) :
    (reported revision).view ⟨"/a"⟩ = ((start {}).view ⟨"/a"⟩).run
      [.openFile ⟨"/a"⟩ (.ofString "abc") revision,
        .report ⟨"/a"⟩ [⟨⟨⟨0, 0⟩, ⟨0, 1⟩⟩, some .error, "m"⟩] (some revision)] := by
  refine (view_run (Reachable.start {}) _ _).trans (congrArg _ (List.filter_eq_self.mpr ?_))
  intro command hmem
  apply Command.concerns_of_document?
  rcases List.mem_cons.mp hmem with rfl | hlast
  · rfl
  · cases List.mem_singleton.mp hlast
    rfl

theorem find?_reported (revision : Revision) : (reported revision).files.find? ⟨"/a"⟩ =
    some { text := .ofString "abc", revision } := by
  rw [← view_file, view_reported]
  rfl

theorem reports_reported (revision : Revision) : (reported revision).overlay.reports.find? ⟨"/a"⟩ =
    some ⟨some revision, [⟨⟨⟨0, 0⟩, ⟨0, 1⟩⟩, some .error, "m"⟩]⟩ := by
  rw [← view_report, view_reported]
  rfl

/-- A text is cut under another spelling of its document. -/
theorem edit_outdates_reported :
    let s := reported ⟨1, by decide, by decide⟩
    let after := s.perform (.delete ⟨"//a/."⟩ 0 1)
    Reachable s ∧ s.overlay.hasAny s.editor ⟨"/a"⟩ = true ∧
      after.answer = .edited ⟨2, by decide, by decide⟩ ∧ Unanswered after.session ⟨"/a"⟩ := by
  have hr := reachable_reported ⟨1, by decide, by decide⟩
  have hedit : (Command.delete ⟨"//a/."⟩ 0 1).edit? = some (⟨"//a/."⟩, (·.delete 0 1)) := rfl
  obtain ⟨hanswer, -, hiff⟩ :=
    edit_outdates hr (find?_reported _) (reports_reported _) rfl hedit (by decide)
  exact ⟨hr, by decide, hanswer, hiff.mpr (.inl (by decide))⟩

theorem not_always_unanswered : ¬∀ (s : Session) (d e : Path) (file : OpenFile) (report : Report)
    (command : Command) (change : Text → Text), Reachable s → s.files.find? d = some file →
      s.overlay.reports.find? d = some report → report.revision = some file.revision →
      command.edit? = some (e, change) → d ≈ e → Unanswered (s.perform command).session d := by
  intro hall
  let greatest : Revision := ⟨2147483647, by decide, by decide⟩
  have hedit : (Command.insert ⟨"/a"⟩ 0 (.ofString "x")).edit? =
      some (⟨"/a"⟩, (·.insert 0 (.ofString "x"))) := rfl
  have hunanswered := hall _ _ _ _ _ _ _ (reachable_reported greatest) (find?_reported greatest)
    (reports_reported greatest) rfl hedit (Setoid.refl _)
  exact absurd hunanswered.hasAny (by decide)

end Session

end Marginalia
