import Marginalia.Proofs.Session.Publish
import Marginalia.Proofs.Text.Resolve

/-! Carets against highlights. A highlight is where the ends of a diagnostic resolve to, in whatever
order they are; a caret is compared with the ends as they were given. Both agree as long as these
are in order. A diagnostic with reversed ends is highlighted, but no caret finds it. -/
namespace Marginalia

namespace Overlay

variable {o : Overlay} {editor : Editor} {d : Path} {p : Position} {x : Diagnostic}

theorem mem_diagnosticsAt_iff : x ∈ o.diagnosticsAt editor d p ↔
    x ∈ (o.current? editor d).getD [] ∧ x.span.start ≤ p ∧ p ≤ x.span.stop := by
  rw [diagnosticsAt, diagnosticsIn, List.mem_filter, Span.overlaps_caret_iff]

theorem mem_current?_iff : x ∈ (o.current? editor d).getD [] ↔
    ∃ report, o.reports.find? d = some report ∧ report.fitsLive (editor.revision d) = true ∧
      x ∈ report.diagnostics := by
  unfold current? Reports.current?
  cases o.reports.find? d with
  | none => simp
  | some report => by_cases hfits : report.fitsLive (editor.revision d) <;> simp [Option.filter, hfits]

end Overlay

theorem Diagnostic.resolveSpan_of_highlight? {x : Diagnostic} {text : Text} {theme : Theme}
    {h : Highlight} (hdrawn : x.highlight? text theme = some h) :
    text.resolveSpan x.span = some (h.start, h.stop) := by
  obtain ⟨range, hrange, rfl⟩ := Option.map_eq_some_iff.mp hdrawn
  exact hrange

/-- A caret inside a highlight finds its diagnostic just if the diagnostic has its ends in order. To
ask for the diagnostic itself finds it in any case. -/
theorem Overlay.mem_diagnosticsAt_iff_of_inside {o : Overlay} {editor : Editor} {d : Path}
    {text : Text} (hopen : editor.buffer d = some text) {report : Report}
    (hreport : o.reports.find? d = some report)
    (hfits : report.fitsLive (editor.revision d) = true) {x : Diagnostic}
    (hx : x ∈ report.diagnostics) {theme : Theme} {h : Highlight}
    (hdrawn : x.highlight? text theme = some h) {p : Position} {k : Nat}
    (hp : text.resolve p = some k) (hlow : h.start < k) (hhigh : k < h.stop) :
    o.has editor d x = true ∧
      (x ∈ o.diagnosticsAt editor d p ↔ x.span.start ≤ x.span.stop) := by
  have hcurrent : x ∈ (o.current? editor d).getD [] :=
    mem_current?_iff.mpr ⟨report, hreport, hfits, hx⟩
  have hspan := Diagnostic.resolveSpan_of_highlight? hdrawn
  refine ⟨by simp [has, hopen, hcurrent], ?_⟩
  rw [mem_diagnosticsAt_iff]
  constructor
  · rintro ⟨-, hstart, hstop⟩
    exact Position.le_trans hstart hstop
  · intro hordered
    exact ⟨hcurrent, Text.between_of_resolve_mem hspan hp hlow hhigh hordered⟩

namespace Session

/-- The same range is reported forwards and backwards, over a text with a surrogate pair in it. -/
def reversed : Session := (start {}).run
  [.openFile ⟨"/a"⟩ (.ofString "a😀b") default,
    .report ⟨"/a"⟩ [⟨⟨⟨0, 0⟩, ⟨0, 4⟩⟩, some .error, "m"⟩, ⟨⟨⟨0, 4⟩, ⟨0, 0⟩⟩, none, "n"⟩] none]

theorem reachable_reversed : Reachable reversed := (Reachable.start {}).run _

theorem find?_reversed : reversed.files.find? ⟨"/a"⟩ =
    some { text := .ofString "a😀b", revision := default } := by decide

theorem reports_reversed : reversed.overlay.reports.find? ⟨"/a"⟩ =
    some ⟨none, [⟨⟨⟨0, 0⟩, ⟨0, 4⟩⟩, some .error, "m"⟩, ⟨⟨⟨0, 4⟩, ⟨0, 0⟩⟩, none, "n"⟩]⟩ := by decide

/-- A caret in the middle of the surrogate pair finds only the first of the two diagnostics. -/
theorem mem_diagnosticsAt_iff_of_inside_reversed :
    let forwards : Diagnostic := ⟨⟨⟨0, 0⟩, ⟨0, 4⟩⟩, some .error, "m"⟩
    let backwards : Diagnostic := ⟨⟨⟨0, 4⟩, ⟨0, 0⟩⟩, none, "n"⟩
    let o := reversed.overlay
    let editor := reversed.editor
    o.has editor ⟨"/a"⟩ forwards = true ∧ forwards ∈ o.diagnosticsAt editor ⟨"/a"⟩ ⟨0, 2⟩ ∧
      o.has editor ⟨"/a"⟩ backwards = true ∧ backwards ∉ o.diagnosticsAt editor ⟨"/a"⟩ ⟨0, 2⟩ := by
  intro forwards backwards o editor
  have hopen : editor.buffer ⟨"/a"⟩ = some (.ofString "a😀b") := by decide
  have hp : (Text.ofString "a😀b").resolve ⟨0, 2⟩ = some 1 := by decide
  have hforwards : forwards.highlight? (.ofString "a😀b") .standard =
      some ⟨0, 3, .error, 0x04000001⟩ := by decide
  have hbackwards : backwards.highlight? (.ofString "a😀b") .standard =
      some ⟨0, 3, .warning, 0x04000002⟩ := by decide
  obtain ⟨hfirst, hfound⟩ := Overlay.mem_diagnosticsAt_iff_of_inside hopen reports_reversed rfl
    (by decide) hforwards hp (by decide) (by decide)
  obtain ⟨hsecond, hmissed⟩ := Overlay.mem_diagnosticsAt_iff_of_inside hopen reports_reversed rfl
    (by decide) hbackwards hp (by decide) (by decide)
  exact ⟨hfirst, hfound.mpr (by decide), hsecond, mt hmissed.mp (by decide)⟩

theorem not_always_found : ¬∀ (s : Session) (d : Path) (file : OpenFile) (report : Report)
    (x : Diagnostic) (h : Highlight) (p : Position) (k : Nat), Reachable s →
      s.files.find? d = some file → s.overlay.reports.find? d = some report →
      report.fits file.revision = true → x ∈ report.diagnostics →
      x.highlight? file.text s.overlay.theme = some h → file.text.resolve p = some k →
      h.start < k → k < h.stop → x ∈ s.overlay.diagnosticsAt s.editor d p := by
  intro hall
  have hmem := hall reversed ⟨"/a"⟩ _ _ ⟨⟨⟨0, 4⟩, ⟨0, 0⟩⟩, none, "n"⟩ ⟨0, 3, .warning, 0x04000002⟩
    ⟨0, 2⟩ 1 reachable_reversed find?_reversed reports_reversed rfl (by decide) (by decide)
    (by decide) (by decide) (by decide)
  exact absurd hmem (by decide)

/-- A caret that finds a diagnostic is in its highlight or on the edge of it, and the highlight is
drawn with the report. -/
theorem highlight_of_found {s : Session} (hr : Reachable s) {d : Path} {file : OpenFile}
    (hopen : s.files.find? d = some file) {p : Position} {x : Diagnostic}
    (hx : x ∈ s.overlay.diagnosticsAt s.editor d p) {h : Highlight}
    (hdrawn : x.highlight? file.text s.overlay.theme = some h) {k : Nat}
    (hp : file.text.resolve p = some k) :
    (h.start ≤ k ∧ k ≤ h.stop) ∧
      ∃ report, s.overlay.reports.find? d = some report ∧
        h ∈ (report.render file.revision file.text ⟨d, file.inProject, s.overlay.theme⟩
          s.overlay.rule).highlights := by
  obtain ⟨hcurrent, hstart, hstop⟩ := Overlay.mem_diagnosticsAt_iff.mp hx
  have hspan := Diagnostic.resolveSpan_of_highlight? hdrawn
  refine ⟨Text.resolve_mem_of_between hspan hp hstart hstop, ?_⟩
  obtain ⟨report, hreport, hfits, hlisted⟩ := Overlay.mem_current?_iff.mp hcurrent
  rw [hr.revision_eq, hopen] at hfits
  have hrender : (report.fits file.revision && !report.diagnostics.isEmpty) = true := by
    simpa [Report.fitsLive] using ⟨hfits, List.ne_nil_of_mem hlisted⟩
  refine ⟨report, hreport, ?_⟩
  rw [Report.render, if_pos hrender]
  exact List.mem_filterMap.mpr ⟨x, hlisted, hdrawn⟩

/-- The caret is behind the last character. -/
theorem highlight_of_found_reversed :
    let h : Highlight := ⟨0, 3, .error, 0x04000001⟩
    Reachable reversed ∧ (Text.ofString "a😀b").resolve ⟨0, 4⟩ = some 3 ∧
      (h.start ≤ 3 ∧ 3 ≤ h.stop) ∧
      ∃ report, reversed.overlay.reports.find? ⟨"/a"⟩ = some report ∧
        h ∈ (report.render default (.ofString "a😀b")
          ⟨⟨"/a"⟩, true, reversed.overlay.theme⟩ reversed.overlay.rule).highlights := by
  intro h
  have hfound : (⟨⟨⟨0, 0⟩, ⟨0, 4⟩⟩, some .error, "m"⟩ : Diagnostic) ∈
      reversed.overlay.diagnosticsAt reversed.editor ⟨"/a"⟩ ⟨0, 4⟩ := by decide
  have hp : (Text.ofString "a😀b").resolve ⟨0, 4⟩ = some 3 := by decide
  have hdrawn := highlight_of_found reachable_reversed find?_reversed hfound (h := h) (by decide) hp
  exact ⟨reachable_reversed, hp, hdrawn⟩

end Session

end Marginalia
