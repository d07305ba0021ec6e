import Marginalia.Proofs.Overlay.Announcement
import Marginalia.Proofs.Overlay.Display
import Marginalia.Proofs.Text.Order

/-! What a report looks like over a text, without the rendering on the way. Highlights and markers
come from one list of diagnostics (`Overlay.rendered`): the highlights from those that resolve, the
markers from those that the rule gives one. -/
namespace Marginalia

namespace Overlay

variable (o : Overlay) (d : Path) (revision : Revision)

/-- The diagnostics to be seen: those of a report that fits, unless the text is too large. -/
def rendered (text : Text) : List Diagnostic :=
  match o.reports.find? d with
  | none => []
  | some report =>
    if (report.revision = none ∨ report.revision = some revision) ∧
        o.settings.allowsSize text.byteSize = true then report.diagnostics
    else []

def drawn (text : Text) : List Highlight :=
  (o.rendered d revision text).filterMap fun x => (text.resolveSpan x.span).map fun range =>
    ⟨range.1, range.2, .of x.severity, o.theme.underline (.of x.severity)⟩

/-- Whether a diagnostic resolves makes no difference to its marker. -/
def marked (text : Text) (inProject : Bool) : List Marker :=
  (o.rendered d revision text).filterMap (o.rule ⟨d, inProject, o.theme⟩)

/-- Whether the markers that are there have to go. -/
def replaces (text : Text) : Bool :=
  !(o.rendered d revision text).isEmpty || !o.settings.allowsSize text.byteSize

def handlesOf (d : Path) : List Handle := ((o.group? d).map (·.handles)).getD []

theorem rendered_of_report {r : Report} (hreport : o.reports.find? d = some r) (text : Text) :
    o.rendered d revision text =
      if r.fits revision = true ∧ o.settings.allowsSize text.byteSize = true then r.diagnostics
      else [] := by
  unfold rendered
  simp only [hreport, Report.fits_iff]

theorem rendered_of_large {text : Text} (h : o.settings.allowsSize text.byteSize = false) :
    o.rendered d revision text = [] := by
  cases hreport : o.reports.find? d with
  | none => simp [rendered, hreport]
  | some report => simp [o.rendered_of_report d revision hreport, h]

theorem exists_group_of_mem_handlesOf {o : Overlay} {d : Path} {h : Handle}
    (hmem : h ∈ o.handlesOf d) : ∃ g, o.groups.find? d = some g ∧ h.group = g.number := by
  unfold handlesOf group? at hmem
  cases hg : o.groups.find? d with
  | none =>
    rw [hg] at hmem
    cases hmem
  | some g =>
    rw [hg] at hmem
    exact ⟨g, rfl, (MarkerGroup.mem_handlesOf.mp hmem).1⟩

/-- A rendering is told by the list alone, because a report that fits says nothing just if it is
empty. -/
theorem rendering_eq (editor : Editor) (text : Text) :
    let seen := (o.rendering editor d text revision).1
    seen.applied = !(o.rendered d revision text).isEmpty ∧
      seen.highlights = o.drawn d revision text ∧
      seen.markers = o.marked d revision text (editor.inProject d) := by
  intro seen
  unfold drawn marked
  cases hreport : o.reports.find? d with
  | none =>
    have hseen : seen = {} := by simp [seen, rendering, hreport]
    have hnone : o.rendered d revision text = [] := by simp [rendered, hreport]
    rw [hseen, hnone]
    exact ⟨rfl, rfl, rfl⟩
  | some report =>
    have hseen : seen = _ := rendering_fst hreport editor text revision
    rw [hseen, o.rendered_of_report d revision hreport text]
    by_cases hsize : o.settings.allowsSize text.byteSize = true
    · by_cases hshown : report.fits revision = true ∧ report.diagnostics ≠ []
      · obtain ⟨happlied, hmarkers, hhighlights⟩ := Report.render_of_fits text
          ⟨d, editor.inProject d, o.theme⟩ o.rule hshown.1 hshown.2
        rw [if_pos hsize, if_pos ⟨hshown.1, hsize⟩]
        have hsome : (!report.diagnostics.isEmpty) = true := by simp [hshown.2]
        exact ⟨happlied.trans hsome.symm, hhighlights, hmarkers⟩
      · have hnone : (if report.fits revision = true ∧
            o.settings.allowsSize text.byteSize = true then report.diagnostics else []) = [] := by
          split
          · rename_i h
            exact Decidable.byContradiction fun hsome => hshown ⟨h.1, hsome⟩
          · rfl
        rw [if_pos hsize, hnone, Report.render_of_not _ _ _ hshown]
        exact ⟨rfl, rfl, rfl⟩
    · rw [if_neg hsize, if_neg fun h => hsize h.2]
      exact ⟨rfl, rfl, rfl⟩

theorem calls_discard_eq : (o.discard d).calls = (o.handlesOf d).map (.removeMarker d) := by
  unfold handlesOf group?
  cases hg : o.groups.find? d with
  | none =>
    rw [discard_of_none hg]
    rfl
  | some g => exact calls_discard hg

theorem calls_install (markers : List Marker) :
    (o.install d markers).calls = (o.handlesOf d).map (.removeMarker d) ++
      (MarkerGroup.entries { number := o.nextGroup, markers }).map
        fun e => .addMarker d e.1 e.2 := by
  rw [install_eq, Outcome.calls_andThen, calls_discard_eq]
  cases markers with
  | nil => rfl
  | cons m ms =>
    change _ ++ ((o.discard d).1.add d (m :: ms)).calls = _
    rw [calls_add, nextGroup_discard]

theorem calls_placeMarkers {text : Text} {seen : Rendering}
    (hseen : seen.applied = !(o.rendered d revision text).isEmpty)
    (hmarkers : seen.applied = false → seen.markers = []) :
    (o.placeMarkers d text seen).calls =
      (if o.replaces d revision text then (o.handlesOf d).map (.removeMarker d) else []) ++
        (MarkerGroup.entries { number := o.nextGroup, markers := seen.markers }).map
          fun e => .addMarker d e.1 e.2 := by
  unfold placeMarkers replaces
  rw [← hseen]
  cases happlied : seen.applied with
  | true => exact o.calls_install d seen.markers
  | false =>
    rw [hmarkers happlied]
    cases hsize : o.settings.allowsSize text.byteSize with
    | true => rfl
    | false => exact (o.calls_discard_eq d).trans (List.append_nil _).symm

/-- Nothing but groups and their numbers is touched. -/
theorem placeMarkers_fst (text : Text) (seen : Rendering) :
    let placed := (o.placeMarkers d text seen).1
    placed = { o with groups := placed.groups, nextGroup := placed.nextGroup } := by
  have hdiscard : (o.discard d).1 = { o with
      groups := (o.discard d).1.groups
      nextGroup := (o.discard d).1.nextGroup } := by
    rw [nextGroup_discard]
    exact o.discard_fst d
  unfold placeMarkers
  split
  · rw [install_eq]
    cases seen.markers with
    | nil => exact hdiscard
    | cons m ms =>
      change ((o.discard d).1.add d (m :: ms)).1 = { o with
        groups := ((o.discard d).1.add d (m :: ms)).1.groups
        nextGroup := (o.discard d).1.nextGroup + 1 }
      rw [hdiscard]
      rfl
  · split
    · rfl
    · exact hdiscard

/-- Other documents keep their groups. -/
theorem find?_placeMarkers_of_ne {d e : Path} (h : ¬e ≈ d) (text : Text) (seen : Rendering) :
    (o.placeMarkers d text seen).1.groups.find? e = o.groups.find? e := by
  have hdiscard : (o.discard d).1.groups.find? e = o.groups.find? e := by
    rw [find?_discard, if_neg h]
  unfold placeMarkers
  split
  · rw [install_eq]
    cases seen.markers with
    | nil => exact hdiscard
    | cons m ms =>
      change ((o.discard d).1.add d (m :: ms)).1.groups.find? e = _
      rw [find?_add, if_neg h, hdiscard]
  · split
    · rfl
    · exact hdiscard

section Display

variable {editor : Editor} {d} {text : Text} (hbuffer : editor.buffer d = some text)
include hbuffer

theorem display_frame : let after := (o.display editor d revision).1
    after = { o with groups := after.groups, nextGroup := after.nextGroup } := by
  rw [display_fst hbuffer]
  exact o.placeMarkers_fst d text _

theorem calls_display_eq : (o.display editor d revision).calls =
    (if o.replaces d revision text then (o.handlesOf d).map (.removeMarker d) else []) ++
      (MarkerGroup.entries
        { number := o.nextGroup, markers := o.marked d revision text (editor.inProject d) }).map
        (fun e => .addMarker d e.1 e.2) ++
      [.setHighlights d o.layer (o.drawn d revision text)] := by
  obtain ⟨happlied, hhighlights, hmarkers⟩ := o.rendering_eq d revision editor text
  have hunmarked : (o.rendering editor d text revision).1.applied = false →
      (o.rendering editor d text revision).1.markers = [] := by
    intro hnot
    have hnone : o.rendered d revision text = [] := by simpa [happlied] using hnot
    rw [hmarkers, marked, hnone]
    rfl
  have hlayer : (o.display editor d revision).1.layer = o.layer := by
    rw [o.display_frame revision hbuffer]
  have hcalls : (o.display editor d revision).calls = _ := calls_display hbuffer revision
  rw [hcalls, o.calls_placeMarkers d revision happlied hunmarked, hlayer, hhighlights, hmarkers]

theorem added_display : Screen.added (o.display editor d revision).calls =
    MarkerGroup.handlesOf o.nextGroup (o.marked d revision text (editor.inProject d)).length := by
  rw [o.calls_display_eq revision hbuffer, Screen.added_append, Screen.added_append]
  generalize o.marked d revision text (editor.inProject d) = markers
  have hgone : Screen.added (if o.replaces d revision text then
      (o.handlesOf d).map (.removeMarker d) else []) = [] := by
    unfold Screen.added
    split <;> simp [ScreenCall.added?]
  have hnew (es : List (Handle × Marker)) :
      Screen.added (es.map fun e => .addMarker d e.1 e.2) = es.map (·.1) := by
    unfold Screen.added
    rw [List.filterMap_map]
    exact congrFun List.filterMap_eq_map es
  rw [hgone, hnew, MarkerGroup.map_fst_entries]
  exact List.append_nil _

theorem removed_display : Screen.removed (o.display editor d revision).calls =
    if o.replaces d revision text then o.handlesOf d else [] := by
  rw [o.calls_display_eq revision hbuffer]
  unfold Screen.removed
  split <;> simp [ScreenCall.removed?, Function.comp_def]

theorem group_display : (o.display editor d revision).1.group? d =
    if o.rendered d revision text ≠ [] then
      let markers := o.marked d revision text (editor.inProject d)
      if markers = [] then none else some { number := o.nextGroup, markers }
    else if o.settings.allowsSize text.byteSize = true then o.group? d
    else none := by
  obtain ⟨happlied, -, hmarkers⟩ := o.rendering_eq d revision editor text
  rw [display_fst hbuffer]
  refine (o.find?_placeMarkers d text _).trans ?_
  rw [happlied, hmarkers]
  cases o.rendered d revision text <;> rfl

theorem group_display_of_ne {e : Path} (h : ¬e ≈ d) :
    (o.display editor d revision).1.group? e = o.group? e := by
  rw [display_fst hbuffer]
  exact o.find?_placeMarkers_of_ne h text _

/-- What comes in the place of old markers has the next number. -/
theorem number_of_replaced (hreplaces : o.replaces d revision text = true) {g : MarkerGroup}
    (hg : (o.display editor d revision).1.group? d = some g) : g.number = o.nextGroup := by
  rw [o.group_display revision hbuffer] at hg
  split at hg
  · dsimp only at hg
    split at hg
    · cases hg
    · cases hg
      rfl
  · rename_i hnone
    split at hg
    · rename_i hsize
      simp [replaces, Decidable.not_not.mp hnone, hsize] at hreplaces
    · cases hg

/-- When a report is displayed again, as many markers go as come. -/
theorem length_replaced_display : let after := (o.display editor d revision).1
    (if after.replaces d revision text then after.handlesOf d else []).length =
      (o.marked d revision text (editor.inProject d)).length := by
  intro after
  have hreplaces : after.replaces d revision text = o.replaces d revision text := by
    rw [show after = _ from o.display_frame revision hbuffer]
    rfl
  have hgroup : after.group? d = _ := o.group_display revision hbuffer
  rw [hreplaces, handlesOf, hgroup]
  unfold replaces
  by_cases hsome : o.rendered d revision text = []
  · have hnone : o.marked d revision text (editor.inProject d) = [] := by
      rw [marked, hsome]
      rfl
    rw [hnone, hsome]
    cases o.settings.allowsSize text.byteSize <;> rfl
  · rw [if_pos hsome]
    generalize o.marked d revision text (editor.inProject d) = markers
    cases markers <;> simp [hsome, MarkerGroup.handles, MarkerGroup.size]

end Display

end Overlay

end Marginalia
