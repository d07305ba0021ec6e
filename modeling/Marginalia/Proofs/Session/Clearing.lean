import Marginalia.Proofs.Overlay.LifeCycle
import Marginalia.Proofs.Session.Answers

/-! A session that is cleared. No report and no marker is left, also of documents that are closed or
were greyed out, and nothing else is touched but the current layer of open documents with a report.
To clear it again does nothing (`clear_leaves_nothing`). -/
namespace Marginalia

theorem SortedMap.eq_empty_of_find? {ν : Type} {m : SortedMap Path ν}
    (h : ∀ d, m.find? d = none) : m = {} := by
  have hnil : m.entries = [] := (entries_eq_nil_iff m).mpr h
  cases m
  cases hnil
  rfl

namespace Overlay

/-- What only touches groups for one document only touches groups for many. -/
theorem composes_groups : Composes fun o x => ∃ groups, x.1 = { o with groups } where
  silent o := ⟨o.groups, rfl⟩
  andThen := by
    rintro o x f ⟨before, hx⟩ ⟨groups, hgroups⟩
    exact ⟨groups, hgroups.trans (by rw [hx])⟩

/-- The parts of the overlay stay, and so does the number of the next group. -/
theorem clear_fst (o : Overlay) (editor : Editor) :
    (o.clear editor).1 = { o with reports := {}, groups := {} } := by
  obtain ⟨left, hhidden⟩ := composes_groups.forEach (f := fun o d => o.hide editor d)
    (fun o d => ⟨_, o.discard_fst d⟩) o o.reports.documents
  obtain ⟨groups, hclear⟩ :
      ∃ groups, (o.clear editor).1 = { o with reports := {}, groups } := by
    unfold clear Outcome.andThen
    dsimp only
    rw [hhidden]
    split
    · exact ⟨left, rfl⟩
    · exact composes_groups.forEach (fun o d => ⟨_, o.discard_fst d⟩) _ _
  have hnone : groups = {} := by
    apply SortedMap.eq_empty_of_find?
    intro d
    have hgone := o.find?_clear editor d
    rwa [hclear] at hgone
  rw [hclear, hnone]

/-- There is nothing to do. -/
theorem clear_of_empty (o : Overlay) (editor : Editor) :
    { o with reports := {}, groups := {} : Overlay }.clear editor =
      ({ o with reports := {}, groups := {} }, []) := rfl

end Overlay

theorem DocumentView.clear_highlights (v : DocumentView) (layer : Layer) :
    v.clear.highlights layer =
      if layer = v.layer ∧ v.file.isSome = true ∧ v.report.isSome = true then []
      else v.highlights layer := by
  have hhide : v.hide.highlights layer = v.wipe.highlights layer := rfl
  change (if v.report.isSome then v.hide else v).highlights layer = _
  cases hreport : v.report.isSome with
  | true => simp only [if_true, hhide, wipe_highlights, and_true]
  | false => simp

namespace Session

variable {s t : Session}

/-- What a clearing makes of a session. -/
structure Cleared (s t : Session) : Prop where
  /-- Settings, layer, theme, rule, filter and the number of the next group are the same. -/
  overlay : t.overlay = { s.overlay with reports := {}, groups := {} }
  files : t.files = s.files
  masks : t.masks = s.masks
  report : ∀ d, t.overlay.reports.find? d = none
  group : ∀ d, t.overlay.group? d = none
  dead : ∀ h, t.screen.marker? h = none
  markers : ∀ d, t.screen.markers d = []
  count : t.screen.markerCount = 0 ∧ t.overlay.markerCount = 0
  inSpan : ∀ d span, t.overlay.diagnosticsIn t.editor d span = []
  atPlace : ∀ d p, t.overlay.diagnosticsAt t.editor d p = []
  has : ∀ d x, t.overlay.has t.editor d x = false
  hasAny : ∀ d, t.overlay.hasAny t.editor d = false
  highlights : ∀ d layer, t.screen.highlights d layer =
    if layer = s.overlay.layer ∧ s.files.isOpen d = true ∧
      (s.overlay.reports.find? d).isSome = true then []
    else s.screen.highlights d layer

theorem cleared_clear (hr : Reachable s) : Cleared s (s.perform .clear).session := by
  let t := (s.perform .clear).session
  have ht : Reachable t := hr.perform .clear
  have hoverlay : t.overlay = { s.overlay with reports := {}, groups := {} } :=
    (s.perform_follows .clear).overlay.trans (s.overlay.clear_fst s.editor)
  have hreport : ∀ d, t.overlay.reports.find? d = none := by
    intro d
    rw [hoverlay]
    rfl
  have hgroup : ∀ d, t.overlay.group? d = none := by
    intro d
    rw [hoverlay]
    rfl
  have hanswers : ∀ d, t.answers d = .of [] (t.files.isOpen d) := by
    intro d
    have hnone : t.holding d = [] := holding_of_not ht fun report hsome => by
      rw [hreport] at hsome
      cases hsome
    rw [answers_eq ht, hnone]
  have hcount : t.overlay.markerCount = 0 := by
    rw [hoverlay]
    rfl
  have hshown : t.screen.markerCount = 0 := ht.sound.mirrors.count.trans hcount
  constructor
  · exact hoverlay
  · exact s.files_enact _
  · exact (s.perform_follows .clear).masks
  · exact hreport
  · exact hgroup
  · intro h
    have hnil : t.screen.byHandle.entries = [] := List.length_eq_zero_iff.mp hshown
    exact Option.map_eq_none_iff.mpr ((SortedMap.entries_eq_nil_iff _).mp hnil h)
  · intro d
    rw [ht.sound.mirrors.inOrder, hgroup]
    rfl
  · exact ⟨hshown, hcount⟩
  · exact fun d span => congrFun (congrArg Answers.inSpan (hanswers d)) span
  · exact fun d p => congrFun (congrArg Answers.atPlace (hanswers d)) p
  · intro d x
    exact (congrFun (congrArg Answers.has (hanswers d)) x).trans (Bool.and_false _)
  · exact fun d => congrArg Answers.hasAny (hanswers d)
  · intro d layer
    have hview : t.view d = (s.view d).clear := view_perform hr.sound.unmasked d .clear
    have hhighlights := congrFun (congrArg DocumentView.highlights hview) layer
    exact hhighlights.trans ((s.view d).clear_highlights layer)

/-- A second clearing tells nobody anything, and leaves the session as it is. -/
theorem clear_leaves_nothing (hr : Reachable s) :
    let after := (s.perform .clear).session
    Cleared s after ∧ after.perform .clear = { session := after } := by
  intro after
  have hcleared : Cleared s after := cleared_clear hr
  have hidle : after.overlay.clear after.editor = (after.overlay, []) := by
    rw [hcleared.overlay]
    exact s.overlay.clear_of_empty after.editor
  refine ⟨hcleared, ?_⟩
  change after.enact (after.overlay.clear after.editor) = _
  rw [hidle]
  rfl

/-- Reports of an open document whose markers are greyed out, and of one that was closed. -/
def littered : Session := (start {}).run
  [.openFile ⟨"/a"⟩ (.ofString "abc") default, .openFile ⟨"/b"⟩ (.ofString "abc") default,
    .publish ⟨"/a"⟩ [⟨⟨⟨0, 0⟩, ⟨0, 1⟩⟩, some .error, "m"⟩] none,
    .publish ⟨"/b"⟩ [⟨⟨⟨0, 0⟩, ⟨0, 1⟩⟩, some .error, "m"⟩] none,
    .disable ⟨"/a"⟩, .close ⟨"/b"⟩]

/-- Both markers go. The highlight of the closed document is left alone. -/
theorem clear_leaves_nothing_littered :
    let after := (littered.perform .clear).session
    Reachable littered ∧ littered.screen.markerCount = 2 ∧ Cleared littered after ∧
      after.screen.highlights ⟨"/a"⟩ .codeWarnings = [] ∧
      after.screen.highlights ⟨"/b"⟩ .codeWarnings = [⟨0, 1, .error, 0x04000001⟩] ∧
      (after.perform .clear).notices = [] := by
  intro after
  have hr : Reachable littered := (Reachable.start {}).run _
  obtain ⟨hcleared, htwice⟩ := clear_leaves_nothing hr
  refine ⟨hr, by decide, hcleared, ?_, ?_, by rw [htwice]⟩
  · rw [hcleared.highlights]
    decide
  · rw [hcleared.highlights]
    decide

end Session

end Marginalia
