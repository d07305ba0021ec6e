import Marginalia.Proofs.Overlay.Rendering
import Marginalia.Proofs.Session.Answers

/-! Displaying the report of a document. What is to be seen afterwards is told by the report, the
text and the parts of the overlay alone, and to display it again shows nothing else
(`display_refines`). -/
namespace Marginalia.Session

variable {s : Session}

/-- What displaying does for a document that is open. -/
structure Renders (s : Session) (d : Path) (file : OpenFile) (revision : Revision) (step : Step) :
    Prop where
  /-- Old markers that have to go, then the new ones, and then the highlights, in one call. -/
  calls : step.notices.filterMap Notice.call? =
    (if s.overlay.replaces d revision file.text then
        (s.overlay.handlesOf d).map (.removeMarker d)
      else []) ++
      (MarkerGroup.entries
        { number := s.overlay.nextGroup
          markers := s.overlay.marked d revision file.text file.inProject }).map
        (fun e => .addMarker d e.1 e.2) ++
      [.setHighlights d s.overlay.layer (s.overlay.drawn d revision file.text)]
  ranges : ∀ h ∈ s.overlay.drawn d revision file.text, h.start ≤ h.stop ∧ h.stop ≤ file.text.size
  /-- The parts of the overlay and the reports stay. -/
  overlay : step.session.overlay =
    { s.overlay with
      groups := step.session.overlay.groups
      nextGroup := step.session.overlay.nextGroup }
  files : step.session.files = s.files
  highlights : ∀ layer, step.session.screen.highlights d layer =
    if layer = s.overlay.layer then s.overlay.drawn d revision file.text
    else s.screen.highlights d layer
  group : step.session.overlay.group? d =
    if s.overlay.rendered d revision file.text ≠ [] then
      let markers := s.overlay.marked d revision file.text file.inProject
      if markers = [] then none else some { number := s.overlay.nextGroup, markers }
    else if s.overlay.settings.allowsSize file.text.byteSize = true then s.overlay.group? d
    else none
  markers : step.session.screen.markers d =
    ((step.session.overlay.group? d).map (·.markers)).getD []
  /-- With or without a report. -/
  large : s.overlay.settings.allowsSize file.text.byteSize = false →
    step.session.overlay.group? d = none ∧ step.session.screen.markers d = []
  /-- No handle of a marker that had to go is alive. -/
  removed : s.overlay.replaces d revision file.text = true →
    ∀ h ∈ s.overlay.handlesOf d, step.session.screen.marker? h = none
  others : ∀ e, ¬e ≈ d →
    step.session.overlay.group? e = s.overlay.group? e ∧
      step.session.screen.aliveFor e = s.screen.aliveFor e ∧
      ∀ layer, step.session.screen.highlights e layer = s.screen.highlights e layer

theorem display_of_closed (hr : Reachable s) {d : Path} (hclosed : s.files.find? d = none)
    (revision : Revision) : s.perform (.display d revision) = { session := s } := by
  have hhidden : s.editor.buffer d = none := by rw [hr.buffer_eq, hclosed, Option.map_none]
  change s.enact (s.overlay.display s.editor d revision) = _
  rw [Overlay.display_of_hidden hhidden]
  rfl

/-- A handle is not alive if no group has its number. -/
theorem marker?_eq_none {t : Session} (ht : Reachable t) {h : Handle}
    (hgone : ∀ d g, t.overlay.groups.find? d = some g → h.group ≠ g.number) :
    t.screen.marker? h = none := by
  apply Option.map_eq_none_iff.mpr
  apply Option.eq_none_iff_forall_ne_some.mpr
  rintro ⟨d, m⟩ hlive
  obtain ⟨g, hg, hm⟩ := (ht.sound.mirrors.live d h m).mp ⟨d, hlive, Setoid.refl d⟩
  exact hgone d g hg (MarkerGroup.group_eq_of_find? hm)

section Open

variable (hr : Reachable s) {d : Path} {file : OpenFile} (hopen : s.files.find? d = some file)
  (revision : Revision)
include hr hopen

theorem highlights_display (layer : Layer) :
    (s.perform (.display d revision)).session.screen.highlights d layer =
      if layer = s.overlay.layer then s.overlay.drawn d revision file.text
      else s.screen.highlights d layer := by
  have hseen : ((s.view d).rendering d file revision).highlights =
      s.overlay.drawn d revision file.text := by
    have hrendering :=
      Overlay.rendering_of_open s.screen s.files d s.overlay hopen (Setoid.refl d) revision
    rw [← hr.editor_eq] at hrendering
    rw [← (s.overlay.rendering_eq d revision s.editor file.text).2.1, hrendering]
    rfl
  have hview := view_perform hr.sound.unmasked d (.display d revision)
  rw [if_pos (Command.concerns_of_document? rfl)] at hview
  rw [← hseen]
  exact congrFun (congrArg DocumentView.highlights
    (hview.trans ((s.view d).display_of_open hopen d revision))) layer

/-- The new group has a number that was still free, and other groups stay. -/
theorem marker?_of_replaced (hreplaces : s.overlay.replaces d revision file.text = true)
    {h : Handle} (hmem : h ∈ s.overlay.handlesOf d) :
    (s.perform (.display d revision)).session.screen.marker? h = none := by
  have hbuffer := hr.buffer_of_open hopen
  obtain ⟨old, hold, hnumber⟩ := Overlay.exists_group_of_mem_handlesOf hmem
  apply marker?_eq_none (hr.perform _)
  intro e g hg heq
  rw [(s.perform_follows (.display d revision)).overlay] at hg
  by_cases he : e ≈ d
  · have hlt : old.number < s.overlay.nextGroup := hr.sound.mirrors.lt_next hold
    have hnext := s.overlay.number_of_replaced revision hbuffer hreplaces
      ((Overlay.find?_congr _ he).symm.trans hg)
    omega
  · have hkept := s.overlay.group_display_of_ne revision hbuffer he
    exact he (hr.sound.mirrors.inj (hkept.symm.trans hg) hold (heq.symm.trans hnumber))

theorem renders_display : Renders s d file revision (s.perform (.display d revision)) := by
  let o := s.overlay
  let t := (s.perform (.display d revision)).session
  have hf := s.perform_follows (.display d revision)
  have ht : Reachable t := hr.perform _
  have hover : t.overlay = (o.display s.editor d revision).1 := hf.overlay
  have hbuffer := hr.buffer_of_open hopen
  have hgroup := o.group_display revision hbuffer
  have hcalls := o.calls_display_eq revision hbuffer
  rw [hr.inProject_eq hopen] at hgroup hcalls
  constructor
  · exact hf.calls.trans hcalls
  · intro h hmem
    obtain ⟨x, -, hx⟩ := List.mem_filterMap.mp hmem
    obtain ⟨range, hrange, rfl⟩ := Option.map_eq_some_iff.mp hx
    exact Text.resolveSpan_bounds hrange
  · change t.overlay = { o with groups := t.overlay.groups, nextGroup := t.overlay.nextGroup }
    rw [hover]
    exact o.display_frame revision hbuffer
  · exact s.files_enact _
  · exact highlights_display hr hopen revision
  · rw [show (s.perform _).session.overlay = _ from hover]
    exact hgroup
  · exact ht.sound.mirrors.inOrder d
  · intro hlarge
    have hnone : t.overlay.group? d = none := by
      rw [hover, hgroup, o.rendered_of_large d revision hlarge]
      simp [hlarge, o]
    refine ⟨hnone, ?_⟩
    rw [ht.sound.mirrors.inOrder, hnone]
    rfl
  · exact fun hreplaces h hmem => marker?_of_replaced hr hopen revision hreplaces hmem
  · intro e hne
    have hkept : t.overlay.group? e = o.group? e := by
      rw [hover]
      exact o.group_display_of_ne revision hbuffer hne
    refine ⟨hkept, ?_, fun layer => ?_⟩
    · rw [ht.sound.mirrors.aliveFor_eq, hr.sound.mirrors.aliveFor_eq, hkept]
    · have hview := view_perform hr.sound.unmasked e (.display d revision)
      rw [if_neg (by simpa [Command.concerns, Command.document?] using hne)] at hview
      exact congrFun (congrArg DocumentView.highlights hview) layer

/-- Markers come and go, and none is lost. -/
theorem count_display :
    let o := s.overlay
    s.screen.markerCount + (o.marked d revision file.text file.inProject).length =
      (if o.replaces d revision file.text then o.handlesOf d else []).length +
        (s.perform (.display d revision)).session.screen.markerCount := by
  intro o
  have hbuffer := hr.buffer_of_open hopen
  have hcalls : (s.perform (.display d revision)).session.screen =
      s.screen.applyAll (o.display s.editor d revision).calls :=
    (s.perform_follows (.display d revision)).screen
  obtain ⟨hall, -⟩ := (o.change_display s.editor d revision).reflected hr.sound.mirrors
  have hlen := (Screen.perm_of_allowsAll hall).length_eq
  rw [List.length_append, List.length_append, o.added_display revision hbuffer,
    o.removed_display revision hbuffer, hr.inProject_eq hopen, MarkerGroup.length_handlesOf,
    ← hcalls] at hlen
  have hkeys (screen : Screen) : screen.byHandle.keys.length = screen.markerCount :=
    List.length_map _
  rwa [hkeys, hkeys] at hlen

end Open

theorem count_display_again (hr : Reachable s) (d : Path) (revision : Revision) :
    let shown := (s.perform (.display d revision)).session
    (shown.perform (.display d revision)).session.screen.markerCount =
      shown.screen.markerCount := by
  intro shown
  have hshown : Reachable shown := hr.perform _
  cases hopen : s.files.find? d with
  | none =>
    have hidle : shown = s := congrArg Step.session (display_of_closed hr hopen revision)
    rw [hidle, display_of_closed hr hopen]
  | some file =>
    have hbuffer := hr.buffer_of_open hopen
    have hover : shown.overlay = (s.overlay.display s.editor d revision).1 :=
      (s.perform_follows (.display d revision)).overlay
    have hstill : shown.files.find? d = some file :=
      (congrArg (·.find? d) (s.files_enact _)).trans hopen
    have hcount := count_display hshown hstill revision
    have hmarked : shown.overlay.marked d revision file.text file.inProject =
        s.overlay.marked d revision file.text file.inProject := by
      rw [hover, s.overlay.display_frame revision hbuffer]
      rfl
    have hgone := s.overlay.length_replaced_display revision hbuffer
    rw [hr.inProject_eq hopen, ← hover] at hgone
    dsimp only at hcount hgone
    rw [hmarked, hgone] at hcount
    omega

/-- Nothing happens to a document that is not open. Of one that is open, what its report says is
seen, and it stays: a second time everything is shown as it was, and nothing twice. -/
theorem display_refines (hr : Reachable s) (d : Path) (revision : Revision) :
    let step := s.perform (.display d revision)
    let shown := step.session
    let again := (shown.perform (.display d revision)).session
    (s.files.find? d = none → step = { session := s }) ∧
      (∀ file, s.files.find? d = some file → Renders s d file revision step) ∧
      (∀ e, AgreeOn e again shown) ∧
      again.screen.markerCount = shown.screen.markerCount ∧
      again.overlay.markerCount = shown.overlay.markerCount := by
  intro step shown again
  have hshown : Reachable shown := hr.perform _
  have hagain : Reachable again := hshown.perform _
  have hcount : again.screen.markerCount = shown.screen.markerCount :=
    count_display_again hr d revision
  refine ⟨fun hclosed => display_of_closed hr hclosed revision,
    fun file hopen => renders_display hr hopen revision, fun e => ?_, hcount, ?_⟩
  · apply agreeOn_of_view hagain hshown
    have hview : shown.view e =
        if (Command.display d revision).concerns e then (s.view e).display d revision
        else s.view e := view_perform hr.sound.unmasked e _
    refine (view_perform hshown.sound.unmasked e _).trans ?_
    rw [hview]
    split
    · exact (s.view e).display_display d revision
    · rfl
  · rw [← hagain.sound.mirrors.count, ← hshown.sound.mirrors.count]
    exact hcount

/-- One of two diagnostics lies behind the end of the text. -/
def overrun : Session := (start {}).run
  [.openFile ⟨"/a"⟩ (.ofString "abc") default,
    .publish ⟨"/a"⟩ [⟨⟨⟨0, 0⟩, ⟨0, 1⟩⟩, some .error, "m"⟩, ⟨⟨⟨7, 0⟩, ⟨7, 1⟩⟩, none, "n"⟩] none]

/-- It has a marker, but no highlight. -/
theorem display_refines_overrun :
    let step := overrun.perform (.display ⟨"/a"⟩ default)
    let again := (step.session.perform (.display ⟨"/a"⟩ default)).session
    Reachable overrun ∧ overrun.screen.markerCount = 2 ∧
      step.session.screen.highlights ⟨"/a"⟩ .codeWarnings = [⟨0, 1, .error, 0x04000001⟩] ∧
      (step.session.screen.markers ⟨"/a"⟩).length = 2 ∧
      overrun.screen.marker? ⟨1, 0⟩ ≠ none ∧ step.session.screen.marker? ⟨1, 0⟩ = none ∧
      AgreeOn ⟨"/a"⟩ again step.session ∧
      again.screen.markerCount = step.session.screen.markerCount ∧
      overrun.perform (.display ⟨"/b"⟩ default) = { session := overrun } := by
  have hr : Reachable overrun := (Reachable.start {}).run _
  have hopen : overrun.files.find? ⟨"/a"⟩ =
      some { text := .ofString "abc", revision := default } := by decide
  obtain ⟨-, hrenders, hsame, hcount, -⟩ := display_refines hr ⟨"/a"⟩ default
  obtain ⟨hclosed, -⟩ := display_refines hr ⟨"/b"⟩ default
  have hshown := hrenders _ hopen
  refine ⟨hr, by decide, ?_, ?_, by decide, ?_, hsame _, hcount, hclosed (by decide)⟩
  · rw [hshown.highlights]
    decide
  · rw [hshown.markers, hshown.group]
    decide
  · exact hshown.removed (by decide) _ (by decide)

/-- A document with a marker grows to 513 characters, which are more than a kilobyte. -/
example :
    let text : Text := ⟨List.replicate 513 'é'⟩
    let grown : Session := (start { sizeLimitKb := 1 }).run
      [.openFile ⟨"/a"⟩ (.ofString "abc") default,
        .publish ⟨"/a"⟩ [⟨⟨⟨0, 0⟩, ⟨0, 1⟩⟩, some .error, "m"⟩] none, .setText ⟨"/a"⟩ text]
    let shown := (grown.perform (.display ⟨"/a"⟩ default)).session
    (text.byteSize = 1026 ∧ grown.overlay.settings.allowsSize 1026 = false) ∧
      (grown.screen.markers ⟨"/a"⟩).length = 1 ∧ grown.screen.marker? ⟨1, 0⟩ ≠ none ∧
      shown.overlay.group? ⟨"/a"⟩ = none ∧ shown.screen.markers ⟨"/a"⟩ = [] ∧
      shown.screen.marker? ⟨1, 0⟩ = none := by decide +kernel

end Marginalia.Session
