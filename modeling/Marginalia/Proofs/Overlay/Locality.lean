import Marginalia.Proofs.Document.View
import Marginalia.Proofs.OpenFiles
import Marginalia.Proofs.Overlay.Display

/-! The operations of the overlay, seen from one document. An operation on another document leaves
the view as it is, one on this document changes it as the view alone says, and those on all
documents do to each view the same. -/
namespace Marginalia

theorem Screen.highlights_apply_of_marker (s : Screen) {call : ScreenCall}
    (h : call.isPaint = false) : (s.apply call).highlights = s.highlights := by
  cases call with
  | setHighlights d l hs => cases h
  | addMarker d k m => rfl
  | updateMarker d k m =>
    simp only [apply]
    split <;> rfl
  | removeMarker d k => rfl

theorem Screen.highlights_applyAll_of_markers (s : Screen) {calls : List ScreenCall}
    (h : ∀ call ∈ calls, call.isPaint = false) :
    (s.applyAll calls).highlights = s.highlights := by
  induction calls generalizing s with
  | nil => rfl
  | cons call rest ih =>
    have hrest := ih (s.apply call) fun x hx => h x (List.mem_cons_of_mem _ hx)
    exact hrest.trans (s.highlights_apply_of_marker (h call List.mem_cons_self))

theorem OpenFiles.buffer_editor (f : OpenFiles) (d : Path) :
    f.editor.buffer d = (f.find? d).map (·.text) := rfl

theorem OpenFiles.revision_editor (f : OpenFiles) (d : Path) :
    f.editor.revision d = (f.find? d).map (·.revision) := rfl

namespace Overlay

variable (screen : Screen) (files : OpenFiles) (d : Path)

/-- What an operation makes of the view, when its calls have reached the screen. -/
def Outcome.view (x : Outcome) : DocumentView := x.1.view (screen.applyAll x.calls) files d

theorem Outcome.view_andThen (x : Outcome) (f : Overlay → Outcome) :
    (x.andThen f).view screen files d = (f x.1).view (screen.applyAll x.calls) files d := by
  unfold Outcome.view
  rw [calls_andThen, Screen.applyAll_append]
  rfl

/-- An operation that only touches the groups. -/
theorem Outcome.view_of_groups {o : Overlay} {x : Outcome}
    (hrest : x.1 = { o with groups := x.1.groups, nextGroup := x.1.nextGroup })
    (hcalls : ∀ call ∈ x.calls, call.isPaint = false) :
    x.view screen files d =
      { o.view screen files d with group := (x.1.groups.find? d).map (·.unnumbered) } := by
  unfold Outcome.view Overlay.view
  rw [Screen.highlights_applyAll_of_markers screen hcalls, hrest]

theorem Outcome.view_of_silent (o : Overlay) {effects : List Effect}
    (h : Outcome.calls (o, effects) = []) :
    Outcome.view screen files d (o, effects) = o.view screen files d := by
  unfold Outcome.view
  rw [h]
  rfl

theorem view_discard (o : Overlay) (e : Path) :
    (o.discard e).view screen files d =
      if d ≈ e then (o.view screen files d).bare else o.view screen files d := by
  have hcalls : ∀ call ∈ (o.discard e).calls, call.isPaint = false := by
    intro call hcall
    obtain ⟨k, rfl⟩ := mem_calls_discard hcall
    rfl
  rw [Outcome.view_of_groups screen files d (o := o) _ hcalls, find?_discard]
  · split <;> rfl
  · rw [nextGroup_discard]
    exact discard_fst o e

theorem view_add (o : Overlay) (e : Path) (markers : List Marker) :
    (o.add e markers).view screen files d =
      if d ≈ e then { o.view screen files d with group := some { number := 0, markers } }
      else o.view screen files d := by
  have hcalls : ∀ call ∈ (o.add e markers).calls, call.isPaint = false := by
    intro call hcall
    rw [calls_add] at hcall
    obtain ⟨entry, _, rfl⟩ := List.mem_map.mp hcall
    rfl
  rw [Outcome.view_of_groups screen files d (o := o) rfl hcalls, find?_add]
  split <;> rfl

theorem view_install (o : Overlay) (e : Path) (markers : List Marker) :
    (o.install e markers).view screen files d =
      if d ≈ e then
        { o.view screen files d with
          group := if markers = [] then none else some { number := 0, markers } }
      else o.view screen files d := by
  rw [install_eq, Outcome.view_andThen]
  have hdiscard := view_discard screen files d o e
  cases markers with
  | nil => exact hdiscard
  | cons m ms =>
    change ((o.discard e).1.add e (m :: ms)).view _ files d = _
    rw [view_add, show (o.discard e).1.view _ files d = _ from hdiscard]
    by_cases h : d ≈ e
    · rw [if_pos h, if_pos h, if_pos h]
      rfl
    · rw [if_neg h, if_neg h, if_neg h]

theorem view_disable (o : Overlay) (e : Path) :
    (o.disable e).view screen files d =
      if d ≈ e then
        let v := o.view screen files d
        { v with group := v.group.map (·.disable v.theme) }
      else o.view screen files d := by
  have hcalls : ∀ call ∈ (o.disable e).calls, call.isPaint = false := by
    obtain ⟨us, hus⟩ := exists_calls_disable o e
    rw [hus]
    intro call hcall
    obtain ⟨u, _, rfl⟩ := List.mem_map.mp hcall
    rfl
  have hrest : (o.disable e).1 = { o with groups := (o.disable e).1.groups } := o.disable_fst e
  rw [Outcome.view_of_groups screen files d (o := o) (by rwa [nextGroup_disable]) hcalls,
    find?_disable]
  split
  · unfold view
    simp only [Option.map_map]
    congr 2
    funext g
    exact g.unnumbered_disable o.theme
  · rfl

theorem view_restyle (o : Overlay) (theme : Theme) :
    (o.restyle theme).view screen files d =
      let v := o.view screen files d
      { v with theme, group := v.group.map (·.restyle theme) } := by
  have hcalls : ∀ call ∈ (o.restyle theme).calls, call.isPaint = false := by
    rw [calls_restyle]
    intro call hcall
    obtain ⟨u, _, rfl⟩ := List.mem_map.mp hcall
    rfl
  unfold Outcome.view view
  rw [Screen.highlights_applyAll_of_markers screen hcalls, find?_restyle, Option.map_map]
  simp only [Option.map_map]
  rfl

theorem view_draw (o : Overlay) (e : Path) (hs : List Highlight) {effects : List Effect}
    (hcalls : Outcome.calls (o, effects) = [.setHighlights e o.layer hs]) :
    Outcome.view screen files d (o, effects) =
      if d ≈ e then (o.view screen files d).draw hs else o.view screen files d := by
  have hdrawn : ∀ layer, (screen.apply (.setHighlights e o.layer hs)).highlights d layer = _ :=
    fun layer => screen.highlights_setHighlights e d o.layer layer hs
  unfold Outcome.view
  rw [hcalls, Screen.applyAll_cons, Screen.applyAll_nil]
  split
  · rename_i h
    simp only [h, true_and] at hdrawn
    unfold view DocumentView.draw
    congr 1
    funext layer
    exact hdrawn layer
  · rename_i h
    simp only [h, false_and, if_false] at hdrawn
    unfold view
    congr 1
    funext layer
    exact hdrawn layer

theorem view_clearLayer (o : Overlay) (e : Path) :
    Outcome.view screen files d (o, clearLayer files.editor o.layer e) =
      if d ≈ e then (o.view screen files d).wipe else o.view screen files d := by
  unfold clearLayer
  rw [OpenFiles.buffer_editor, Option.isSome_map]
  by_cases hopen : (files.find? e).isSome = true
  · rw [if_pos hopen, view_draw screen files d o e [] rfl]
    split
    · rename_i h
      unfold DocumentView.wipe
      rw [if_pos]
      rwa [← files.find?_congr h] at hopen
    · rfl
  · rw [if_neg hopen, Outcome.view_of_silent screen files d o rfl]
    split
    · rename_i h
      unfold DocumentView.wipe
      rw [if_neg]
      rwa [← files.find?_congr h] at hopen
    · rfl

theorem view_hide (o : Overlay) (e : Path) :
    (o.hide files.editor e).view screen files d =
      if d ≈ e then (o.view screen files d).hide else o.view screen files d := by
  unfold hide
  rw [Outcome.view_andThen, view_discard]
  have hwipe := view_clearLayer screen files d o e
  rw [show o.view _ files d = _ from hwipe]
  by_cases h : d ≈ e
  · rw [if_pos h, if_pos h, if_pos h]
    rfl
  · rw [if_neg h, if_neg h, if_neg h]

theorem view_report (o : Overlay) (e : Path) (ds : List Diagnostic) (revision : Option Revision) :
    (o.report files.editor e ds revision).view screen files d =
      if d ≈ e then (o.view screen files d).take e ds revision else o.view screen files d := by
  let shown := screen.applyAll (o.hide files.editor e).calls
  have hhide : (o.hide files.editor e).1.view shown files d = _ := view_hide screen files d o e
  have hreport : ∀ p : Overlay, Outcome.view shown files d
      ({ p with reports := p.reports.replace e ⟨revision, p.filter e ds⟩ },
        [.log (.stored e revision (p.filter e ds).length)]) =
      { p.view shown files d with
        report := if d ≈ e then some ⟨revision, p.filter e ds⟩ else p.reports.find? d } := by
    intro p
    rw [← Reports.find?_replace]
    rfl
  unfold report
  rw [Outcome.view_andThen, hreport]
  by_cases h : d ≈ e
  · have hfilter : (o.hide files.editor e).1.filter = o.filter := by
      change (o.discard e).1.filter = o.filter
      rw [discard_fst]
    rw [hhide, if_pos h, if_pos h, if_pos h, hfilter]
    rfl
  · rw [if_neg h, if_neg h, ← (hhide.trans (if_neg h))]
    rfl

theorem view_placeMarkers (o : Overlay) (e : Path) (file : OpenFile) (seen : Rendering) :
    (o.placeMarkers e file.text seen).view screen files d =
      if d ≈ e then
        let v := o.view screen files d
        { v with group := v.placed file seen }
      else o.view screen files d := by
  have hsettings : (o.view screen files d).settings = o.settings := rfl
  unfold placeMarkers DocumentView.placed
  dsimp only
  rw [hsettings]
  split
  · exact view_install screen files d o e seen.markers
  · split
    · exact (ite_self _).symm
    · exact view_discard screen files d o e

theorem rendering_of_open (o : Overlay) {e : Path} {file : OpenFile}
    (hopen : files.find? e = some file) (h : d ≈ e) (revision : Revision) :
    (o.rendering files.editor e file.text revision).1 =
      (o.view screen files d).rendering e file revision := by
  have hproject : files.editor.inProject e = file.inProject := by
    simp [OpenFiles.editor, OpenFiles.inProject, hopen]
  have hreport : (o.view screen files d).report = o.reports.find? e := o.reports.find?_congr h
  unfold DocumentView.rendering
  rw [hreport]
  cases hr : o.reports.find? e with
  | none => simp [rendering, hr]
  | some r =>
    rw [rendering_fst hr, hproject]
    rfl

theorem view_display (o : Overlay) (e : Path) (revision : Revision) :
    (o.display files.editor e revision).view screen files d =
      if d ≈ e then (o.view screen files d).display e revision else o.view screen files d := by
  cases hopen : files.find? e with
  | none =>
    have hhidden : files.editor.buffer e = none := by
      rw [OpenFiles.buffer_editor, hopen, Option.map_none]
    rw [display_of_hidden hhidden, Outcome.view_of_silent screen files d o rfl]
    split
    · rename_i h
      have hfile : (o.view screen files d).file = none := (files.find?_congr h).trans hopen
      simp [DocumentView.display, hfile]
    · rfl
  | some file =>
    have hbuffer : files.editor.buffer e = some file.text := by
      rw [OpenFiles.buffer_editor, hopen, Option.map_some]
    let rendered := o.rendering files.editor e file.text revision
    let seen := rendered.1
    let placed := o.placeMarkers e file.text seen
    have hplaced : placed.1.view _ files d = _ := view_placeMarkers screen files d o e file seen
    have hdisplay : (o.display files.editor e revision).view screen files d =
        if d ≈ e then (placed.1.view (screen.applyAll placed.calls) files d).draw seen.highlights
        else placed.1.view (screen.applyAll placed.calls) files d := by
      unfold display
      rw [hbuffer]
      dsimp only
      rw [Outcome.view_andThen, Outcome.calls_of_log, Screen.applyAll_nil, Outcome.view_andThen]
      exact view_draw _ files d placed.1 e seen.highlights (Outcome.calls_of_paint ..)
    rw [hdisplay, hplaced]
    by_cases h : d ≈ e
    · have hfile : (o.view screen files d).file = some file := (files.find?_congr h).trans hopen
      rw [if_pos h, if_pos h, if_pos h, DocumentView.display_of_open _ hfile,
        ← rendering_of_open screen files d o hopen h revision]
      rfl
    · rw [if_neg h, if_neg h, if_neg h]

theorem view_publish (o : Overlay) (e : Path) (ds : List Diagnostic) (revision : Option Revision) :
    (o.publish files.editor e ds revision).view screen files d =
      if d ≈ e then (o.view screen files d).publish e ds revision else o.view screen files d := by
  have hreport := view_report screen files d o e ds revision
  cases hopen : files.find? e with
  | none =>
    have hunknown : files.editor.revision e = none := by
      rw [OpenFiles.revision_editor, hopen, Option.map_none]
    obtain ⟨hover, hcalls⟩ := publish_of_unknown hunknown o ds revision
    have hsame : (o.publish files.editor e ds revision).view screen files d =
        (o.report files.editor e ds revision).view screen files d := by
      unfold Outcome.view
      rw [hover, hcalls]
    rw [hsame, hreport]
    split
    · rename_i h
      have hfile : (o.view screen files d).file = none := (files.find?_congr h).trans hopen
      simp [DocumentView.publish, hfile]
    · rfl
  | some file =>
    have hlive : files.editor.revision e = some file.revision := by
      rw [OpenFiles.revision_editor, hopen, Option.map_some]
    rw [publish_of_known hlive, Outcome.view_andThen, view_display,
      show (o.report files.editor e ds revision).1.view _ files d = _ from hreport]
    by_cases h : d ≈ e
    · have hfile : (o.view screen files d).file = some file := (files.find?_congr h).trans hopen
      rw [if_pos h, if_pos h, if_pos h]
      unfold DocumentView.publish
      rw [hfile]
    · rw [if_neg h, if_neg h, if_neg h]

/-- Operations that do the same to each document, for one document after the other. Once is enough
for those that are named twice. -/
theorem view_forEach (o : Overlay) {ds : List Path} {named : Bool}
    (hnamed : (∃ e ∈ ds, d ≈ e) ↔ named = true) {f : Overlay → Path → Outcome}
    {g : DocumentView → DocumentView}
    (hf : ∀ screen o e, (f o e).view screen files d =
      if d ≈ e then g (o.view screen files d) else o.view screen files d)
    (hg : ∀ v, g (g v) = g v) :
    (o.forEach ds f).view screen files d =
      if named then g (o.view screen files d) else o.view screen files d := by
  have hfold : ∀ x : Outcome,
      Outcome.view screen files d (ds.foldl (fun x e => x.andThen (f · e)) x) =
        if ∃ e ∈ ds, d ≈ e then g (x.view screen files d) else x.view screen files d := by
    clear hnamed
    induction ds with
    | nil => simp
    | cons e ds ih =>
      intro x
      have hstep : (x.andThen (f · e)).view screen files d =
          if d ≈ e then g (x.view screen files d) else x.view screen files d :=
        (Outcome.view_andThen screen files d x (f · e)).trans (hf _ x.1 e)
      rw [List.foldl_cons, ih, hstep]
      by_cases he : d ≈ e <;>
        simp only [List.mem_cons, exists_eq_or_imp, he, true_or, false_or, if_true, if_false, hg,
          ite_self]
  refine (hfold (o, [])).trans ?_
  by_cases h : ∃ e ∈ ds, d ≈ e
  · rw [if_pos h, if_pos (hnamed.mp h)]
    rfl
  · rw [if_neg h, if_neg (mt hnamed.mpr h)]
    rfl

/-- To clear a layer of many documents is to clear it for one after the other. -/
theorem forEach_clearLayer (o : Overlay) (editor : Editor) (ds : List Path) :
    (o.forEach ds fun o e => (o, clearLayer editor o.layer e)) =
      (o, ds.flatMap (clearLayer editor o.layer)) := by
  have hfold : ∀ before : List Effect,
      ds.foldl (fun x e => Outcome.andThen x fun o => (o, clearLayer editor o.layer e))
        (o, before) = (o, before ++ ds.flatMap (clearLayer editor o.layer)) := by
    induction ds with
    | nil => simp
    | cons e ds ih =>
      intro before
      rw [List.foldl_cons, List.flatMap_cons, ← List.append_assoc]
      exact ih _
  exact hfold []

theorem view_setLayer (o : Overlay) (layer : Layer) :
    (o.setLayer files.editor layer).view screen files d =
      (o.view screen files d).setLayer layer := by
  have hwipe := view_forEach screen files d o (o.reports.exists_document_iff d)
    (fun screen o e => view_clearLayer screen files d o e) DocumentView.wipe_wipe
  rw [forEach_clearLayer] at hwipe
  unfold setLayer DocumentView.setLayer
  by_cases hsame : layer = o.layer
  · rw [if_pos hsame, Outcome.view_of_silent screen files d o rfl]
    exact (if_pos hsame).symm
  · have hlayer : (o.view screen files d).layer = o.layer := rfl
    have hreport : (o.view screen files d).report = o.reports.find? d := rfl
    rw [if_neg hsame, hlayer, if_neg hsame, hreport, ← hwipe]
    cases hempty : o.reports.isEmpty with
    | true =>
      have hnone : o.reports.documents = [] :=
        congrArg (List.map Prod.fst) ((SortedMap.isEmpty_iff _).mp hempty)
      rw [hnone]
      rfl
    | false => rfl

theorem view_clear (o : Overlay) :
    (o.clear files.editor).view screen files d = (o.view screen files d).clear := by
  let hidden := o.forEach o.reports.documents fun o e => o.hide files.editor e
  have hhide : hidden.view screen files d = _ :=
    view_forEach screen files d o (o.reports.exists_document_iff d)
      (fun screen o e => view_hide screen files d o e) DocumentView.hide_hide
  let forgotten : Overlay := { hidden.1 with reports := {} }
  let shown := screen.applyAll hidden.calls
  have hforgotten : forgotten.view shown files d =
      { hidden.view screen files d with report := none } := rfl
  have hgone : (o.view screen files d).clear = (forgotten.view shown files d).bare := by
    rw [hforgotten, hhide]
    rfl
  unfold clear
  rw [Outcome.view_andThen, hgone]
  change Outcome.view shown files d (if forgotten.groups.isEmpty then (forgotten, []) else _) = _
  split
  · rename_i hempty
    have hnone : forgotten.groups.find? d = none :=
      (SortedMap.entries_eq_nil_iff _).mp ((SortedMap.isEmpty_iff _).mp hempty) d
    rw [Outcome.view_of_silent shown files d forgotten rfl]
    unfold view
    rw [hnone]
    rfl
  · have hkeys : (∃ e ∈ forgotten.groups.keys, d ≈ e) ↔
        (forgotten.groups.find? d).isSome = true := forgotten.groups.exists_key_iff d
    rw [Outcome.view_andThen]
    refine (view_forEach shown files d forgotten hkeys
      (fun screen o e => view_discard screen files d o e) fun _ => rfl).trans ?_
    split
    · rfl
    · rename_i hnone
      rw [Bool.not_eq_true, Option.isSome_eq_false_iff, Option.isNone_iff_eq_none] at hnone
      unfold view
      rw [hnone]
      rfl

end Overlay

end Marginalia
