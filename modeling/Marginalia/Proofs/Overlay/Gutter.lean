import Marginalia.Proofs.Marker.Rule
import Marginalia.Proofs.Overlay.LifeCycle
import Marginalia.Proofs.Overlay.Locality

/-! Markers never outlive the report that they were made of. Groups and reports are kept apart and are
replaced by different operations, but there is a report behind every group at all times, whatever
the editor shows (`Linked.handleAll`). A clearing that hides the documents of all reports therefore
leaves no group (`Linked.clear_eq`). -/
namespace Marginalia

namespace Overlay

/-- The markers of every group stand in a relation to the report of their document, and so will
those that the rule makes. -/
structure Linked (P : List Marker → List Diagnostic → Prop) (o : Overlay) : Prop where
  makes : o.rule.Makes P
  linked : ∀ {d : Path} {g : MarkerGroup}, o.groups.find? d = some g →
    ∃ r, o.reports.find? d = some r ∧ P g.markers r.diagnostics

variable {P : List Marker → List Diagnostic → Prop} {o o' : Overlay} {d e : Path}

theorem Linked.start {settings : Settings} (h : (MarkerRule.standard settings.client).Makes P) :
    Linked P (start settings) where
  makes := h
  linked hg := by cases hg

/-- Some groups go, and the reports behind the others stay. -/
theorem Linked.of_kept (ho : Linked P o) (hrule : o'.rule = o.rule)
    (hkept : ∀ {e : Path} {g : MarkerGroup}, o'.groups.find? e = some g →
      o.groups.find? e = some g ∧ o'.reports.find? e = o.reports.find? e) : Linked P o' where
  makes := hrule ▸ ho.makes
  linked hg := by
    obtain ⟨hold, hreport⟩ := hkept hg
    rw [hreport]
    exact ho.linked hold

theorem find?_of_discard {g : MarkerGroup} (hg : (o.discard d).1.groups.find? e = some g) :
    ¬e ≈ d ∧ o.groups.find? e = some g := by
  rw [find?_discard] at hg
  split at hg
  · cases hg
  · rename_i hne
    exact ⟨hne, hg⟩

theorem Linked.discard (ho : Linked P o) (d : Path) : Linked P (o.discard d).1 := by
  rw [discard_fst]
  exact ho.of_kept rfl fun hg => ⟨(find?_of_discard hg).2, rfl⟩

theorem Linked.report (ho : Linked P o) (editor : Editor) (d : Path) (ds : List Diagnostic)
    (revision : Option Revision) : Linked P (o.report editor d ds revision).1 := by
  rw [report_fst]
  refine ho.of_kept rfl fun hg => ?_
  obtain ⟨hne, hold⟩ := find?_of_discard hg
  exact ⟨hold, (Reports.find?_replace ..).trans (if_neg hne)⟩

theorem Linked.install (ho : Linked P o) {markers : List Marker}
    (hnew : markers ≠ [] → ∃ r, o.reports.find? d = some r ∧ P markers r.diagnostics) :
    Linked P (o.install d markers).1 := by
  have hdiscard := ho.discard d
  rw [install_eq]
  cases markers with
  | nil => exact hdiscard
  | cons m ms =>
    refine ⟨hdiscard.makes, fun {e g} hg => ?_⟩
    change ((o.discard d).1.add d (m :: ms)).1.groups.find? e = some g at hg
    change ∃ r, (o.discard d).1.reports.find? e = some r ∧ _
    rw [find?_add] at hg
    split at hg
    · rename_i he
      cases hg
      rw [reports_discard, o.reports.find?_congr he]
      exact hnew (List.cons_ne_nil m ms)
    · exact hdiscard.linked hg

/-- What applies is made of the report by the rule. -/
theorem markers_of_applied {editor : Editor} {text : Text} {revision : Revision}
    (h : (o.rendering editor d text revision).1.applied = true) :
    ∃ r setting, o.reports.find? d = some r ∧
      (o.rendering editor d text revision).1.markers =
        r.diagnostics.filterMap (o.rule setting) := by
  cases hr : o.reports.find? d with
  | none =>
    unfold rendering at h
    rw [hr] at h
    cases h
  | some r =>
    rw [rendering_fst hr] at h ⊢
    split at h
    · rename_i hsize
      by_cases hfits : r.fits revision = true ∧ r.diagnostics ≠ []
      · rw [if_pos hsize]
        exact ⟨r, _, rfl, (Report.render_of_fits text _ o.rule hfits.1 hfits.2).2.1⟩
      · rw [Report.render_of_not _ _ _ hfits] at h
        cases h
    · cases h

theorem Linked.display (ho : Linked P o) (editor : Editor) (d : Path) (revision : Revision) :
    Linked P (o.display editor d revision).1 := by
  cases hbuffer : editor.buffer d with
  | none => rwa [display_of_hidden hbuffer]
  | some text =>
    rw [display_fst hbuffer]
    unfold placeMarkers
    split
    · rename_i happlied
      obtain ⟨r, setting, hr, hmarkers⟩ := markers_of_applied happlied
      rw [hmarkers]
      exact ho.install fun hsome => ⟨r, hr, ho.makes.made setting r.diagnostics hsome⟩
    · split
      · exact ho
      · exact ho.discard d

theorem Linked.publish (ho : Linked P o) (editor : Editor) (d : Path) (ds : List Diagnostic)
    (revision : Option Revision) : Linked P (o.publish editor d ds revision).1 := by
  have hreport := ho.report editor d ds revision
  cases hlive : editor.revision d with
  | none => rwa [(publish_of_unknown hlive o ds revision).1]
  | some live =>
    rw [publish_of_known hlive]
    exact hreport.display editor d live

theorem Linked.disable (ho : Linked P o) (d : Path) : Linked P (o.disable d).1 := by
  rw [disable_fst]
  refine ⟨ho.makes, fun {e g} hg => ?_⟩
  change (o.disable d).1.groups.find? e = some g at hg
  rw [find?_disable] at hg
  split at hg
  · obtain ⟨k, hk, rfl⟩ := Option.map_eq_some_iff.mp hg
    obtain ⟨r, hr, hp⟩ := ho.linked hk
    refine ⟨r, hr, ?_⟩
    unfold MarkerGroup.disable
    split
    · exact ho.makes.recolored .disabled o.theme hp
    · exact hp
  · exact ho.linked hg

theorem Linked.restyle (ho : Linked P o) (theme : Theme) : Linked P (o.restyle theme).1 := by
  refine ⟨ho.makes, fun hg => ?_⟩
  rw [find?_restyle] at hg
  obtain ⟨k, hk, rfl⟩ := Option.map_eq_some_iff.mp hg
  obtain ⟨r, hr, hp⟩ := ho.linked hk
  exact ⟨r, hr, ho.makes.restyled theme hp⟩

theorem Linked.setLayer (ho : Linked P o) (editor : Editor) (layer : Layer) :
    Linked P (o.setLayer editor layer).1 := by
  unfold Overlay.setLayer
  split
  · exact ho
  · exact ⟨ho.makes, ho.linked⟩

theorem Linked.hideEach (ho : Linked P o) (editor : Editor) (ds : List Path) :
    Linked P (o.forEach ds fun o d => o.hide editor d).1 := by
  have hkeeps : Composes fun o x => Linked P o → Linked P x.1 :=
    ⟨fun _ h => h, fun first second h => second (first h)⟩
  exact hkeeps.forEach (f := fun o d => o.hide editor d) (fun _ d h => h.discard d) o ds ho

/-- To hide what has a report is to hide everything. -/
theorem Linked.clear_eq (ho : Linked P o) (editor : Editor) :
    let hidden := o.forEach o.reports.documents fun o d => o.hide editor d
    o.clear editor = ({ hidden.1 with reports := {} }, hidden.2) := by
  intro hidden
  have hnone : ∀ d, hidden.1.groups.find? d = none := by
    intro d
    have hafter : hidden.1.groups.find? d = _ :=
      find?_forEach o o.reports.documents (f := fun o d => o.hide editor d) find?_discard d
    rw [hafter]
    split
    · rfl
    · rename_i hother
      apply Option.eq_none_iff_forall_ne_some.mpr
      intro g hg
      obtain ⟨r, hr, -⟩ := ho.linked hg
      exact hother ((o.reports.exists_document_iff d).mpr (Option.isSome_of_eq_some hr))
  have hempty : hidden.1.groups.isEmpty = true :=
    (SortedMap.isEmpty_iff _).mpr ((SortedMap.entries_eq_nil_iff _).mpr hnone)
  unfold clear Outcome.andThen
  dsimp only
  rw [if_pos hempty, List.append_nil]

theorem Linked.clear (ho : Linked P o) (editor : Editor) : Linked P (o.clear editor).1 where
  makes := by
    rw [ho.clear_eq editor]
    exact (ho.hideEach editor o.reports.documents).makes
  linked hg := by
    rw [find?_clear] at hg
    cases hg

theorem draw_of_mem_hide (o : Overlay) (editor : Editor) (d : Path) :
    ∀ effect ∈ (o.hide editor d).2, ∃ call, effect = .draw call := by
  intro effect hmem
  rcases List.mem_append.mp hmem with hclear | hdiscard
  · unfold clearLayer at hclear
    split at hclear
    · exact ⟨_, List.mem_singleton.mp hclear⟩
    · cases hclear
  · change effect ∈ (o.discard d).2 at hdiscard
    unfold discard at hdiscard
    split at hdiscard
    · cases hdiscard
    · obtain ⟨entry, -, rfl⟩ := List.mem_map.mp hdiscard
      exact ⟨_, rfl⟩

theorem draw_of_mem_hideEach (o : Overlay) (editor : Editor) (ds : List Path) :
    ∀ effect ∈ (o.forEach ds fun o d => o.hide editor d).2, ∃ call, effect = .draw call :=
  (composes_effects _).forEach (fun o d => draw_of_mem_hide o editor d) o ds

theorem Linked.respond (ho : Linked P o) (editor : Editor) (command : Command) :
    Linked P (o.respond editor command).1 := by
  cases command with
  | report d ds revision => exact ho.report editor d ds revision
  | publish d ds revision => exact ho.publish editor d ds revision
  | display d revision => exact ho.display editor d revision
  | hide d => exact ho.discard d
  | clear => exact ho.clear editor
  | disable d => exact ho.disable d
  | restyle theme => exact ho.restyle theme
  | setLayer layer => exact ho.setLayer editor layer
  | _ => exact ho

theorem Linked.handleAll (ho : Linked P o) {events : List Event}
    (hrules : ∀ theme rule filter, .equip theme rule filter ∈ events → rule.Makes P) :
    Linked P (o.handleAll events).1 := by
  induction events generalizing o with
  | nil => exact ho
  | cons event rest ih =>
    refine ih ?_ fun theme rule filter hmem => hrules theme rule filter (.tail _ hmem)
    cases event with
    | equip theme rule filter => exact ⟨hrules theme rule filter (.head _), ho.linked⟩
    | command editor command => exact ho.respond editor command

/-- The host leaves the standard rule in its place. -/
def Plain (settings : Settings) (events : List Event) : Prop :=
  ∀ theme rule filter, .equip theme rule filter ∈ events → rule = .standard settings.client

end Overlay

namespace Session

variable {s : Session}

theorem trigger_of_described {client : Client} {d : Path} {g : MarkerGroup}
    (hg : s.overlay.group? d = some g) {ds : List Diagnostic}
    (hdescribed : List.Forall₂ (Marker.Describes client) g.markers ds) (index action : Nat) :
    s.trigger d index action =
      match ds[index]? with
      | none => (s, none)
      | some x =>
        if action = 0 then ({ s with clipboard := some x.message }, some true)
        else (s, some false) := by
  unfold trigger
  rw [hg, Option.bind_some]
  cases hx : ds[index]? with
  | none =>
    have hm : g.markers[index]? = none := by
      rw [List.getElem?_eq_none_iff] at hx ⊢
      rwa [hdescribed.length_eq]
    rw [hm]
  | some x =>
    obtain ⟨hindex, rfl⟩ := List.getElem?_eq_some_iff.mp hx
    have hlt : index < g.markers.length := hdescribed.length_eq ▸ hindex
    have hm : g.markers[index]? = some g.markers[index] := List.getElem?_eq_getElem hlt
    have hpair : g.markers[index].Describes client ds[index] := hdescribed.get hlt hindex
    rw [hm]
    dsimp only
    rw [hpair.trigger]
    split <;> rfl

end Session

/-- Every group has a report to tell of, and by the standard rule its markers tell of one diagnostic
each. So a clearing never meets markers that were left. -/
theorem Overlay.markers_describe_reports (settings : Settings) (events : List Event) :
    let o := ((start settings).handleAll events).1
    (∀ d g, o.group? d = some g → ∃ report, o.reports.find? d = some report ∧
      0 < g.size ∧ g.size ≤ report.diagnostics.length ∧
      (Plain settings events →
        List.Forall₂ (Marker.Describes settings.client) g.markers report.diagnostics ∧
        ∀ s : Session, s.overlay = o → ∀ index action, s.trigger d index action =
          match report.diagnostics[index]? with
          | none => (s, none)
          | some x =>
            if action = 0 then ({ s with clipboard := some x.message }, some true)
            else (s, some false))) ∧
    ∀ editor count, .log (.leftovers count) ∉ (o.clear editor).2 := by
  intro o
  have hlinked : Linked (fun ms ds => ms ≠ [] ∧ ms.length ≤ ds.length) o :=
    (Linked.start (MarkerRule.makes_some _)).handleAll fun _ rule _ _ => rule.makes_some
  refine ⟨fun d g hg => ?_, fun editor count hlog => ?_⟩
  · obtain ⟨report, hreport, hsome, hlength⟩ := hlinked.linked hg
    refine ⟨report, hreport, List.length_pos_iff.mpr hsome, hlength, fun hplain => ?_⟩
    have hmakes := MarkerRule.makes_described settings.client
    have hall : Linked (List.Forall₂ (Marker.Describes settings.client)) o :=
      (Linked.start hmakes).handleAll fun theme rule filter hmem =>
        hplain theme rule filter hmem ▸ hmakes
    obtain ⟨own, hown, hdescribed⟩ := hall.linked hg
    rw [hreport] at hown
    cases hown
    exact ⟨hdescribed, fun s hs => s.trigger_of_described (hs ▸ hg) hdescribed⟩
  · rw [hlinked.clear_eq editor] at hlog
    obtain ⟨call, hcall⟩ := draw_of_mem_hideEach o editor _ _ hlog
    cases hcall

namespace Session

/-- Commands are no matter of the rule. -/
theorem plain_events (s : Session) (settings : Settings) (commands : List Command) :
    Overlay.Plain settings (s.events commands) := by
  intro theme rule filter hmem
  induction commands generalizing s with
  | nil => cases hmem
  | cons command rest ih =>
    rcases List.mem_cons.mp hmem with hfirst | hrest
    · cases hfirst
    · exact ih _ hrest

/-- The marker of the one error, over a text that was edited since. -/
theorem markers_describe_reports_edited :
    (∃ g, edited.overlay.group? ⟨"/a"⟩ = some g ∧
      List.Forall₂ (Marker.Describes ({} : Settings).client) g.markers
        [⟨⟨⟨0, 0⟩, ⟨0, 1⟩⟩, some .error, "m"⟩]) ∧
      edited.trigger ⟨"/a"⟩ 0 0 = ({ edited with clipboard := some "m" }, some true) ∧
      edited.trigger ⟨"/a"⟩ 0 1 = (edited, some false) := by
  let commands : List Command :=
    [.openFile ⟨"/a"⟩ (.ofString "abc") ⟨1, by decide, by decide⟩,
      .publish ⟨"/a"⟩ [⟨⟨⟨0, 0⟩, ⟨0, 1⟩⟩, some .error, "m"⟩] (some ⟨1, by decide, by decide⟩),
      .insert ⟨"/a"⟩ 0 (.ofString "x")]
  have hrun : edited.overlay =
      ((Overlay.start {}).handleAll ((start {}).events commands)).1 :=
    ((start {}).run_follows commands).1
  have hgroups := (Overlay.markers_describe_reports {} ((start {}).events commands)).1
  rw [← hrun] at hgroups
  obtain ⟨g, hg⟩ : ∃ g, edited.overlay.group? ⟨"/a"⟩ = some g :=
    Option.isSome_iff_exists.mp (by decide)
  obtain ⟨report, hreport, -, -, hplain⟩ := hgroups ⟨"/a"⟩ g hg
  rw [reports_edited] at hreport
  cases hreport
  obtain ⟨hdescribed, htrigger⟩ := hplain (plain_events _ _ commands)
  exact ⟨⟨g, hg, hdescribed⟩, htrigger edited rfl 0 0, htrigger edited rfl 0 1⟩

end Session

end Marginalia
