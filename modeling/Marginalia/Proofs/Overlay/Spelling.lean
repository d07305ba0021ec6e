import Marginalia.Proofs.Overlay.Change
import Marginalia.Proofs.SortedMap.Alike

/-! Two overlays to which the same is done, under different spellings of the documents. What the one
answers differs from what the other answers in spelling only (`alike_respond`). -/
namespace Marginalia

/-- Calls that differ in the spelling of their document at most. -/
inductive ScreenCall.Alike : ScreenCall → ScreenCall → Prop
  | setHighlights {d e : Path} (h : d ≈ e) (layer : Layer) (hs : List Highlight) :
    Alike (.setHighlights d layer hs) (.setHighlights e layer hs)
  | addMarker {d e : Path} (h : d ≈ e) (k : Handle) (m : Marker) :
    Alike (.addMarker d k m) (.addMarker e k m)
  | updateMarker {d e : Path} (h : d ≈ e) (k : Handle) (m : Marker) :
    Alike (.updateMarker d k m) (.updateMarker e k m)
  | removeMarker {d e : Path} (h : d ≈ e) (k : Handle) :
    Alike (.removeMarker d k) (.removeMarker e k)

inductive LogRecord.Alike : LogRecord → LogRecord → Prop
  | stored {d e : Path} (h : d ≈ e) (revision : Option Revision) (count : Nat) :
    Alike (.stored d revision count) (.stored e revision count)
  | unresolved {d e : Path} (h : d ≈ e) (line : Nat) :
    Alike (.unresolved d line) (.unresolved e line)
  | stale {d e : Path} (h : d ≈ e) (own : Option Revision) (revision : Revision) :
    Alike (.stale d own revision) (.stale e own revision)
  | oversized {d e : Path} (h : d ≈ e) (bytes : Nat) :
    Alike (.oversized d bytes) (.oversized e bytes)
  | layerChanged (old new : Layer) : Alike (.layerChanged old new) (.layerChanged old new)
  | leftovers (documents : Nat) : Alike (.leftovers documents) (.leftovers documents)

inductive Effect.Alike : Effect → Effect → Prop
  | draw {call sent : ScreenCall} (h : call.Alike sent) : Alike (.draw call) (.draw sent)
  | announce {d e : Path} (h : d ≈ e) (count : Nat) :
    Alike (.announce d count) (.announce e count)
  | log {record told : LogRecord} (h : record.Alike told) : Alike (.log record) (.log told)

namespace Screen

theorem Place.compare_mk {d e : Path} (hde : d ≈ e) (layer : Layer) :
    compare (Place.mk d layer) (Place.mk e layer) = .eq :=
  Place.compare_eq_iff.mpr ⟨hde, rfl⟩

/-- Screens that differ in the spelling of their documents at most. -/
structure Alike (s t : Screen) : Prop where
  byPlace : s.byPlace.Alike Eq t.byPlace
  byHandle : s.byHandle.Alike (fun x y => x.1 ≈ y.1 ∧ x.2 = y.2) t.byHandle
  highlightUpdates : s.highlightUpdates = t.highlightUpdates

variable {s t : Screen}

theorem alike_apply (h : s.Alike t) {call other : ScreenCall} (hcall : call.Alike other) :
    (s.apply call).Alike (t.apply other) := by
  have hsame : ∀ k : Handle, compare k k = .eq := fun _ => Std.ReflCmp.compare_self
  cases hcall with
  | setHighlights hde layer hs =>
    exact { h with
      byPlace := h.byPlace.insert (Place.compare_mk hde layer) rfl
      highlightUpdates := congrArg (· + 1) h.highlightUpdates }
  | addMarker hde k m =>
    exact { h with byHandle := h.byHandle.insert (hsame k) ⟨hde, rfl⟩ }
  | updateMarker hde k m =>
    unfold apply
    dsimp only
    rw [h.byHandle.contains_eq (hsame k)]
    split
    · exact { h with byHandle := h.byHandle.insert (hsame k) ⟨hde, rfl⟩ }
    · exact h
  | removeMarker hde k => exact { h with byHandle := h.byHandle.erase (hsame k) }

theorem Alike.highlights_eq (h : s.Alike t) {d e : Path} (hde : d ≈ e) (layer : Layer) :
    s.highlights d layer = t.highlights e layer := by
  unfold highlights
  rw [h.byPlace.find?_eq (Place.compare_mk hde layer)]

theorem Alike.marker?_eq (h : s.Alike t) (k : Handle) : s.marker? k = t.marker? k := by
  have hk := h.byHandle.find? (j := k) (k := k) Std.ReflCmp.compare_self
  unfold marker?
  generalize s.byHandle.find? k = x, t.byHandle.find? k = y at hk
  cases hk with
  | none => rfl
  | some hxy => exact congrArg some hxy.2

theorem Alike.markers_eq (h : s.Alike t) {d e : Path} (hde : d ≈ e) :
    s.markers d = t.markers e := by
  have hfilter := List.rel_filter (p := fun x => decide (x.1 ≈ d)) (q := fun x => decide (x.1 ≈ e))
    (fun x y hxy => by
      simp only [decide_eq_true_eq]
      exact ⟨fun hx => Setoid.trans (Setoid.symm hxy.1) (Setoid.trans hx hde),
        fun hy => Setoid.trans hxy.1 (Setoid.trans hy (Setoid.symm hde))⟩) h.byHandle.values
  rw [← List.forall₂_eq_eq_eq]
  exact List.rel_map (fun _ _ hxy => hxy.2) hfilter

end Screen

/-- Editors that show the same, whatever the documents are called. -/
structure Editor.Alike (editor other : Editor) : Prop where
  buffer : ∀ {d e : Path}, d ≈ e → editor.buffer d = other.buffer e
  revision : ∀ {d e : Path}, d ≈ e → editor.revision d = other.revision e
  inProject : ∀ {d e : Path}, d ≈ e → editor.inProject d = other.inProject e

namespace Overlay

/-- Overlays that differ in the spelling of their documents at most, and whose parts do not look at
it. -/
structure Alike (o p : Overlay) : Prop where
  settings : o.settings = p.settings
  layer : o.layer = p.layer
  theme : o.theme = p.theme
  rule : ∀ {d e : Path}, d ≈ e → ∀ inProject theme,
    o.rule ⟨d, inProject, theme⟩ = p.rule ⟨e, inProject, theme⟩
  filter : ∀ {d e : Path}, d ≈ e → o.filter d = p.filter e
  reports : o.reports.byDocument.Alike Eq p.reports.byDocument
  groups : o.groups.Alike Eq p.groups
  nextGroup : o.nextGroup = p.nextGroup

/-- Outcomes of operations that differ in the spelling of documents at most. -/
structure Outcome.Alike (x y : Outcome) : Prop where
  overlay : x.1.Alike y.1
  effects : List.Forall₂ Effect.Alike x.2 y.2

variable {o p : Overlay} {editor other : Editor} {d e : Path}

theorem Outcome.Alike.andThen {x y : Outcome} {f g : Overlay → Outcome} (h : x.Alike y)
    (hf : ∀ o p, o.Alike p → (f o).Alike (g p)) : (x.andThen f).Alike (y.andThen g) :=
  ⟨(hf _ _ h.overlay).overlay, List.rel_append h.effects (hf _ _ h.overlay).effects⟩

theorem Alike.silent (h : o.Alike p) : Outcome.Alike (o, []) (p, []) := ⟨h, .nil⟩

theorem Alike.find?_eq (h : o.Alike p) (hde : d ≈ e) : o.groups.find? d = p.groups.find? e :=
  h.groups.find?_eq (Path.compare_eq_iff.mpr hde)

/-- The markers of a group, told to the screen one by one under two spellings of its document. -/
theorem forall₂_entries (g : MarkerGroup) {f : Path → Handle × Marker → ScreenCall}
    (hf : ∀ entry, (f d entry).Alike (f e entry)) :
    List.Forall₂ Effect.Alike (g.entries.map fun entry => .draw (f d entry))
      (g.entries.map fun entry => .draw (f e entry)) := by
  rw [List.forall₂_map_left_iff, List.forall₂_map_right_iff, List.forall₂_same]
  exact fun entry _ => .draw (hf entry)

theorem alike_discard (h : o.Alike p) (hde : d ≈ e) : (o.discard d).Alike (p.discard e) := by
  unfold discard
  rw [h.find?_eq hde]
  split
  · exact h.silent
  · constructor
    · exact { h with groups := h.groups.erase (Path.compare_eq_iff.mpr hde) }
    · exact forall₂_entries (f := fun d entry => .removeMarker d entry.1) _ fun _ =>
        .removeMarker hde _

theorem alike_install (h : o.Alike p) (hde : d ≈ e) (markers : List Marker) :
    (o.install d markers).Alike (p.install e markers) := by
  apply (alike_discard h hde).andThen
  intro o p h
  split
  · exact h.silent
  · rw [h.nextGroup]
    constructor
    · exact { h with
        groups := h.groups.insert (Path.compare_eq_iff.mpr hde) rfl
        nextGroup := rfl }
    · exact forall₂_entries (f := fun d entry => .addMarker d entry.1 entry.2) _ fun _ =>
        .addMarker hde _ _

theorem alike_clearLayer (he : editor.Alike other) (layer : Layer) (hde : d ≈ e) :
    List.Forall₂ Effect.Alike (clearLayer editor layer d) (clearLayer other layer e) := by
  unfold clearLayer
  rw [he.buffer hde]
  split
  · exact .cons (.draw (.setHighlights hde _ _)) .nil
  · exact .nil

theorem alike_hide (h : o.Alike p) (he : editor.Alike other) (hde : d ≈ e) :
    (o.hide editor d).Alike (p.hide other e) := by
  unfold hide
  rw [h.layer]
  exact Outcome.Alike.andThen ⟨h, alike_clearLayer he _ hde⟩ fun _ _ h => alike_discard h hde

theorem alike_report (h : o.Alike p) (he : editor.Alike other) (hde : d ≈ e)
    (ds : List Diagnostic) (revision : Option Revision) :
    (o.report editor d ds revision).Alike (p.report other e ds revision) := by
  apply (alike_hide h he hde).andThen
  intro o p h
  rw [h.filter hde]
  constructor
  · exact { h with reports := h.reports.insert (Path.compare_eq_iff.mpr hde) rfl }
  · exact .cons (.log (.stored hde _ _)) .nil

/-- The same is to be seen of a document, and the same to be told. -/
theorem alike_rendering (h : o.Alike p) (he : editor.Alike other) (hde : d ≈ e) (text : Text)
    (revision : Revision) :
    (o.rendering editor d text revision).1 = (p.rendering other e text revision).1 ∧
      List.Forall₂ LogRecord.Alike (o.rendering editor d text revision).2
        (p.rendering other e text revision).2 := by
  have hreport : o.reports.find? d = p.reports.find? e :=
    h.reports.find?_eq (Path.compare_eq_iff.mpr hde)
  have hrule : o.rule ⟨d, editor.inProject d, o.theme⟩ =
      p.rule ⟨e, other.inProject e, p.theme⟩ := by
    rw [he.inProject hde, h.theme]
    exact h.rule hde _ _
  have hrender : ∀ report : Report,
      report.render revision text ⟨d, editor.inProject d, o.theme⟩ o.rule =
        report.render revision text ⟨e, other.inProject e, p.theme⟩ p.rule := by
    intro report
    unfold Report.render
    rw [hrule, h.theme]
  unfold rendering
  rw [hreport, h.settings]
  split
  · exact ⟨rfl, .nil⟩
  · rename_i report _
    split
    · dsimp only
      rw [hrender report]
      refine ⟨rfl, List.rel_append ?_ ?_⟩
      · rw [List.forall₂_map_left_iff, List.forall₂_map_right_iff, List.forall₂_same]
        exact fun _ _ => .unresolved hde _
      · split
        · exact .cons (.stale hde _ _) .nil
        · exact .nil
    · exact ⟨rfl, .cons (.oversized hde _) .nil⟩

theorem alike_placeMarkers (h : o.Alike p) (hde : d ≈ e) (text : Text) (seen : Rendering) :
    (o.placeMarkers d text seen).Alike (p.placeMarkers e text seen) := by
  unfold placeMarkers
  rw [h.settings]
  split
  · exact alike_install h hde seen.markers
  · split
    · exact h.silent
    · exact alike_discard h hde

theorem alike_display (h : o.Alike p) (he : editor.Alike other) (hde : d ≈ e)
    (revision : Revision) : (o.display editor d revision).Alike (p.display other e revision) := by
  unfold display
  rw [he.buffer hde]
  split
  · exact h.silent
  · rename_i text _
    obtain ⟨hseen, htold⟩ := alike_rendering h he hde text revision
    dsimp only
    rw [hseen]
    apply Outcome.Alike.andThen ⟨h, List.rel_map (fun _ _ => .log) htold⟩
    intro o p h
    apply (alike_placeMarkers h hde text _).andThen
    intro o p h
    rw [h.layer]
    refine ⟨h, .cons (.draw (.setHighlights hde _ _)) ?_⟩
    split
    · exact .cons (.announce hde _) .nil
    · exact .nil

theorem alike_publish (h : o.Alike p) (he : editor.Alike other) (hde : d ≈ e)
    (ds : List Diagnostic) (revision : Option Revision) :
    (o.publish editor d ds revision).Alike (p.publish other e ds revision) := by
  apply (alike_report h he hde ds revision).andThen
  intro o p h
  rw [he.revision hde]
  split
  · exact alike_display h he hde _
  · exact h.silent

theorem alike_forEach (h : o.Alike p) {ds es : List Path}
    (hds : List.Forall₂ (fun d e => compare d e = .eq) ds es) {f g : Overlay → Path → Outcome}
    (hf : ∀ o p, o.Alike p → ∀ d e, d ≈ e → (f o d).Alike (g p e)) :
    (o.forEach ds f).Alike (p.forEach es g) :=
  List.rel_foldl (fun _ _ hx _ _ hde => hx.andThen fun o p h =>
    hf o p h _ _ (Path.compare_eq_iff.mp hde)) h.silent hds

theorem alike_clear (h : o.Alike p) (he : editor.Alike other) :
    (o.clear editor).Alike (p.clear other) := by
  apply (alike_forEach h h.reports.keys fun _ _ h _ _ hde => alike_hide h he hde).andThen
  intro o p h
  have hforgotten : Alike { o with reports := {} } { p with reports := {} } :=
    { h with reports := .empty }
  dsimp only
  rw [h.groups.isEmpty_eq]
  split
  · exact hforgotten.silent
  · rw [h.groups.size_eq]
    -- Leftovers are told in the order of the keys, and that does not depend on their spelling.
    apply Outcome.Alike.andThen ⟨hforgotten, .cons (.log (.leftovers _)) .nil⟩
    exact fun _ _ h => alike_forEach h h.groups.keys fun _ _ h _ _ => alike_discard h

theorem alike_disable (h : o.Alike p) (hde : d ≈ e) : (o.disable d).Alike (p.disable e) := by
  unfold disable
  rw [h.find?_eq hde, h.theme]
  split
  · exact h.silent
  · split
    · constructor
      · exact { h with
          theme := rfl
          groups := h.groups.insert (Path.compare_eq_iff.mpr hde) rfl }
      · exact forall₂_entries (f := fun d entry => .updateMarker d entry.1 entry.2) _ fun _ =>
          .updateMarker hde _ _
    · exact h.silent

theorem alike_restyle (h : o.Alike p) (theme : Theme) :
    (o.restyle theme).Alike (p.restyle theme) := by
  have hgroups : (o.groups.map (·.restyle theme)).Alike Eq (p.groups.map (·.restyle theme)) :=
    h.groups.map fun _ _ heq => congrArg (·.restyle theme) heq
  constructor
  · exact { h with theme := rfl, groups := hgroups }
  · refine List.rel_flatMap hgroups fun a b hab => ?_
    dsimp only
    rw [hab.2]
    exact forall₂_entries (f := fun d entry => .updateMarker d entry.1 entry.2) _ fun _ =>
      .updateMarker (Path.compare_eq_iff.mp hab.1) _ _

theorem alike_setLayer (h : o.Alike p) (he : editor.Alike other) (layer : Layer) :
    (o.setLayer editor layer).Alike (p.setLayer other layer) := by
  have hreports : o.reports.isEmpty = p.reports.isEmpty := h.reports.isEmpty_eq
  unfold setLayer
  rw [h.layer, hreports]
  split
  · exact h.silent
  · constructor
    · exact { h with layer := rfl }
    · dsimp only
      split
      · exact .nil
      · refine .cons (.log (.layerChanged _ _)) (List.rel_flatMap h.reports.keys ?_)
        exact fun d e hde => alike_clearLayer he _ (Path.compare_eq_iff.mp hde)

end Overlay

end Marginalia
