import Marginalia.Proofs.Document.View

/-! How the markers of a document look. A marker keeps the colour and the name of its icon, and three
operations write them: the standard rule, greying out and another theme. Whatever their order is, they
leave what the current theme says of a marker in a group of that state (`coherent_act`). -/
namespace Marginalia

/-- A marker looks as a theme has it, in a group that is enabled or not. -/
structure Marker.Suits (m : Marker) (theme : Theme) (enabled : Bool) : Prop where
  color : m.color = theme.color m.slot
  iconName : m.iconName = theme.iconName m.icon
  disabled : m.slot = .disabled ↔ enabled = false
  error : m.slot = .error ↔ enabled = true ∧ m.severity = .error
  warning : m.slot = .warning ↔ enabled = true ∧ m.severity ≠ .error

namespace Marker

theorem suits_standard (client : Client) (theme : Theme) (x : Diagnostic) :
    ((ofDiagnostic x client theme).withAction (.copy x.message)).Suits theme true := by
  unfold withAction ofDiagnostic
  constructor
  · rfl
  · rfl
  all_goals rcases x.severity with _ | _ | _ | _ | _ <;> simp [Severity.isError]

variable {m : Marker} {theme : Theme} {enabled : Bool}

theorem Suits.grey (h : m.Suits theme true) : (m.recolor .disabled theme).Suits theme false where
  color := rfl
  iconName := h.iconName
  disabled := by simp [recolor]
  error := by simp [recolor]
  warning := by simp [recolor]

theorem Suits.restyle (h : m.Suits theme enabled) (next : Theme) :
    (m.restyle next).Suits next enabled :=
  ⟨rfl, rfl, h.disabled, h.error, h.warning⟩

end Marker

namespace MarkerGroup

variable {g : MarkerGroup} {theme : Theme}

def Suits (g : MarkerGroup) (theme : Theme) : Prop := ∀ m ∈ g.markers, m.Suits theme g.enabled

theorem Suits.disable (h : g.Suits theme) : (g.disable theme).Suits theme := by
  unfold MarkerGroup.disable
  split
  · rename_i hon
    intro m hm
    obtain ⟨k, hk, rfl⟩ := List.mem_map.mp hm
    have hsuits := h k hk
    rw [hon] at hsuits
    exact hsuits.grey
  · exact h

theorem Suits.restyle (h : g.Suits theme) (next : Theme) : (g.restyle next).Suits next := by
  intro m hm
  obtain ⟨k, hk, rfl⟩ := List.mem_map.mp hm
  exact (h k hk).restyle next

end MarkerGroup

theorem MarkerRule.suits_of_mem {client : Client} {setting : Setting} {ds : List Diagnostic}
    {m : Marker} (h : m ∈ ds.filterMap (standard client setting)) : m.Suits setting.theme true := by
  obtain ⟨x, -, hx⟩ := List.mem_filterMap.mp h
  rw [← Option.some.inj hx]
  exact Marker.suits_standard client setting.theme x

namespace DocumentView

/-- Markers are made by the standard rule, and those that are there look as the theme has them. -/
structure Coherent (v : DocumentView) (client : Client) : Prop where
  rule : v.rule = .standard client
  suits : ∀ {g : MarkerGroup}, v.group = some g → g.Suits v.theme

variable {v : DocumentView} {client : Client}

theorem coherent_of_bare (hrule : v.rule = .standard client) (hgroup : v.group = none) :
    v.Coherent client where
  rule := hrule
  suits hg := by
    rw [hgroup] at hg
    cases hg

theorem Coherent.wipe (hv : v.Coherent client) : v.wipe.Coherent client := by
  rw [wipe_eq]
  exact ⟨hv.rule, hv.suits⟩

theorem Coherent.take (hv : v.Coherent client) (document : Path) (ds : List Diagnostic)
    (revision : Option Revision) : (v.take document ds revision).Coherent client :=
  coherent_of_bare hv.wipe.rule rfl

theorem Coherent.suits_of_rendered (hv : v.Coherent client) {document : Path} {file : OpenFile}
    {revision : Revision} {m : Marker} (h : m ∈ (v.rendering document file revision).markers) :
    m.Suits v.theme true := by
  unfold rendering at h
  rw [hv.rule] at h
  split at h
  · cases h
  · split at h
    · unfold Report.render at h
      split at h
      · exact MarkerRule.suits_of_mem h
      · cases h
    · cases h

theorem Coherent.display (hv : v.Coherent client) (document : Path) (revision : Revision) :
    (v.display document revision).Coherent client := by
  cases hfile : v.file with
  | none =>
    unfold DocumentView.display
    rwa [hfile]
  | some file =>
    rw [v.display_of_open hfile]
    refine ⟨hv.rule, fun {g} hg => ?_⟩
    change v.placed file (v.rendering document file revision) = some g at hg
    unfold placed at hg
    split at hg
    · split at hg
      · cases hg
      · rw [← Option.some.inj hg]
        exact fun m hm => hv.suits_of_rendered hm
    · split at hg
      · exact hv.suits hg
      · cases hg

theorem Coherent.clear (hv : v.Coherent client) : v.clear.Coherent client := by
  refine coherent_of_bare ?_ rfl
  unfold DocumentView.clear
  split
  · exact hv.wipe.rule
  · exact hv.rule

theorem Coherent.setLayer (hv : v.Coherent client) (layer : Layer) :
    (v.setLayer layer).Coherent client := by
  unfold DocumentView.setLayer
  split
  · exact hv
  · split
    · exact ⟨hv.wipe.rule, hv.wipe.suits⟩
    · exact ⟨hv.rule, hv.suits⟩

theorem coherent_act (hv : v.Coherent client) (command : Command) :
    (v.act command).Coherent client := by
  cases command with
  | report document ds revision => exact hv.take document ds revision
  | publish document ds revision =>
    change (v.publish document ds revision).Coherent client
    unfold publish
    split
    · exact hv.take document ds revision
    · exact (hv.take document ds revision).display document _
  | display document revision => exact hv.display document revision
  | hide document => exact coherent_of_bare hv.wipe.rule rfl
  | clear => exact hv.clear
  | disable document =>
    refine ⟨hv.rule, fun hg => ?_⟩
    obtain ⟨k, hk, rfl⟩ := Option.map_eq_some_iff.mp hg
    exact (hv.suits hk).disable
  | restyle theme =>
    refine ⟨hv.rule, fun hg => ?_⟩
    obtain ⟨k, hk, rfl⟩ := Option.map_eq_some_iff.mp hg
    exact (hv.suits hk).restyle theme
  | setLayer layer => exact hv.setLayer layer
  | _ => exact ⟨hv.rule, hv.suits⟩

end DocumentView

end Marginalia
