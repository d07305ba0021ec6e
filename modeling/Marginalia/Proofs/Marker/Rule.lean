import Mathlib.Data.List.Forall2
import Marginalia.Marker.Rule

/-! The markers that a rule makes, against the diagnostics that it makes them of. Colours and the
names of icons come from a theme and change with it, so a relation between the two can only last if
it does not depend on them (`MarkerRule.Makes`). -/
namespace Marginalia

/-- A relation that holds between the markers of a rule and the diagnostics that they are made of,
and that greying out and another theme leave alone. -/
structure MarkerRule.Makes (rule : MarkerRule) (P : List Marker → List Diagnostic → Prop) :
    Prop where
  made : ∀ setting ds, ds.filterMap (rule setting) ≠ [] → P (ds.filterMap (rule setting)) ds
  recolored : ∀ {ms ds} slot theme, P ms ds → P (ms.map (·.recolor slot theme)) ds
  restyled : ∀ {ms ds} theme, P ms ds → P (ms.map (·.restyle theme)) ds

/-- There are markers, and not more of them than diagnostics. -/
theorem MarkerRule.makes_some (rule : MarkerRule) :
    rule.Makes fun ms ds => ms ≠ [] ∧ ms.length ≤ ds.length where
  made setting ds hsome := ⟨hsome, List.length_filterMap_le _ _⟩
  recolored slot theme h := by simpa using h
  restyled theme h := by simpa using h

namespace Marker

/-- What a marker of the standard rule tells of its diagnostic, whatever the theme. -/
structure Describes (client : Client) (m : Marker) (x : Diagnostic) : Prop where
  line : m.line = x.span.start.line + 1
  tooltip : m.tooltip = x.message
  annotation : m.annotation = some x.message
  severity : m.severity = x.severity.getD .hint
  priority : m.priority = .high ↔ x.severity = some .error
  icon : m.icon = .error ↔ x.severity = some .error
  client : m.client = client
  actions : m.actions = [.copy x.message]

theorem describes_standard (client : Client) (setting : Setting) (x : Diagnostic) :
    ((ofDiagnostic x client setting.theme).withAction (.copy x.message)).Describes client x where
  line := rfl
  tooltip := rfl
  annotation := rfl
  severity := rfl
  priority := by
    unfold withAction ofDiagnostic
    rcases x.severity with _ | _ | _ | _ | _ <;> simp [Severity.isError]
  icon := by
    unfold withAction ofDiagnostic
    rcases x.severity with _ | _ | _ | _ | _ <;> simp [Severity.isError]
  client := rfl
  actions := rfl

variable {client : Client} {m : Marker} {x : Diagnostic}

theorem Describes.recolor (h : m.Describes client x) (slot : Slot) (theme : Theme) :
    (m.recolor slot theme).Describes client x :=
  ⟨h.line, h.tooltip, h.annotation, h.severity, h.priority, h.icon, h.client, h.actions⟩

theorem Describes.restyle (h : m.Describes client x) (theme : Theme) :
    (m.restyle theme).Describes client x :=
  ⟨h.line, h.tooltip, h.annotation, h.severity, h.priority, h.icon, h.client, h.actions⟩

theorem Describes.trigger (h : m.Describes client x) (index : Nat) (clipboard : Option String) :
    m.trigger index clipboard =
      if index = 0 then (true, some x.message) else (false, clipboard) := by
  unfold Marker.trigger
  rw [h.actions]
  cases index <;> rfl

end Marker

theorem MarkerRule.makes_described (client : Client) :
    (standard client).Makes (List.Forall₂ (Marker.Describes client)) where
  made setting ds _ := by
    have hmap : ds.filterMap (standard client setting) = ds.map fun x =>
        (Marker.ofDiagnostic x client setting.theme).withAction (.copy x.message) :=
      congrFun List.filterMap_eq_map ds
    rw [hmap, List.forall₂_map_left_iff, List.forall₂_same]
    exact fun x _ => Marker.describes_standard client setting x
  recolored slot theme h := by
    rw [List.forall₂_map_left_iff]
    exact h.imp fun m x hm => hm.recolor slot theme
  restyled theme h := by
    rw [List.forall₂_map_left_iff]
    exact h.imp fun m x hm => hm.restyle theme

theorem MarkerRule.makes_client (client : Client) :
    (standard client).Makes fun ms _ => ∀ m ∈ ms, m.client = client where
  made setting ds _ m hm := by
    obtain ⟨x, -, rfl⟩ := List.mem_map.mp (congrFun List.filterMap_eq_map ds ▸ hm)
    rfl
  recolored slot theme h := List.forall_mem_map.mpr h
  restyled theme h := List.forall_mem_map.mpr h

end Marginalia
