import Marginalia.Proofs.Overlay.Display
import Marginalia.Proofs.Overlay.Numbering

/-! New markers and what is told of them. Most operations neither add a marker nor announce one
(`Outcome.Idle`). Displaying a report announces what it added, once and after everything else
(`Announces`). -/
namespace Marginalia

def Effect.isAnnouncement : Effect → Bool
  | announce _ _ => true
  | _ => false

/-- An effect that neither adds a marker nor announces one. -/
def Effect.Idle : Effect → Prop
  | draw call => call.added? = none
  | announce _ _ => False
  | log _ => True

theorem Effect.Idle.isAnnouncement {effect : Effect} (h : effect.Idle) :
    effect.isAnnouncement = false := by
  cases effect with
  | announce d count => exact h.elim
  | _ => rfl

namespace Overlay

def Outcome.Idle (x : Outcome) : Prop := ∀ effect ∈ x.2, effect.Idle

/-- An operation tells of the markers that it adds for a document, last of all, and just if there are
any. They are then all that the document has. -/
structure Announces (d : Path) (x : Outcome) : Prop where
  effects : ∃ before : List Effect, (∀ effect ∈ before, effect.isAnnouncement = false) ∧
    x.2 = before ++
      if Screen.added x.calls = [] then [] else [.announce d (Screen.added x.calls).length]
  group : Screen.added x.calls ≠ [] →
    ∃ g, x.1.groups.find? d = some g ∧ g.size = (Screen.added x.calls).length

variable {o : Overlay} {editor : Editor} {d : Path}

theorem Outcome.Idle.nil (o : Overlay) : Outcome.Idle (o, []) := List.forall_mem_nil _

theorem Outcome.Idle.andThen {x : Outcome} {f : Overlay → Outcome} (hx : x.Idle)
    (hf : (f x.1).Idle) : (x.andThen f).Idle :=
  List.forall_mem_append.mpr ⟨hx, hf⟩

theorem Outcome.Idle.added {x : Outcome} (hx : x.Idle) : Screen.added x.calls = [] := by
  apply List.filterMap_eq_nil_iff.mpr
  intro call hcall
  obtain ⟨effect, heffect, hdraw⟩ := List.mem_filterMap.mp hcall
  have hidle := hx effect heffect
  cases effect with
  | draw sent =>
    cases hdraw
    exact hidle
  | announce e count => cases hdraw
  | log record => cases hdraw

theorem idle_clearLayer (editor : Editor) (layer : Layer) (d : Path) :
    ∀ effect ∈ clearLayer editor layer d, effect.Idle := by
  unfold clearLayer
  split <;> simp [Effect.Idle, ScreenCall.added?]

theorem idle_discard (o : Overlay) (d : Path) : (o.discard d).Idle := by
  unfold discard
  split
  · exact .nil o
  · exact List.forall_mem_map.mpr fun _ _ => rfl

theorem idle_hide (o : Overlay) (editor : Editor) (d : Path) : (o.hide editor d).Idle :=
  .andThen (idle_clearLayer editor o.layer d) (idle_discard _ d)

theorem idle_report (o : Overlay) (editor : Editor) (d : Path) (ds : List Diagnostic)
    (revision : Option Revision) : (o.report editor d ds revision).Idle := by
  apply Outcome.Idle.andThen (idle_hide o editor d)
  simp [Outcome.Idle, Effect.Idle]

theorem idle_clear (o : Overlay) (editor : Editor) : (o.clear editor).Idle :=
  (composes_effects Effect.Idle).clear (fun o d => idle_hide o editor d)
    (fun _ _ => List.forall_mem_map.mpr fun _ _ => trivial) idle_discard o

theorem idle_disable (o : Overlay) (d : Path) : (o.disable d).Idle := by
  unfold disable
  split
  · exact .nil o
  · split
    · exact List.forall_mem_map.mpr fun _ _ => rfl
    · exact .nil o

theorem idle_restyle (o : Overlay) (theme : Theme) : (o.restyle theme).Idle := by
  intro effect heffect
  obtain ⟨e, -, he⟩ := List.mem_flatMap.mp heffect
  obtain ⟨entry, -, rfl⟩ := List.mem_map.mp he
  rfl

theorem idle_setLayer (o : Overlay) (editor : Editor) (layer : Layer) :
    (o.setLayer editor layer).Idle := by
  unfold setLayer
  split
  · exact .nil o
  · intro effect heffect
    dsimp only at heffect
    split at heffect
    · cases heffect
    · rcases List.mem_cons.mp heffect with rfl | heffect
      · trivial
      · obtain ⟨e, -, he⟩ := List.mem_flatMap.mp heffect
        exact idle_clearLayer editor o.layer e effect he

/-- What adds nothing can come first. -/
theorem Announces.after {x : Outcome} {f : Overlay → Outcome} (hx : x.Idle)
    (hf : Announces d (f x.1)) : Announces d (x.andThen f) := by
  have hadded : Screen.added (x.andThen f).calls = Screen.added (f x.1).calls := by
    rw [Outcome.calls_andThen, Screen.added_append, hx.added, List.nil_append]
  obtain ⟨before, hquiet, heffects⟩ := hf.effects
  constructor
  · refine ⟨x.2 ++ before, ?_, ?_⟩
    · exact List.forall_mem_append.mpr ⟨fun effect h => (hx effect h).isAnnouncement, hquiet⟩
    · rw [hadded, List.append_assoc, ← heffects]
      rfl
  · rw [hadded]
    exact hf.group

theorem Announces.of_idle {x : Outcome} (hx : x.Idle) : Announces d x where
  effects := ⟨x.2, fun effect h => (hx effect h).isAnnouncement, by simp [hx.added]⟩
  group := fun h => absurd hx.added h

theorem added_install (o : Overlay) (d : Path) (markers : List Marker) :
    Screen.added (o.install d markers).calls =
      MarkerGroup.handlesOf o.nextGroup markers.length := by
  rw [install_eq, Outcome.calls_andThen, Screen.added_append, (idle_discard o d).added]
  cases markers with
  | nil => rfl
  | cons m ms =>
    change Screen.added ((o.discard d).1.add d (m :: ms)).calls = _
    rw [added_add, nextGroup_discard]

/-- Bringing markers in line adds them all or none. -/
theorem added_placeMarkers (o : Overlay) (d : Path) (text : Text) (seen : Rendering) :
    Screen.added (o.placeMarkers d text seen).calls =
      if seen.applied then MarkerGroup.handlesOf o.nextGroup seen.markers.length else [] := by
  unfold placeMarkers
  split
  · exact added_install o d seen.markers
  · split
    · rfl
    · exact (idle_discard o d).added

theorem quiet_placeMarkers (o : Overlay) (d : Path) (text : Text) (seen : Rendering) :
    ∀ effect ∈ (o.placeMarkers d text seen).2, effect.isAnnouncement = false := by
  have hdiscard : ∀ effect ∈ (o.discard d).2, effect.isAnnouncement = false :=
    fun effect h => (idle_discard o d effect h).isAnnouncement
  unfold placeMarkers
  split
  · rw [install_eq]
    refine List.forall_mem_append.mpr ⟨hdiscard, ?_⟩
    split
    · exact List.forall_mem_nil _
    · exact List.forall_mem_map.mpr fun _ _ => rfl
  · split
    · exact List.forall_mem_nil _
    · exact hdiscard

theorem announces_display (o : Overlay) (editor : Editor) (d : Path) (revision : Revision) :
    Announces d (o.display editor d revision) := by
  cases hbuffer : editor.buffer d with
  | none =>
    rw [display_of_hidden hbuffer]
    exact .of_idle (.nil o)
  | some text =>
    let rendered := o.rendering editor d text revision
    let seen := rendered.1
    let placed := o.placeMarkers d text seen
    have hadded : Screen.added (o.display editor d revision).calls =
        if seen.applied then MarkerGroup.handlesOf o.nextGroup seen.markers.length else [] := by
      rw [calls_display hbuffer, Screen.added_append, added_placeMarkers]
      exact List.append_nil _
    -- The announcement counts what was rendered; both ways of counting agree.
    have hlast : (if seen.applied && !seen.markers.isEmpty then
          [Effect.announce d seen.markers.length] else []) =
        if Screen.added (o.display editor d revision).calls = [] then []
        else [.announce d (Screen.added (o.display editor d revision).calls).length] := by
      rw [hadded]
      cases seen.applied <;> cases seen.markers <;> simp [MarkerGroup.handlesOf, List.range_succ]
    constructor
    · refine ⟨rendered.2.map .log ++ (placed.2 ++ [.draw (.setHighlights d placed.1.layer
        seen.highlights)]), ?_, ?_⟩
      · simp only [List.forall_mem_append]
        refine ⟨?_, quiet_placeMarkers o d text seen, ?_⟩ <;> simp [Effect.isAnnouncement]
      · rw [← hlast]
        simp [display, hbuffer, Outcome.andThen, rendered, seen, placed]
    · intro hsome
      rw [hadded] at hsome ⊢
      have happlied : seen.applied = true := Decidable.byContradiction fun h => hsome (if_neg h)
      rw [if_pos happlied] at hsome ⊢
      have hmarkers : seen.markers ≠ [] := fun h => hsome (by rw [h]; rfl)
      refine ⟨{ number := o.nextGroup, markers := seen.markers }, ?_, ?_⟩
      · rw [display_fst hbuffer, find?_placeMarkers, if_pos happlied, if_neg hmarkers]
      · exact (MarkerGroup.length_handlesOf _ _).symm

theorem announces_publish (o : Overlay) (editor : Editor) (d : Path) (ds : List Diagnostic)
    (revision : Option Revision) : Announces d (o.publish editor d ds revision) := by
  unfold publish
  apply Announces.after (idle_report o editor d ds revision)
  split
  · exact announces_display _ editor d _
  · exact .of_idle (.nil _)

end Overlay

end Marginalia
