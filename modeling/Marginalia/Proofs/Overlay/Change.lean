import Marginalia.Overlay.Query
import Marginalia.Proofs.Screen

/-! What an operation of the overlay can do to markers. Everything that any of them does is put
together from five changes (`Overlay.Change`), so that what these keep is kept by all of them. -/
namespace Marginalia

/-- What an effect tells the screen. -/
def Effect.call? : Effect → Option ScreenCall
  | .draw call => some call
  | _ => none

namespace Overlay

/-- The calls to the screen among the effects of an operation, in order. -/
def Outcome.calls (x : Outcome) : List ScreenCall := x.2.filterMap Effect.call?

theorem Outcome.calls_andThen (x : Outcome) (f : Overlay → Outcome) :
    (x.andThen f).calls = x.calls ++ (f x.1).calls :=
  List.filterMap_append

theorem Outcome.calls_of_draw {α : Type} {o : Overlay} (f : α → ScreenCall) (xs : List α) :
    Outcome.calls (o, xs.map fun x => .draw (f x)) = xs.map f := by
  unfold Outcome.calls
  rw [List.filterMap_map]
  exact congrFun List.filterMap_eq_map xs

/-- The logs of an operation are not for the screen. -/
theorem Outcome.calls_of_log (o : Overlay) (records : List LogRecord) :
    Outcome.calls (o, records.map .log) = [] := by
  unfold Outcome.calls
  rw [List.filterMap_map, List.filterMap_eq_nil_iff]
  exact fun _ _ => rfl

/-- An announcement after the highlights is not for the screen. -/
theorem Outcome.calls_of_paint (o : Overlay) (d e : Path) (layer : Layer) (hs : List Highlight)
    (announced : Prop) [Decidable announced] (count : Nat) :
    Outcome.calls (o, .draw (.setHighlights d layer hs) ::
      if announced then [.announce e count] else []) = [.setHighlights d layer hs] := by
  split <;> rfl

/-- What holds of an operation that does nothing, and of two if it holds of the one and then of the
other. -/
structure Composes (P : Overlay → Outcome → Prop) : Prop where
  silent : ∀ o, P o (o, [])
  andThen : ∀ {o : Overlay} {x : Outcome} {f : Overlay → Outcome},
    P o x → P x.1 (f x.1) → P o (x.andThen f)

theorem composes_effects (Q : Effect → Prop) : Composes fun _ x => ∀ effect ∈ x.2, Q effect where
  silent _ := List.forall_mem_nil _
  andThen first second := List.forall_mem_append.mpr ⟨first, second⟩

section Composes

variable {P : Overlay → Outcome → Prop} (hP : Composes P)
include hP

theorem Composes.forEach {f : Overlay → Path → Outcome} (hf : ∀ o d, P o (f o d)) (o : Overlay)
    (ds : List Path) : P o (o.forEach ds f) := by
  have hfold : ∀ x, P o x → P o (ds.foldl (fun x d => x.andThen (f · d)) x) := by
    induction ds with
    | nil => exact fun x hx => hx
    | cons d ds ih => exact fun x hx => ih _ (hP.andThen hx (hf x.1 d))
  exact hfold (o, []) (hP.silent o)

theorem Composes.clear {editor : Editor} (hide : ∀ o d, P o (o.hide editor d))
    (forget : ∀ (o : Overlay) (records : List LogRecord),
      P o ({ o with reports := {} }, records.map .log))
    (discard : ∀ o d, P o (o.discard d)) (o : Overlay) : P o (o.clear editor) := by
  apply hP.andThen (hP.forEach hide o o.reports.documents)
  dsimp only
  split
  · exact forget _ []
  · exact hP.andThen (forget _ [_]) (hP.forEach discard _ _)

end Composes

/-- Give a document without markers a group, under the next number. -/
def add (o : Overlay) (document : Path) (markers : List Marker) : Outcome :=
  let group : MarkerGroup := { number := o.nextGroup, markers }
  ({ o with groups := o.groups.insert document group, nextGroup := o.nextGroup + 1 },
    group.entries.map fun (h, m) => .draw (.addMarker document h m))

theorem install_eq (o : Overlay) (document : Path) (markers : List Marker) :
    o.install document markers = (o.discard document).andThen fun o =>
      if markers.isEmpty then (o, []) else o.add document markers := rfl

/-- The ways in which the groups of an overlay change, with what the screen is told of it. -/
inductive Change : Overlay → Outcome → Prop
  | keep {o o' : Overlay} {effects : List Effect} (groups : o'.groups = o.groups)
      (next : o'.nextGroup = o.nextGroup)
      (paints : ∀ call ∈ Outcome.calls (o', effects), call.isPaint = true) :
      Change o (o', effects)
  | discard (o : Overlay) (document : Path) : Change o (o.discard document)
  | add {o : Overlay} {document : Path} {markers : List Marker}
      (free : o.groups.find? document = none) (some : markers ≠ []) :
      Change o (o.add document markers)
  | disable (o : Overlay) (document : Path) : Change o (o.disable document)
  | restyle (o : Overlay) (theme : Theme) : Change o (o.restyle theme)
  | andThen {o : Overlay} {x : Outcome} {f : Overlay → Outcome} (first : Change o x)
      (second : Change x.1 (f x.1)) : Change o (x.andThen f)

theorem discard_of_none {o : Overlay} {d : Path} (h : o.groups.find? d = none) :
    o.discard d = (o, []) := by
  simp [discard, h]

@[simp] theorem nextGroup_discard (o : Overlay) (d : Path) :
    (o.discard d).1.nextGroup = o.nextGroup := by
  unfold discard
  split <;> rfl

/-- There is nothing to grey out twice. -/
theorem disable_of_idle {o : Overlay} {d : Path}
    (h : ∀ g, o.groups.find? d = some g → g.enabled = false) : o.disable d = (o, []) := by
  unfold disable
  split
  · rfl
  · rename_i g hg
    simp [h g hg]

@[simp] theorem nextGroup_disable (o : Overlay) (d : Path) :
    (o.disable d).1.nextGroup = o.nextGroup := by
  unfold disable
  split
  · rfl
  · split <;> rfl

theorem find?_discard (o : Overlay) (d e : Path) :
    (o.discard d).1.groups.find? e = if e ≈ d then none else o.groups.find? e := by
  have hcongr : e ≈ d → o.groups.find? e = o.groups.find? d := fun h =>
    o.groups.find?_congr (Path.compare_eq_iff.mpr h)
  unfold discard
  split
  · rename_i hnone
    by_cases h : e ≈ d
    · rw [if_pos h]
      exact (hcongr h).trans hnone
    · rw [if_neg h]
  · simp only [SortedMap.find?_erase, Path.compare_eq_iff]

theorem find?_add (o : Overlay) (d e : Path) (markers : List Marker) :
    (o.add d markers).1.groups.find? e =
      if e ≈ d then some { number := o.nextGroup, markers } else o.groups.find? e := by
  unfold add
  simp only [SortedMap.find?_insert, Path.compare_eq_iff]

theorem find?_restyle (o : Overlay) (theme : Theme) (e : Path) :
    (o.restyle theme).1.groups.find? e = (o.groups.find? e).map (·.restyle theme) := by
  unfold restyle
  exact SortedMap.find?_map _ _ _

theorem Change.silent (o : Overlay) : Change o (o, []) :=
  .keep rfl rfl (by simp [Outcome.calls])

theorem change_install (o : Overlay) (d : Path) (markers : List Marker) :
    Change o (o.install d markers) := by
  rw [install_eq]
  apply Change.andThen (.discard o d)
  cases markers with
  | nil => exact .silent _
  | cons m ms =>
    apply Change.add _ (by simp)
    rw [find?_discard, if_pos (Setoid.refl d)]

theorem isPaint_clearLayer (editor : Editor) (layer : Layer) (d : Path) {o : Overlay}
    {call : ScreenCall} (h : call ∈ Outcome.calls (o, clearLayer editor layer d)) :
    call.isPaint = true := by
  unfold clearLayer at h
  split at h
  · rw [List.mem_singleton.mp h]
    rfl
  · cases h

theorem change_hide (o : Overlay) (editor : Editor) (d : Path) : Change o (o.hide editor d) := by
  unfold hide
  refine .andThen (.keep rfl rfl fun call h => ?_) (.discard _ d)
  exact isPaint_clearLayer editor o.layer d h

theorem change_report (o : Overlay) (editor : Editor) (d : Path) (ds : List Diagnostic)
    (revision : Option Revision) : Change o (o.report editor d ds revision) := by
  unfold report
  refine .andThen (change_hide o editor d) (.keep rfl rfl ?_)
  simp [Outcome.calls, Effect.call?]

theorem change_placeMarkers (o : Overlay) (d : Path) (text : Text) (seen : Rendering) :
    Change o (o.placeMarkers d text seen) := by
  unfold placeMarkers
  split
  · exact change_install o d seen.markers
  · split
    · exact .silent o
    · exact .discard o d

theorem change_display (o : Overlay) (editor : Editor) (d : Path) (revision : Revision) :
    Change o (o.display editor d revision) := by
  unfold display
  split
  · exact .silent o
  · refine .andThen (.keep rfl rfl ?_) (.andThen (change_placeMarkers ..) (.keep rfl rfl ?_))
    · rw [Outcome.calls_of_log]
      simp
    · rw [Outcome.calls_of_paint]
      simp [ScreenCall.isPaint]

theorem change_publish (o : Overlay) (editor : Editor) (d : Path) (ds : List Diagnostic)
    (revision : Option Revision) : Change o (o.publish editor d ds revision) := by
  unfold publish
  apply Change.andThen (change_report o editor d ds revision)
  split
  · exact change_display _ editor d _
  · exact .silent _

theorem composes_change : Composes Change := ⟨.silent, .andThen⟩

theorem change_clear (o : Overlay) (editor : Editor) : Change o (o.clear editor) := by
  refine composes_change.clear (fun o d => change_hide o editor d) (fun o records => ?_) .discard o
  refine .keep rfl rfl ?_
  rw [Outcome.calls_of_log]
  exact List.forall_mem_nil _

theorem change_setLayer (o : Overlay) (editor : Editor) (layer : Layer) :
    Change o (o.setLayer editor layer) := by
  unfold setLayer
  split
  · exact .silent o
  · refine .keep rfl rfl fun call h => ?_
    unfold Outcome.calls at h
    obtain ⟨effect, he, hcall⟩ := List.mem_filterMap.mp h
    split at he
    · cases he
    · rcases List.mem_cons.mp he with rfl | he
      · cases hcall
      · obtain ⟨d, _, hd⟩ := List.mem_flatMap.mp he
        exact isPaint_clearLayer editor o.layer d (o := o)
          (List.mem_filterMap.mpr ⟨effect, hd, hcall⟩)

end Overlay

end Marginalia
