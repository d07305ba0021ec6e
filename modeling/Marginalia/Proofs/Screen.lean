import Marginalia.Proofs.Marker.Group
import Marginalia.Proofs.SortedMap
import Marginalia.Screen

/-! Sequences of calls to a screen. `Screen.AllowsAll` is the discipline under which handles are
used: a marker is added under a free handle, and changed or removed only while it is alive, for its
own document. The calls that keep it neither lose nor double a handle (`perm_of_allowsAll`). -/
namespace Marginalia

namespace ScreenCall

/-- The handle that comes alive. -/
def added? : ScreenCall → Option Handle
  | addMarker _ h _ => some h
  | _ => none

/-- The handle that is given up. -/
def removed? : ScreenCall → Option Handle
  | removeMarker _ h => some h
  | _ => none

/-- Whether a call draws highlights only. -/
def isPaint : ScreenCall → Bool
  | setHighlights _ _ _ => true
  | _ => false

end ScreenCall

namespace Screen

/-- What stands behind a handle that is alive. -/
def live? (s : Screen) (h : Handle) : Option (Path × Marker) := s.byHandle.find? h

def applyAll (s : Screen) (calls : List ScreenCall) : Screen := calls.foldl apply s

@[simp] theorem applyAll_nil (s : Screen) : s.applyAll [] = s := rfl

@[simp] theorem applyAll_cons (s : Screen) (call : ScreenCall) (rest : List ScreenCall) :
    s.applyAll (call :: rest) = (s.apply call).applyAll rest := rfl

theorem applyAll_append (s : Screen) (first rest : List ScreenCall) :
    s.applyAll (first ++ rest) = (s.applyAll first).applyAll rest :=
  List.foldl_append

theorem byHandle_of_isPaint (s : Screen) {call : ScreenCall} (h : call.isPaint = true) :
    (s.apply call).byHandle = s.byHandle := by
  cases call with
  | setHighlights d l hs => rfl
  | addMarker d k m => cases h
  | updateMarker d k m => cases h
  | removeMarker d k => cases h

theorem highlights_setHighlights (s : Screen) (d e : Path) (l k : Layer) (hs : List Highlight) :
    (s.apply (.setHighlights d l hs)).highlights e k =
      if e ≈ d ∧ k = l then hs else s.highlights e k := by
  have hkey : compare (Place.mk e k) ⟨d, l⟩ = .eq ↔ e ≈ d ∧ k = l := Place.compare_eq_iff
  unfold highlights apply
  rw [SortedMap.find?_insert]
  simp only [hkey]
  split <;> rfl

theorem live?_addMarker (s : Screen) (d : Path) (k : Handle) (m : Marker) (h : Handle) :
    (s.apply (.addMarker d k m)).live? h = if h = k then some (d, m) else s.live? h := by
  unfold live? apply
  simp only [SortedMap.find?_insert, Handle.compare_eq_iff]

theorem live?_removeMarker (s : Screen) (d : Path) (k h : Handle) :
    (s.apply (.removeMarker d k)).live? h = if h = k then none else s.live? h := by
  unfold live? apply
  simp only [SortedMap.find?_erase, Handle.compare_eq_iff]

/-- An update of a marker that is alive. -/
theorem apply_updateMarker {s : Screen} {k : Handle} {x : Path × Marker} (hk : s.live? k = some x)
    (d : Path) (m : Marker) :
    s.apply (.updateMarker d k m) = { s with byHandle := s.byHandle.insert k (d, m) } := by
  have hin : s.byHandle.contains k = true := by
    unfold SortedMap.contains
    exact Option.isSome_of_eq_some hk
  unfold apply
  simp only [hin, if_true]

theorem live?_updateMarker {s : Screen} {k : Handle} {x : Path × Marker} (hk : s.live? k = some x)
    (d : Path) (m : Marker) (h : Handle) :
    (s.apply (.updateMarker d k m)).live? h = if h = k then some (d, m) else s.live? h := by
  rw [apply_updateMarker hk]
  unfold live?
  simp only [SortedMap.find?_insert, Handle.compare_eq_iff]

/-- A handle is alive for a document, however that one is spelled. -/
def Shows (s : Screen) (d : Path) (h : Handle) : Prop :=
  ∃ e m, s.live? h = some (e, m) ∧ e ≈ d

/-- Whether a call makes sense on a screen. -/
def Allows (s : Screen) : ScreenCall → Prop
  | .setHighlights _ _ _ => True
  | .addMarker _ h _ => s.live? h = none
  | .updateMarker d h _ => s.Shows d h
  | .removeMarker d h => s.Shows d h

def AllowsAll (s : Screen) : List ScreenCall → Prop
  | [] => True
  | call :: rest => s.Allows call ∧ (s.apply call).AllowsAll rest

theorem allowsAll_append {s : Screen} {first rest : List ScreenCall} :
    s.AllowsAll (first ++ rest) ↔ s.AllowsAll first ∧ (s.applyAll first).AllowsAll rest := by
  induction first generalizing s with
  | nil => simp [AllowsAll]
  | cons call first ih => exact (and_congr_right fun _ => ih).trans and_assoc.symm

theorem shows_congr {s t : Screen} {h : Handle} (heq : s.live? h = t.live? h) (d : Path) :
    s.Shows d h ↔ t.Shows d h := by
  unfold Shows
  rw [heq]

theorem allowsAll_paint {s : Screen} {calls : List ScreenCall}
    (hp : ∀ call ∈ calls, call.isPaint = true) :
    s.AllowsAll calls ∧ (s.applyAll calls).byHandle = s.byHandle := by
  induction calls generalizing s with
  | nil => exact ⟨trivial, rfl⟩
  | cons call rest ih =>
    have hcall := hp call List.mem_cons_self
    obtain ⟨hall, hrest⟩ := ih (s := s.apply call) fun x hx => hp x (List.mem_cons_of_mem _ hx)
    refine ⟨⟨?_, hall⟩, hrest.trans (byHandle_of_isPaint s hcall)⟩
    cases call with
    | setHighlights d l hs => trivial
    | addMarker d k m => cases hcall
    | updateMarker d k m => cases hcall
    | removeMarker d k => cases hcall

theorem live?_applyAll_remove (s : Screen) (d : Path) (hs : List Handle) (h : Handle) :
    (s.applyAll (hs.map (.removeMarker d))).live? h = if h ∈ hs then none else s.live? h := by
  induction hs generalizing s with
  | nil => simp
  | cons k hs ih =>
    rw [List.map_cons, applyAll_cons, ih, live?_removeMarker]
    by_cases hk : h = k <;> simp [hk]

theorem allowsAll_remove {s : Screen} {d : Path} {hs : List Handle} (hd : hs.Nodup)
    (hlive : ∀ h ∈ hs, s.Shows d h) : s.AllowsAll (hs.map (.removeMarker d)) := by
  induction hs generalizing s with
  | nil => trivial
  | cons k hs ih =>
    have hc := List.nodup_cons.mp hd
    refine ⟨hlive k List.mem_cons_self, ih hc.2 fun h hmem => ?_⟩
    have hne : h ≠ k := fun heq => hc.1 (heq ▸ hmem)
    apply (shows_congr _ d).mpr (hlive h (List.mem_cons_of_mem _ hmem))
    rw [live?_removeMarker, if_neg hne]

/-- What comes after calls that put a marker under every handle of a list. -/
theorem live?_applyAll_add (s : Screen) (d : Path) {es : List (Handle × Marker)}
    (hd : (es.map (·.1)).Nodup) (h : Handle) :
    (∀ m, (h, m) ∈ es →
      (s.applyAll (es.map fun e => .addMarker d e.1 e.2)).live? h = some (d, m)) ∧
    (h ∉ es.map (·.1) →
      (s.applyAll (es.map fun e => .addMarker d e.1 e.2)).live? h = s.live? h) := by
  induction es generalizing s with
  | nil => simp
  | cons e es ih =>
    have hc := List.nodup_cons.mp hd
    obtain ⟨hin, hout⟩ := ih (s.apply (.addMarker d e.1 e.2)) hc.2
    constructor
    · intro m hmem
      rcases List.mem_cons.mp hmem with rfl | hmem
      · apply (hout hc.1).trans
        rw [live?_addMarker, if_pos rfl]
      · exact hin m hmem
    · intro hnot
      rw [List.map_cons, List.mem_cons, not_or] at hnot
      apply (hout hnot.2).trans
      rw [live?_addMarker, if_neg hnot.1]

theorem allowsAll_add {s : Screen} {d : Path} {es : List (Handle × Marker)}
    (hd : (es.map (·.1)).Nodup) (hfree : ∀ h ∈ es.map (·.1), s.live? h = none) :
    s.AllowsAll (es.map fun e => .addMarker d e.1 e.2) := by
  induction es generalizing s with
  | nil => trivial
  | cons e es ih =>
    have hc := List.nodup_cons.mp hd
    refine ⟨hfree e.1 List.mem_cons_self, ih hc.2 fun h hmem => ?_⟩
    have hne : h ≠ e.1 := fun heq => hc.1 (show e.1 ∈ _ from heq ▸ hmem)
    rw [live?_addMarker, if_neg hne]
    exact hfree h (List.mem_cons_of_mem _ hmem)

/-- Calls that bring markers up to date, each for a document of its own. -/
def updates (us : List (Path × Handle × Marker)) : List ScreenCall :=
  us.map fun u => .updateMarker u.1 u.2.1 u.2.2

/-- Updates of markers that are all alive: they make sense, and every one of them counts. -/
theorem applyAll_updates {s : Screen} {us : List (Path × Handle × Marker)}
    (hd : (us.map (·.2.1)).Nodup) (hlive : ∀ u ∈ us, s.Shows u.1 u.2.1) :
    s.AllowsAll (updates us) ∧
    (∀ u ∈ us, (s.applyAll (updates us)).live? u.2.1 = some (u.1, u.2.2)) ∧
    ∀ h, h ∉ us.map (·.2.1) → (s.applyAll (updates us)).live? h = s.live? h := by
  induction us generalizing s with
  | nil => exact ⟨trivial, by simp, fun _ _ => rfl⟩
  | cons u us ih =>
    have hc := List.nodup_cons.mp hd
    have hu := hlive u List.mem_cons_self
    obtain ⟨e, m, hm, _⟩ := id hu
    have hstep := live?_updateMarker hm u.1 u.2.2
    obtain ⟨hall, hin, hout⟩ := ih (s := s.apply (.updateMarker u.1 u.2.1 u.2.2)) hc.2
      fun v hv => by
        have hne : v.2.1 ≠ u.2.1 := fun heq => hc.1 (List.mem_map.mpr ⟨v, hv, heq⟩)
        apply (shows_congr _ v.1).mpr (hlive v (List.mem_cons_of_mem _ hv))
        rw [hstep, if_neg hne]
    refine ⟨⟨hu, hall⟩, ?_, ?_⟩
    · intro v hv
      rcases List.mem_cons.mp hv with rfl | hv
      · apply (hout _ hc.1).trans
        rw [hstep, if_pos rfl]
      · exact hin v hv
    · intro h hnot
      rw [List.map_cons, List.mem_cons, not_or] at hnot
      apply (hout h hnot.2).trans
      rw [hstep, if_neg hnot.1]

def added (calls : List ScreenCall) : List Handle := calls.filterMap ScreenCall.added?

def removed (calls : List ScreenCall) : List Handle := calls.filterMap ScreenCall.removed?

theorem added_append (first rest : List ScreenCall) :
    added (first ++ rest) = added first ++ added rest :=
  List.filterMap_append

/-- What was alive or was added is either removed or still alive. -/
theorem perm_of_allowsAll {s : Screen} {calls : List ScreenCall} (h : s.AllowsAll calls) :
    (s.byHandle.keys ++ added calls).Perm
      (removed calls ++ (s.applyAll calls).byHandle.keys) := by
  induction calls generalizing s with
  | nil =>
    simp only [added, removed, List.filterMap_nil, List.append_nil, List.nil_append, applyAll_nil]
    exact List.Perm.refl _
  | cons call rest ih =>
    obtain ⟨hcall, hrest⟩ := h
    have hp := ih hrest
    cases call with
    | setHighlights d l hs => exact hp
    | addMarker d k m =>
      have hk := SortedMap.keys_insert_perm hcall (d, m)
      exact List.perm_middle.trans ((hk.symm.append_right _).trans hp)
    | updateMarker d k m =>
      obtain ⟨e, m', hm, _⟩ := hcall
      have hk : (s.apply (.updateMarker d k m)).byHandle.keys = s.byHandle.keys := by
        rw [apply_updateMarker hm]
        exact SortedMap.keys_insert_of_find? hm (d, m)
      rw [hk] at hp
      exact hp
    | removeMarker d k =>
      obtain ⟨e, m, hm, _⟩ := hcall
      have hk := SortedMap.keys_erase_perm hm
      exact (hk.append_right _).trans (hp.cons k)

end Screen

end Marginalia
