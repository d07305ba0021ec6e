import Marginalia.Highlight
import Marginalia.Marker.Group
import Marginalia.SortedMap

/-! What the user sees. The overlay sends calls, and a screen is what remains of them: the highlights
last set for every document and layer, and the markers that are alive. -/
namespace Marginalia

inductive ScreenCall where
  | setHighlights (document : Path) (layer : Layer) (highlights : List Highlight)
  | addMarker (document : Path) (handle : Handle) (marker : Marker)
  | updateMarker (document : Path) (handle : Handle) (marker : Marker)
  | removeMarker (document : Path) (handle : Handle)
deriving DecidableEq, Inhabited

namespace Screen

structure Place where
  document : Path
  layer : Layer
deriving DecidableEq, Repr, Inhabited

namespace Place

instance : Ord Place := ⟨compareLex (compareOn document) (compareOn layer)⟩

instance : Std.TransOrd Place :=
  inferInstanceAs (Std.TransCmp (compareLex (compareOn document) (compareOn layer)))

theorem compare_eq_iff {a b : Place} :
    compare a b = .eq ↔ a.document ≈ b.document ∧ a.layer = b.layer := by
  rw [← Path.compare_eq_iff, ← Layer.compare_eq_iff]
  exact Ordering.then_eq_eq

end Place

end Screen

structure Screen where
  byPlace : SortedMap Screen.Place (List Highlight) := {}
  byHandle : SortedMap Handle (Path × Marker) := {}
  highlightUpdates : Nat := 0
deriving Inhabited

namespace Screen

def highlights (s : Screen) (document : Path) (layer : Layer) : List Highlight :=
  (s.byPlace.find? ⟨document, layer⟩).getD []

def marker? (s : Screen) (h : Handle) : Option Marker := (s.byHandle.find? h).map (·.2)

/-- In the order of the handles. -/
def markers (s : Screen) (document : Path) : List Marker :=
  (s.byHandle.values.filter fun (d, _) => d ≈ document).map (·.2)

def markerCount (s : Screen) : Nat := s.byHandle.size

/-- An update of a marker that is not alive has no effect. -/
def apply (s : Screen) : ScreenCall → Screen
  | .setHighlights document layer highlights =>
    { s with
      byPlace := s.byPlace.insert ⟨document, layer⟩ highlights
      highlightUpdates := s.highlightUpdates + 1 }
  | .addMarker document h m => { s with byHandle := s.byHandle.insert h (document, m) }
  | .updateMarker document h m =>
    if s.byHandle.contains h then { s with byHandle := s.byHandle.insert h (document, m) } else s
  | .removeMarker _ h => { s with byHandle := s.byHandle.erase h }

end Screen

end Marginalia
