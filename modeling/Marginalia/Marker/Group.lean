import Marginalia.Marker

/-! The markers of one document. A group has a number that no other group ever has, so a handle to a
discarded marker never stands for another one. -/
namespace Marginalia

structure Handle where
  group : Nat
  index : Nat
deriving DecidableEq, Repr, Inhabited

namespace Handle

instance : Ord Handle := ⟨compareLex (compareOn group) (compareOn index)⟩

instance : Std.TransOrd Handle :=
  inferInstanceAs (Std.TransCmp (compareLex (compareOn group) (compareOn index)))

theorem compare_eq_iff {a b : Handle} : compare a b = .eq ↔ a = b := by
  constructor
  · intro h
    have h : (compareOn group a b).then (compareOn index a b) = .eq := h
    rw [Ordering.then_eq_eq] at h
    have hg : a.group = b.group := Std.LawfulEqOrd.eq_of_compare h.1
    have hi : a.index = b.index := Std.LawfulEqOrd.eq_of_compare h.2
    cases a
    cases b
    simp_all
  · rintro rfl
    exact Std.ReflCmp.compare_self

end Handle

structure MarkerGroup where
  number : Nat
  enabled : Bool := true
  markers : List Marker
deriving DecidableEq, Repr, Inhabited

namespace MarkerGroup

def size (g : MarkerGroup) : Nat := g.markers.length

def isEmpty (g : MarkerGroup) : Bool := g.markers.isEmpty

/-- The markers with their handles, in order. -/
def entries (g : MarkerGroup) : List (Handle × Marker) :=
  g.markers.zipIdx.map fun (m, i) => (⟨g.number, i⟩, m)

def find? (g : MarkerGroup) (h : Handle) : Option Marker :=
  if h.group = g.number then g.markers[h.index]? else none

/-- Grey out all markers, once. -/
def disable (g : MarkerGroup) (theme : Theme) : MarkerGroup :=
  if g.enabled then
    { g with enabled := false, markers := g.markers.map (·.recolor .disabled theme) }
  else g

def restyle (g : MarkerGroup) (theme : Theme) : MarkerGroup :=
  { g with markers := g.markers.map (·.restyle theme) }

@[simp] theorem size_disable (g : MarkerGroup) (theme : Theme) :
    (g.disable theme).size = g.size := by
  unfold disable
  split <;> simp [size]

end MarkerGroup

end Marginalia
