import Marginalia.Marker.Group

/-! The handles of a group: its number with `0, 1, 2, ...`, in the order of the markers. Neither
disabling nor restyling changes them. -/
namespace Marginalia

instance : Std.LawfulEqOrd Handle where
  compare_self := Std.ReflCmp.compare_self
  eq_of_compare := Handle.compare_eq_iff.mp

namespace MarkerGroup

/-- The handles that stand for `count` markers of the group of a number. -/
def handlesOf (number count : Nat) : List Handle :=
  (List.range count).map (⟨number, ·⟩)

def handles (g : MarkerGroup) : List Handle := handlesOf g.number g.size

@[simp] theorem length_handlesOf (number count : Nat) : (handlesOf number count).length = count := by
  simp [handlesOf]

theorem mem_handlesOf {number count : Nat} {h : Handle} :
    h ∈ handlesOf number count ↔ h.group = number ∧ h.index < count := by
  unfold handlesOf
  rw [List.mem_map]
  constructor
  · rintro ⟨i, hi, rfl⟩
    exact ⟨rfl, List.mem_range.mp hi⟩
  · rintro ⟨rfl, hlt⟩
    exact ⟨h.index, List.mem_range.mpr hlt, rfl⟩

theorem pairwise_handlesOf (number count : Nat) :
    (handlesOf number count).Pairwise (fun a b => a.index < b.index) := by
  unfold handlesOf
  rw [List.pairwise_map]
  exact List.pairwise_lt_range

theorem nodup_handlesOf (number count : Nat) : (handlesOf number count).Nodup :=
  (pairwise_handlesOf number count).imp fun hlt heq => by
    rw [heq] at hlt
    exact Nat.lt_irrefl _ hlt

theorem map_fst_entries (g : MarkerGroup) : g.entries.map (·.1) = g.handles := by
  unfold entries handles handlesOf size
  rw [List.map_map, List.range_eq_range', ← List.zipIdx_map_snd 0 g.markers, List.map_map]
  rfl

theorem sorted_entries (g : MarkerGroup) :
    g.entries.Pairwise (fun a b => compare a.1 b.1 = .lt) := by
  have hs : g.handles.Pairwise (fun a b => compare a b = .lt) := by
    unfold handles handlesOf
    rw [List.pairwise_map]
    apply List.pairwise_lt_range.imp
    intro i j hij
    have hself : compare g.number g.number = .eq := Std.ReflCmp.compare_self
    change (compare g.number g.number).then (compare i j) = .lt
    rw [hself, Nat.compare_eq_lt.mpr hij]
    rfl
  rw [← map_fst_entries] at hs
  exact List.pairwise_map.mp hs

theorem map_snd_entries (g : MarkerGroup) : g.entries.map (·.2) = g.markers := by
  unfold entries
  rw [List.map_map]
  exact List.zipIdx_map_fst 0 g.markers

theorem find?_eq_some_iff {g : MarkerGroup} {h : Handle} {m : Marker} :
    g.find? h = some m ↔ h.group = g.number ∧ g.markers[h.index]? = some m := by
  unfold find?
  split <;> simp_all

theorem mem_entries {g : MarkerGroup} {h : Handle} {m : Marker} :
    (h, m) ∈ g.entries ↔ g.find? h = some m := by
  rw [find?_eq_some_iff]
  unfold entries
  simp only [List.mem_map, Prod.mk.injEq, Prod.exists, List.mem_zipIdx_iff_getElem?]
  constructor
  · rintro ⟨m', i, hm, rfl, rfl⟩
    exact ⟨rfl, hm⟩
  · rintro ⟨hg, hm⟩
    refine ⟨m, h.index, hm, ?_, rfl⟩
    rw [← hg]

theorem mem_handles {g : MarkerGroup} {h : Handle} :
    h ∈ g.handles ↔ ∃ m, g.find? h = some m := by
  rw [← map_fst_entries, List.mem_map]
  constructor
  · rintro ⟨⟨k, m⟩, hmem, rfl⟩
    exact ⟨m, mem_entries.mp hmem⟩
  · rintro ⟨m, hm⟩
    exact ⟨(h, m), mem_entries.mpr hm, rfl⟩

theorem group_eq_of_find? {g : MarkerGroup} {h : Handle} {m : Marker} (hm : g.find? h = some m) :
    h.group = g.number :=
  (find?_eq_some_iff.mp hm).1

@[simp] theorem number_disable (g : MarkerGroup) (theme : Theme) :
    (g.disable theme).number = g.number := by
  unfold disable
  split <;> rfl

@[simp] theorem handles_disable (g : MarkerGroup) (theme : Theme) :
    (g.disable theme).handles = g.handles := by
  simp [handles]

end MarkerGroup

end Marginalia
