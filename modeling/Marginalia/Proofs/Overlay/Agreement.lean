import Marginalia.Proofs.Overlay.Mirror

/-! A screen that mirrors an overlay, as its user sees it: the same markers, document by document in
the same order, and as many of them. -/
namespace Marginalia

namespace Screen

/-- The markers that are alive, in the order of their handles. -/
def alive (s : Screen) : List (Handle × Marker) := s.byHandle.entries.map fun e => (e.1, e.2.2)

theorem nodup_alive (s : Screen) : (s.alive.map (·.1)).Nodup := by
  unfold alive
  rw [List.map_map]
  exact s.byHandle.nodup_keys

theorem live?_eq_some_iff {s : Screen} {h : Handle} {x : Path × Marker} :
    s.live? h = some x ↔ (h, x) ∈ s.byHandle.entries := by
  refine ⟨fun hx => ?_, SortedMap.find?_of_mem⟩
  obtain ⟨k, hk, hmem⟩ := SortedMap.exists_mem_of_find? hx
  rwa [Handle.compare_eq_iff.mp hk]

theorem mem_alive {s : Screen} {h : Handle} {m : Marker} :
    (h, m) ∈ s.alive ↔ ∃ d, s.live? h = some (d, m) := by
  unfold alive
  rw [List.mem_map]
  constructor
  · rintro ⟨⟨k, d, m'⟩, hmem, heq⟩
    cases heq
    exact ⟨d, live?_eq_some_iff.mpr hmem⟩
  · rintro ⟨d, hd⟩
    exact ⟨(h, d, m), live?_eq_some_iff.mp hd, rfl⟩

/-- What a screen has of one document, with the handles. -/
def aliveFor (s : Screen) (d : Path) : List (Handle × Marker) :=
  (s.byHandle.entries.filter fun e => e.2.1 ≈ d).map fun e => (e.1, e.2.2)

theorem map_snd_aliveFor (s : Screen) (d : Path) : (s.aliveFor d).map (·.2) = s.markers d := by
  unfold aliveFor markers SortedMap.values
  rw [List.filter_map, List.map_map, List.map_map]
  rfl

theorem sorted_aliveFor (s : Screen) (d : Path) :
    (s.aliveFor d).Pairwise (fun a b => compare a.1 b.1 = .lt) := by
  unfold aliveFor
  rw [List.pairwise_map]
  exact s.byHandle.sorted.filter _

theorem mem_aliveFor {s : Screen} {d : Path} {h : Handle} {m : Marker} :
    (h, m) ∈ s.aliveFor d ↔ ∃ e, s.live? h = some (e, m) ∧ e ≈ d := by
  unfold aliveFor
  rw [List.mem_map]
  constructor
  · rintro ⟨⟨k, e, m'⟩, hmem, heq⟩
    cases heq
    obtain ⟨hmem, hed⟩ := List.mem_filter.mp hmem
    exact ⟨e, live?_eq_some_iff.mpr hmem, of_decide_eq_true hed⟩
  · rintro ⟨e, he, hed⟩
    refine ⟨(h, e, m), List.mem_filter.mpr ⟨live?_eq_some_iff.mp he, decide_eq_true hed⟩, rfl⟩

/-- A screen shows the markers of an overlay and no others. -/
structure Agrees (s : Screen) (o : Overlay) : Prop where
  /-- A handle is alive just if a group has a marker at its place. The screen then has the value of
  that marker, and the document of that group in some spelling. -/
  live : ∀ d h m, (∃ e, s.live? h = some (e, m) ∧ e ≈ d) ↔
    ∃ g, o.group? d = some g ∧ h.group = g.number ∧ g.markers[h.index]? = some m
  count : s.markerCount = o.markerCount
  inOrder : ∀ d, s.markers d = ((o.group? d).map (·.markers)).getD []
  /-- A walk through all markers meets every one that is alive, and meets it once. -/
  visited : (o.markers.map (·.2)).Perm s.alive
  ascending : o.markers.Pairwise fun x y => compare x.1 y.1 = .lt ∨
    x.1 = y.1 ∧ x.2.1.group = y.2.1.group ∧ x.2.1.index < y.2.1.index

end Screen

namespace Overlay

variable {s : Screen} {o : Overlay}

theorem length_markers (o : Overlay) : o.markers.length = o.markerCount := by
  have hsize : ∀ g : MarkerGroup, g.entries.length = g.size := by
    simp [MarkerGroup.entries, MarkerGroup.size]
  unfold markers markerCount SortedMap.values
  rw [List.length_flatMap, List.sum_eq_foldl_nat, List.foldl_map, List.foldl_map]
  simp only [List.length_map, hsize]

theorem Mirrors.visited (hm : Mirrors s o) : (o.markers.map (·.2)).Perm s.alive := by
  have hvisited : ((o.markers.map (·.2)).map (·.1)).Nodup := by
    rw [List.map_map]
    exact hm.nodup_handles
  have hnodup : ∀ {es : List (Handle × Marker)}, (es.map (·.1)).Nodup → es.Nodup :=
    fun h => (List.pairwise_map.mp h).imp fun hne heq => hne (congrArg _ heq)
  apply (List.perm_ext_iff_of_nodup (hnodup hvisited) (hnodup s.nodup_alive)).mpr
  rintro ⟨h, m⟩
  rw [List.mem_map, Screen.mem_alive]
  constructor
  · rintro ⟨⟨d, x⟩, hmem, rfl⟩
    obtain ⟨e, he, _⟩ := (hm.live d h m).mpr (holds_of_mem_markers hmem)
    exact ⟨e, he⟩
  · rintro ⟨d, hd⟩
    obtain ⟨e, _, hmem⟩ := exists_mem_markers ((hm.live d h m).mp ⟨d, hd, Setoid.refl d⟩)
    exact ⟨(e, h, m), hmem, rfl⟩

theorem Mirrors.count (hm : Mirrors s o) : s.markerCount = o.markerCount := by
  have hlen := hm.visited.length_eq
  rw [List.length_map, length_markers] at hlen
  rw [hlen]
  unfold Screen.alive
  rw [List.length_map]
  rfl

theorem Mirrors.aliveFor (hm : Mirrors s o) {d : Path} {g : MarkerGroup}
    (hg : o.groups.find? d = some g) : s.aliveFor d = g.entries := by
  apply SortedMap.eq_of_mem_iff (s.sorted_aliveFor d) g.sorted_entries
  rintro ⟨h, m⟩
  rw [Screen.mem_aliveFor, hm.live, MarkerGroup.mem_entries]
  constructor
  · rintro ⟨k, hk, hkm⟩
    rw [hg] at hk
    cases hk
    exact hkm
  · exact fun hgm => ⟨g, hg, hgm⟩

theorem Mirrors.aliveFor_eq (hm : Mirrors s o) (d : Path) :
    s.aliveFor d = ((o.group? d).map (·.entries)).getD [] := by
  unfold group?
  cases hg : o.groups.find? d with
  | some g => exact hm.aliveFor hg
  | none =>
    apply List.eq_nil_iff_forall_not_mem.mpr
    rintro ⟨h, m⟩ hmem
    obtain ⟨g, hg', _⟩ := (hm.live d h m).mp (Screen.mem_aliveFor.mp hmem)
    rw [hg] at hg'
    cases hg'

theorem Mirrors.inOrder (hm : Mirrors s o) (d : Path) :
    s.markers d = ((o.group? d).map (·.markers)).getD [] := by
  rw [← Screen.map_snd_aliveFor, hm.aliveFor_eq]
  cases o.group? d with
  | some g => exact g.map_snd_entries
  | none => rfl

theorem pairwise_markers (o : Overlay) :
    o.markers.Pairwise fun x y => compare x.1 y.1 = .lt ∨
      x.1 = y.1 ∧ x.2.1.group = y.2.1.group ∧ x.2.1.index < y.2.1.index := by
  unfold markers
  refine List.pairwise_flatMap.mpr ⟨fun e _ => ?_, ?_⟩
  · have hindex : e.2.entries.Pairwise (fun a b => a.1.index < b.1.index) := by
      rw [← List.pairwise_map (R := fun a b : Handle => a.index < b.index),
        MarkerGroup.map_fst_entries]
      exact MarkerGroup.pairwise_handlesOf _ _
    rw [List.pairwise_map]
    refine hindex.imp_of_mem fun {a b} ha hb hlt => .inr ⟨rfl, ?_, hlt⟩
    rw [MarkerGroup.group_eq_of_find? (MarkerGroup.mem_entries.mp ha),
      MarkerGroup.group_eq_of_find? (MarkerGroup.mem_entries.mp hb)]
  · apply o.groups.sorted.imp
    intro a b hlt x hx y hy
    obtain ⟨_, _, rfl⟩ := List.mem_map.mp hx
    obtain ⟨_, _, rfl⟩ := List.mem_map.mp hy
    exact .inl hlt

theorem Mirrors.agrees (hm : Mirrors s o) : s.Agrees o where
  live := by
    intro d h m
    rw [hm.live]
    unfold Holds group?
    simp only [MarkerGroup.find?_eq_some_iff]
  count := hm.count
  inOrder := hm.inOrder
  visited := hm.visited
  ascending := o.pairwise_markers

end Overlay

end Marginalia
