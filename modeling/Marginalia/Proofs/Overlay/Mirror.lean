import Marginalia.Proofs.Overlay.Change

/-! The screen against the groups of an overlay. Every change sends calls that the screen allows,
and afterwards the markers that are alive are again those of the groups (`Change.reflected`). -/
namespace Marginalia.Overlay

/-- The groups of an overlay have numbers of their own, all of them given out before. -/
structure Numbered (o : Overlay) : Prop where
  lt_next : ∀ {d : Path} {g : MarkerGroup}, o.groups.find? d = some g → g.number < o.nextGroup
  inj : ∀ {d e : Path} {g k : MarkerGroup}, o.groups.find? d = some g →
    o.groups.find? e = some k → g.number = k.number → d ≈ e

/-- A marker of a document stands behind a handle. -/
def Holds (o : Overlay) (d : Path) (h : Handle) (m : Marker) : Prop :=
  ∃ g, o.groups.find? d = some g ∧ g.find? h = some m

/-- The markers that are alive on a screen are those of the groups. -/
structure Mirrors (s : Screen) (o : Overlay) : Prop extends Numbered o where
  live : ∀ d h m, (∃ e, s.live? h = some (e, m) ∧ e ≈ d) ↔ o.Holds d h m

variable {s : Screen} {o o' : Overlay}

theorem find?_congr (o : Overlay) {d e : Path} (h : d ≈ e) :
    o.groups.find? d = o.groups.find? e :=
  o.groups.find?_congr (Path.compare_eq_iff.mpr h)

theorem holds_congr (o : Overlay) {d e : Path} (hde : d ≈ e) (h : Handle) (m : Marker) :
    o.Holds d h m ↔ o.Holds e h m := by
  unfold Holds
  rw [find?_congr o hde]

/-- A handle stands for one marker of one document. -/
theorem Numbered.unique (hn : Numbered o) {d e : Path} {h : Handle} {m k : Marker}
    (hd : o.Holds d h m) (he : o.Holds e h k) : d ≈ e ∧ m = k := by
  obtain ⟨g, hg, hm⟩ := hd
  obtain ⟨g', hg', hk⟩ := he
  have hnum : g.number = g'.number :=
    (MarkerGroup.group_eq_of_find? hm).symm.trans (MarkerGroup.group_eq_of_find? hk)
  have hde := hn.inj hg hg' hnum
  rw [find?_congr o hde, hg'] at hg
  cases hg
  rw [hk] at hm
  exact ⟨hde, (Option.some.inj hm).symm⟩

theorem mem_handles_of_holds {d : Path} {g : MarkerGroup} (hg : o.groups.find? d = some g)
    {h : Handle} {m : Marker} (hh : o.Holds d h m) : h ∈ g.handles := by
  obtain ⟨k, hk, hkm⟩ := hh
  rw [hg] at hk
  cases hk
  exact MarkerGroup.mem_handles.mpr ⟨m, hkm⟩

theorem exists_holds_of_mem_handles {d : Path} {g : MarkerGroup} (hg : o.groups.find? d = some g)
    {h : Handle} (hmem : h ∈ g.handles) : ∃ m, o.Holds d h m := by
  obtain ⟨m, hm⟩ := MarkerGroup.mem_handles.mp hmem
  exact ⟨m, g, hg, hm⟩

/-- One handle that is alive for the right document with the right marker. -/
theorem Numbered.live_iff (hn : Numbered o) {d : Path} {h : Handle} {m : Marker}
    (hl : s.live? h = some (d, m)) (hd : o.Holds d h m) (e : Path) (k : Marker) :
    (∃ e', s.live? h = some (e', k) ∧ e' ≈ e) ↔ o.Holds e h k := by
  rw [hl]
  constructor
  · rintro ⟨e', heq, he⟩
    cases heq
    exact (holds_congr o he h m).mp hd
  · intro he
    obtain ⟨hed, rfl⟩ := hn.unique he hd
    exact ⟨d, rfl, Setoid.symm hed⟩

/-- Groups keep their documents, numbers and sizes. -/
def SameShape (o o' : Overlay) : Prop :=
  ∀ d, (o'.groups.find? d).map (fun g => (g.number, g.size)) =
    (o.groups.find? d).map (fun g => (g.number, g.size))

theorem SameShape.exists_group (hs : SameShape o o') {d : Path} {g' : MarkerGroup}
    (hg' : o'.groups.find? d = some g') :
    ∃ g, o.groups.find? d = some g ∧ g.number = g'.number ∧ g.handles = g'.handles := by
  have hd := hs d
  rw [hg', Option.map_some, eq_comm, Option.map_eq_some_iff] at hd
  obtain ⟨g, hg, heq⟩ := hd
  obtain ⟨hnum, hsize⟩ := Prod.mk.inj heq
  refine ⟨g, hg, hnum, ?_⟩
  unfold MarkerGroup.handles
  rw [hnum, hsize]

theorem SameShape.symm (hs : SameShape o o') : SameShape o' o := fun d => (hs d).symm

theorem SameShape.numbered (hs : SameShape o o') (hnext : o'.nextGroup = o.nextGroup)
    (hn : Numbered o) : Numbered o' where
  lt_next := by
    intro d g' hg'
    obtain ⟨g, hg, hnum, _⟩ := hs.exists_group hg'
    rw [hnext, ← hnum]
    exact hn.lt_next hg
  inj := by
    intro d e g' k' hg' hk' hnum
    obtain ⟨g, hg, hgnum, _⟩ := hs.exists_group hg'
    obtain ⟨k, hk, hknum, _⟩ := hs.exists_group hk'
    exact hn.inj hg hk (hgnum.trans (hnum.trans hknum.symm))

/-- A handle that stands for a marker stands for one when all shapes are the same. -/
theorem SameShape.exists_holds (hs : SameShape o o') {d : Path} {h : Handle} {m : Marker}
    (hm : o'.Holds d h m) : ∃ k, o.Holds d h k := by
  obtain ⟨g', hg', hfind⟩ := hm
  obtain ⟨g, hg, _, hhandles⟩ := hs.exists_group hg'
  have hmem : h ∈ g.handles := hhandles ▸ MarkerGroup.mem_handles.mpr ⟨m, hfind⟩
  obtain ⟨k, hk⟩ := MarkerGroup.mem_handles.mp hmem
  exact ⟨k, g, hg, hk⟩

/-- What is to be proved of a change: the screen allows its calls and mirrors what it leads to. -/
def Reflected (s : Screen) (x : Outcome) : Prop :=
  s.AllowsAll x.calls ∧ Mirrors (s.applyAll x.calls) x.1

theorem Mirrors.shows (hm : Mirrors s o) {d : Path} {h : Handle} {m : Marker}
    (hd : o.Holds d h m) : s.Shows d h := by
  obtain ⟨e, he, hed⟩ := (hm.live d h m).mpr hd
  exact ⟨e, m, he, hed⟩

/-- The markers of some groups, brought up to date with new values behind the same handles. -/
theorem Mirrors.updates (hm : Mirrors s o) (hs : SameShape o o')
    (hnext : o'.nextGroup = o.nextGroup) {us : List (Path × Handle × Marker)}
    (hd : (us.map (·.2.1)).Nodup) (hus : ∀ u ∈ us, o'.Holds u.1 u.2.1 u.2.2)
    (hrest : ∀ d h m, h ∉ us.map (·.2.1) → (o'.Holds d h m ↔ o.Holds d h m)) :
    s.AllowsAll (Screen.updates us) ∧ Mirrors (s.applyAll (Screen.updates us)) o' := by
  have hn := hs.numbered hnext hm.toNumbered
  have hlive : ∀ u ∈ us, s.Shows u.1 u.2.1 := fun u hu => by
    obtain ⟨k, hk⟩ := hs.exists_holds (hus u hu)
    exact hm.shows hk
  obtain ⟨hall, hin, hout⟩ := Screen.applyAll_updates hd hlive
  refine ⟨hall, hn, fun d h m => ?_⟩
  by_cases hmem : h ∈ us.map (·.2.1)
  · obtain ⟨u, hu, rfl⟩ := List.mem_map.mp hmem
    exact hn.live_iff (hin u hu) (hus u hu) d m
  · rw [hout h hmem, hrest d h m hmem]
    exact hm.live d h m

theorem calls_discard {d : Path} {g : MarkerGroup} (hg : o.groups.find? d = some g) :
    (o.discard d).calls = g.handles.map (.removeMarker d) := by
  rw [← MarkerGroup.map_fst_entries, List.map_map]
  unfold discard
  rw [hg]
  exact Outcome.calls_of_draw (fun e : Handle × Marker => .removeMarker d e.1) g.entries

theorem holds_discard {d e : Path} {h : Handle} {m : Marker} :
    (o.discard d).1.Holds e h m ↔ ¬e ≈ d ∧ o.Holds e h m := by
  unfold Holds
  rw [find?_discard]
  by_cases hed : e ≈ d
  · simp only [hed, if_true, not_true, false_and, reduceCtorEq, exists_false]
  · simp only [hed, if_false, not_false_eq_true, true_and]

theorem Numbered.discard (hn : Numbered o) (d : Path) : Numbered (o.discard d).1 where
  lt_next := by
    intro e g hg
    rw [find?_discard] at hg
    rw [nextGroup_discard]
    split at hg
    · cases hg
    · exact hn.lt_next hg
  inj := by
    intro e e' g g' hg hg' hnum
    rw [find?_discard] at hg hg'
    split at hg <;> split at hg' <;> try contradiction
    exact hn.inj hg hg' hnum

theorem mirrors_discard (hm : Mirrors s o) (d : Path) : Reflected s (o.discard d) := by
  unfold Reflected
  cases hg : o.groups.find? d with
  | none =>
    rw [discard_of_none hg]
    exact ⟨trivial, hm⟩
  | some g =>
    rw [calls_discard hg]
    refine ⟨Screen.allowsAll_remove (MarkerGroup.nodup_handlesOf _ _) fun h hmem => ?_,
      hm.toNumbered.discard d, fun e h m => ?_⟩
    · obtain ⟨m, hh⟩ := exists_holds_of_mem_handles hg hmem
      exact hm.shows hh
    · rw [Screen.live?_applyAll_remove, holds_discard]
      by_cases hmem : h ∈ g.handles
      · -- The handle is of the discarded group, so that no other group has it.
        obtain ⟨k, hk⟩ := exists_holds_of_mem_handles hg hmem
        rw [if_pos hmem]
        apply iff_of_false (by simp)
        exact fun ⟨hne, hh⟩ => hne (hm.unique hh hk).1
      · rw [if_neg hmem, hm.live, iff_and_self]
        intro hh hed
        exact hmem (mem_handles_of_holds hg ((holds_congr o hed h m).mp hh))

theorem calls_add (o : Overlay) (d : Path) (markers : List Marker) :
    (o.add d markers).calls =
      (MarkerGroup.entries { number := o.nextGroup, markers }).map
        fun e => .addMarker d e.1 e.2 :=
  Outcome.calls_of_draw (fun e : Handle × Marker => .addMarker d e.1 e.2) _

theorem Numbered.add (hn : Numbered o) (d : Path) (markers : List Marker) :
    Numbered (o.add d markers).1 where
  lt_next := by
    intro e g hg
    change g.number < o.nextGroup + 1
    rw [find?_add] at hg
    split at hg
    · cases hg
      exact Nat.lt_succ_self _
    · exact Nat.lt_succ_of_lt (hn.lt_next hg)
  inj := by
    intro e e' g g' hg hg' hnum
    rw [find?_add] at hg hg'
    split at hg <;> split at hg'
    · rename_i he he'
      exact Setoid.trans he (Setoid.symm he')
    · cases hg
      exact absurd (hnum ▸ hn.lt_next hg') (Nat.lt_irrefl _)
    · cases hg'
      exact absurd (hnum ▸ hn.lt_next hg) (Nat.lt_irrefl _)
    · exact hn.inj hg hg' hnum

/-- The handles of the next group are still free. -/
theorem Mirrors.live?_next (hm : Mirrors s o) {h : Handle} (hnext : h.group = o.nextGroup) :
    s.live? h = none := by
  apply Option.eq_none_iff_forall_ne_some.mpr
  rintro ⟨d, m⟩ hl
  obtain ⟨g, hg, hgm⟩ := (hm.live d h m).mp ⟨d, hl, Setoid.refl d⟩
  have hlt := hm.lt_next hg
  rw [← MarkerGroup.group_eq_of_find? hgm, hnext] at hlt
  exact Nat.lt_irrefl _ hlt

theorem mirrors_add (hm : Mirrors s o) {d : Path} (hfree : o.groups.find? d = none)
    (markers : List Marker) : Reflected s (o.add d markers) := by
  unfold Reflected
  let g : MarkerGroup := { number := o.nextGroup, markers }
  have hg : (o.add d markers).1.groups.find? d = some g :=
    (find?_add o d d markers).trans (if_pos (Setoid.refl d))
  have hn := hm.toNumbered.add d markers
  have hd : (g.entries.map (·.1)).Nodup := by
    rw [MarkerGroup.map_fst_entries]
    exact MarkerGroup.nodup_handlesOf _ _
  rw [calls_add]
  refine ⟨Screen.allowsAll_add hd fun h hmem => ?_, hn, fun e h m => ?_⟩
  · rw [MarkerGroup.map_fst_entries] at hmem
    exact hm.live?_next (MarkerGroup.mem_handlesOf.mp hmem).1
  · obtain ⟨hin, hout⟩ := Screen.live?_applyAll_add s d hd h
    by_cases hmem : h ∈ g.handles
    · obtain ⟨k, hk⟩ := MarkerGroup.mem_handles.mp hmem
      exact hn.live_iff (hin k (MarkerGroup.mem_entries.mpr hk)) ⟨g, hg, hk⟩ e m
    · rw [hout (by rwa [MarkerGroup.map_fst_entries]), hm.live]
      by_cases hed : e ≈ d
      · rw [holds_congr o hed, holds_congr _ hed]
        apply iff_of_false
        · rintro ⟨k, hk, _⟩
          rw [hfree] at hk
          cases hk
        · exact fun hh => hmem (mem_handles_of_holds hg hh)
      · unfold Holds
        rw [find?_add, if_neg hed]

theorem find?_disable (o : Overlay) (d e : Path) :
    (o.disable d).1.groups.find? e =
      if e ≈ d then (o.groups.find? e).map (·.disable o.theme) else o.groups.find? e := by
  have hcongr : e ≈ d → o.groups.find? e = o.groups.find? d := find?_congr o
  unfold disable
  split
  · rename_i hnone
    split
    · rename_i h
      rw [hcongr h, hnone]
      rfl
    · rfl
  · rename_i g hg
    split
    · simp only [SortedMap.find?_insert, Path.compare_eq_iff]
      split
      · rename_i h
        rw [hcongr h, hg]
        rfl
      · rfl
    · rename_i hoff
      split
      · rename_i h
        rw [hcongr h, hg]
        unfold MarkerGroup.disable
        rw [Option.map_some, if_neg hoff]
      · rfl

theorem sameShape_disable (o : Overlay) (d : Path) : SameShape o (o.disable d).1 := by
  intro e
  rw [find?_disable]
  split
  · rw [Option.map_map]
    congr 1
    funext g
    simp
  · rfl

theorem sameShape_restyle (o : Overlay) (theme : Theme) : SameShape o (o.restyle theme).1 := by
  intro e
  rw [find?_restyle, Option.map_map]
  congr 1
  funext g
  simp [MarkerGroup.restyle, MarkerGroup.size]

/-- The markers of one group, under a document. -/
def markersOf (d : Path) (g : MarkerGroup) : List (Path × Handle × Marker) :=
  g.entries.map (d, ·)

theorem map_handle_markersOf (d : Path) (g : MarkerGroup) :
    (markersOf d g).map (·.2.1) = g.handles := by
  unfold markersOf
  rw [List.map_map]
  exact g.map_fst_entries

theorem calls_disable {d : Path} {g : MarkerGroup} (hg : o.groups.find? d = some g)
    (hon : g.enabled = true) :
    (o.disable d).calls = Screen.updates (markersOf d (g.disable o.theme)) := by
  unfold Screen.updates markersOf disable
  rw [hg, List.map_map]
  simp only [hon, if_true]
  exact Outcome.calls_of_draw (fun e : Handle × Marker => .updateMarker d e.1 e.2) _

theorem exists_calls_disable (o : Overlay) (d : Path) :
    ∃ us, (o.disable d).calls = Screen.updates us := by
  by_cases hidle : ∀ g, o.groups.find? d = some g → g.enabled = false
  · rw [disable_of_idle hidle]
    exact ⟨[], rfl⟩
  · simp only [Classical.not_forall, Bool.not_eq_false] at hidle
    obtain ⟨g, hg, hon⟩ := hidle
    exact ⟨_, calls_disable hg hon⟩

theorem mirrors_disable (hm : Mirrors s o) (d : Path) : Reflected s (o.disable d) := by
  unfold Reflected
  by_cases hidle : ∀ g, o.groups.find? d = some g → g.enabled = false
  · rw [disable_of_idle hidle]
    exact ⟨trivial, hm⟩
  · simp only [Classical.not_forall, Bool.not_eq_false] at hidle
    obtain ⟨g, hg, hon⟩ := hidle
    rw [calls_disable hg hon]
    refine hm.updates (sameShape_disable o d) (nextGroup_disable o d) ?_ ?_ ?_
    · rw [map_handle_markersOf]
      exact MarkerGroup.nodup_handlesOf _ _
    · intro u hu
      obtain ⟨⟨h, m⟩, hmem, rfl⟩ := List.mem_map.mp hu
      refine ⟨g.disable o.theme, ?_, MarkerGroup.mem_entries.mp hmem⟩
      rw [find?_disable, if_pos (Setoid.refl d), hg, Option.map_some]
    · intro e h m hout
      rw [map_handle_markersOf, MarkerGroup.handles_disable] at hout
      by_cases hed : e ≈ d
      · have hnone : ∀ k, ¬o.Holds d h k := fun k hk => hout (mem_handles_of_holds hg hk)
        rw [holds_congr _ hed, holds_congr o hed]
        refine iff_of_false (fun hh => ?_) (hnone m)
        obtain ⟨k, hk⟩ := (sameShape_disable o d).exists_holds hh
        exact hnone k hk
      · unfold Holds
        rw [find?_disable, if_neg hed]

theorem mem_markers (o : Overlay) {d : Path} {h : Handle} {m : Marker} :
    (d, h, m) ∈ o.markers ↔ ∃ g, (d, g) ∈ o.groups.entries ∧ g.find? h = some m := by
  unfold markers
  rw [List.mem_flatMap]
  constructor
  · rintro ⟨⟨e, g⟩, hg, hmem⟩
    obtain ⟨⟨h', m'⟩, hx, heq⟩ := List.mem_map.mp hmem
    cases heq
    exact ⟨g, hg, MarkerGroup.mem_entries.mp hx⟩
  · rintro ⟨g, hg, hm⟩
    exact ⟨(d, g), hg, List.mem_map.mpr ⟨(h, m), MarkerGroup.mem_entries.mpr hm, rfl⟩⟩

theorem holds_of_mem_markers {d : Path} {h : Handle} {m : Marker} (hmem : (d, h, m) ∈ o.markers) :
    o.Holds d h m := by
  obtain ⟨g, hg, hm⟩ := o.mem_markers.mp hmem
  exact ⟨g, SortedMap.find?_of_mem hg, hm⟩

/-- Every marker is among all, under some spelling of its document. -/
theorem exists_mem_markers {d : Path} {h : Handle} {m : Marker} (hh : o.Holds d h m) :
    ∃ e, d ≈ e ∧ (e, h, m) ∈ o.markers := by
  obtain ⟨g, hg, hm⟩ := hh
  obtain ⟨e, hde, hmem⟩ := SortedMap.exists_mem_of_find? hg
  exact ⟨e, Path.compare_eq_iff.mp hde, o.mem_markers.mpr ⟨g, hmem, hm⟩⟩

theorem map_handle_markers (o : Overlay) :
    o.markers.map (·.2.1) = o.groups.values.flatMap MarkerGroup.handles := by
  unfold markers SortedMap.values
  rw [List.map_flatMap, List.flatMap_map]
  congr 1
  funext e
  exact map_handle_markersOf e.1 e.2

theorem Numbered.nodup_handles (hn : Numbered o) : (o.markers.map (·.2.1)).Nodup := by
  rw [map_handle_markers]
  refine List.pairwise_flatMap.mpr ⟨fun g _ => MarkerGroup.nodup_handlesOf _ _, ?_⟩
  unfold SortedMap.values
  rw [List.pairwise_map]
  apply o.groups.sorted.imp_of_mem
  intro a b ha hb hlt
  have hne : a.2.number ≠ b.2.number := fun heq => by
    have hab := hn.inj (SortedMap.find?_of_mem ha) (SortedMap.find?_of_mem hb) heq
    rw [Path.compare_eq_iff.mpr hab] at hlt
    cases hlt
  intro h hh k hk heq
  rw [heq] at hh
  exact hne ((MarkerGroup.mem_handlesOf.mp hh).1.symm.trans (MarkerGroup.mem_handlesOf.mp hk).1)

theorem calls_restyle (o : Overlay) (theme : Theme) :
    (o.restyle theme).calls = Screen.updates (o.restyle theme).1.markers := by
  unfold Outcome.calls Screen.updates markers restyle
  dsimp only
  rw [List.filterMap_flatMap, List.map_flatMap]
  congr 1
  funext e
  rw [List.filterMap_map, List.map_map]
  exact congrFun List.filterMap_eq_map _

theorem mirrors_restyle (hm : Mirrors s o) (theme : Theme) : Reflected s (o.restyle theme) := by
  unfold Reflected
  have hs := sameShape_restyle o theme
  have hn : Numbered (o.restyle theme).1 := hs.numbered rfl hm.toNumbered
  rw [calls_restyle]
  refine hm.updates hs rfl hn.nodup_handles (fun u hu => holds_of_mem_markers hu) ?_
  intro d h m hout
  have hnone : ∀ k, ¬(o.restyle theme).1.Holds d h k := fun k hk => by
    obtain ⟨e, _, hmem⟩ := exists_mem_markers hk
    exact hout (List.mem_map.mpr ⟨(e, h, k), hmem, rfl⟩)
  refine iff_of_false (hnone m) fun hh => ?_
  obtain ⟨k, hk⟩ := hs.symm.exists_holds hh
  exact hnone k hk

theorem Mirrors.start (settings : Settings) : Mirrors {} (Overlay.start settings) where
  lt_next := by
    intro d g hg
    cases hg
  inj := by
    intro d e g k hg
    cases hg
  live := by
    intro d h m
    apply iff_of_false
    · rintro ⟨e, he, _⟩
      cases he
    · rintro ⟨g, hg, _⟩
      cases hg

/-- Markers that neither the overlay nor the screen has touched. -/
theorem Mirrors.of_eq {t : Screen} (hm : Mirrors s o) (hgroups : o'.groups = o.groups)
    (hnext : o'.nextGroup = o.nextGroup) (hscreen : t.byHandle = s.byHandle) : Mirrors t o' where
  lt_next := by
    rw [hgroups, hnext]
    exact hm.lt_next
  inj := by
    rw [hgroups]
    exact hm.inj
  live := by
    unfold Holds Screen.live?
    rw [hgroups, hscreen]
    exact hm.live

theorem Change.reflected {x : Outcome} (hx : Change o x) (hm : Mirrors s o) : Reflected s x := by
  induction hx generalizing s with
  | keep groups next paints =>
    obtain ⟨hall, hscreen⟩ := Screen.allowsAll_paint (s := s) paints
    exact ⟨hall, hm.of_eq groups next hscreen⟩
  | discard o d => exact mirrors_discard hm d
  | add free _ => exact mirrors_add hm free _
  | disable o d => exact mirrors_disable hm d
  | restyle o theme => exact mirrors_restyle hm theme
  | andThen _ _ first second =>
    obtain ⟨hall, hfirst⟩ := first hm
    obtain ⟨hrest, hsecond⟩ := second hfirst
    unfold Reflected
    rw [Outcome.calls_andThen, Screen.applyAll_append]
    exact ⟨Screen.allowsAll_append.mpr ⟨hall, hrest⟩, hsecond⟩

end Marginalia.Overlay
