import Marginalia.SortedMap

/-! Look-up against the entries of a sorted map, and what an insertion or a removal does to its
keys. -/
namespace Marginalia.SortedMap

variable {κ ν μ : Type} [Ord κ]

theorem isEmpty_iff (m : SortedMap κ ν) : m.isEmpty = true ↔ m.entries = [] := by
  unfold isEmpty
  exact List.isEmpty_iff

theorem exists_mem_of_find? {m : SortedMap κ ν} {k : κ} {v : ν} (h : m.find? k = some v) :
    ∃ j, compare k j = .eq ∧ (j, v) ∈ m.entries := by
  unfold find? at h
  obtain ⟨e, he, rfl⟩ := Option.map_eq_some_iff.mp h
  have hk := List.find?_some he
  exact ⟨e.1, by simpa using hk, List.mem_of_find?_eq_some he⟩

theorem exists_key_of_find? {m : SortedMap κ ν} {k : κ} {v : ν} (h : m.find? k = some v) :
    ∃ j ∈ m.keys, compare k j = .eq := by
  obtain ⟨j, hj, hmem⟩ := exists_mem_of_find? h
  exact ⟨j, List.mem_map.mpr ⟨(j, v), hmem, rfl⟩, hj⟩

theorem pairwise_keys (m : SortedMap κ ν) :
    m.keys.Pairwise (fun j k => compare j k = .lt) :=
  List.pairwise_map.mpr m.sorted

theorem find?_eq_none_iff {m : SortedMap κ ν} {k : κ} :
    m.find? k = none ↔ ∀ j ∈ m.keys, compare k j ≠ .eq := by
  simp [find?, keys]

private theorem insertEntry_perm (k : κ) (v : ν) {es : List (κ × ν)}
    (h : ∀ e ∈ es, compare k e.1 ≠ .eq) : (insertEntry k v es).Perm ((k, v) :: es) := by
  induction es with
  | nil => exact List.Perm.refl _
  | cons e es ih =>
    simp only [insertEntry]
    split
    · exact List.Perm.refl _
    · rename_i heq
      exact absurd heq (h e List.mem_cons_self)
    · have hrest := ih fun x hx => h x (List.mem_cons_of_mem _ hx)
      exact (hrest.cons e).trans (List.Perm.swap _ _ _)

variable [Std.TransOrd κ]

theorem nodup_keys (m : SortedMap κ ν) : m.keys.Nodup := by
  apply m.pairwise_keys.imp
  intro j k hlt heq
  have hself : compare k k = .eq := Std.ReflCmp.compare_self
  rw [heq, hself] at hlt
  cases hlt

/-- Two entries whose keys compare equal are one entry. -/
theorem eq_of_mem_of_compare_eq {es : List (κ × ν)}
    (hs : es.Pairwise (fun a b => compare a.1 b.1 = .lt)) {a b : κ × ν}
    (ha : a ∈ es) (hb : b ∈ es) (h : compare a.1 b.1 = .eq) : a = b := by
  induction es with
  | nil => cases ha
  | cons e es ih =>
    have hc := List.pairwise_cons.mp hs
    rcases List.mem_cons.mp ha with rfl | ha' <;> rcases List.mem_cons.mp hb with rfl | hb'
    · rfl
    · rw [hc.1 b hb'] at h
      cases h
    · have hlt := hc.1 a ha'
      rw [Std.OrientedCmp.eq_comm] at h
      rw [h] at hlt
      cases hlt
    · exact ih hc.2 ha' hb'

theorem find?_eq_some_iff {m : SortedMap κ ν} {k : κ} {v : ν} :
    m.find? k = some v ↔ ∃ j, compare k j = .eq ∧ (j, v) ∈ m.entries := by
  refine ⟨exists_mem_of_find?, ?_⟩
  rintro ⟨j, hj, hmem⟩
  have hsome : (m.entries.find? fun e => compare k e.1 == .eq).isSome = true :=
    List.find?_isSome.mpr ⟨(j, v), hmem, by simpa using hj⟩
  obtain ⟨e, he⟩ := Option.isSome_iff_exists.mp hsome
  have hk : compare k e.1 = .eq := by simpa using List.find?_some he
  have hej : compare e.1 j = .eq := Std.TransCmp.eq_trans (Std.OrientedCmp.eq_symm hk) hj
  have heq := eq_of_mem_of_compare_eq m.sorted (List.mem_of_find?_eq_some he) hmem hej
  unfold find?
  rw [he, heq]
  rfl

theorem find?_of_mem {m : SortedMap κ ν} {k : κ} {v : ν} (h : (k, v) ∈ m.entries) :
    m.find? k = some v :=
  find?_eq_some_iff.mpr ⟨k, Std.ReflCmp.compare_self, h⟩

/-- Lists in ascending key order with the same members are one list. -/
theorem eq_of_mem_iff {es fs : List (κ × ν)}
    (he : es.Pairwise (fun a b => compare a.1 b.1 = .lt))
    (hf : fs.Pairwise (fun a b => compare a.1 b.1 = .lt)) (h : ∀ x, x ∈ es ↔ x ∈ fs) :
    es = fs := by
  have hirrefl : ∀ a : κ × ν, compare a.1 a.1 ≠ .lt := fun a hlt => by
    have hself : compare a.1 a.1 = .eq := Std.ReflCmp.compare_self
    rw [hself] at hlt
    cases hlt
  have hnodup : ∀ {xs : List (κ × ν)}, xs.Pairwise (fun a b => compare a.1 b.1 = .lt) →
      xs.Nodup := fun hxs => hxs.imp fun {a b} hlt (heq : a = b) => by
    subst heq
    exact hirrefl a hlt
  have hperm := (List.perm_ext_iff_of_nodup (hnodup he) (hnodup hf)).mpr h
  refine hperm.eq_of_pairwise (fun a b _ _ hab hba => ?_) he hf
  exact absurd (Std.TransCmp.lt_trans hab hba) (hirrefl a)

theorem entries_eq_nil_iff (m : SortedMap κ ν) : m.entries = [] ↔ ∀ k, m.find? k = none := by
  constructor
  · intro h k
    simp [find?, h]
  · intro h
    rw [List.eq_nil_iff_forall_not_mem]
    intro e he
    have hsome : m.find? e.1 = some e.2 := find?_of_mem he
    rw [h] at hsome
    cases hsome

/-- An insertion meets the value under its key before it meets a greater key. -/
theorem displaced?_eq_find? (m : SortedMap κ ν) (k : κ) : displaced? k m.entries = m.find? k := by
  have hs := m.sorted
  unfold find?
  generalize m.entries = es at hs
  induction es with
  | nil => rfl
  | cons e es ih =>
    have hc := List.pairwise_cons.mp hs
    unfold displaced?
    split
    · rename_i hlt
      have hnone : (e :: es).find? (fun x => compare k x.1 == .eq) = none := by
        rw [List.find?_eq_none]
        intro x hx
        rcases List.mem_cons.mp hx with rfl | hx
        · simp [hlt]
        · simp [Std.TransCmp.lt_trans hlt (hc.1 x hx)]
      rw [hnone]
      rfl
    · rename_i heq
      simp [heq]
    · rename_i hgt
      rw [ih hc.2, List.find?_cons, hgt]
      rfl

private theorem map_fst_insertEntry_of_mem (k : κ) (v : ν) {es : List (κ × ν)}
    (hs : es.Pairwise (fun a b => compare a.1 b.1 = .lt))
    (h : ∃ e ∈ es, compare k e.1 = .eq) :
    (insertEntry k v es).map (·.1) = es.map (·.1) := by
  induction es with
  | nil =>
    obtain ⟨e, he, _⟩ := h
    cases he
  | cons e es ih =>
    have hc := List.pairwise_cons.mp hs
    obtain ⟨x, hx, hkx⟩ := h
    simp only [insertEntry]
    split
    · rename_i hlt
      rcases List.mem_cons.mp hx with rfl | hx
      · rw [hlt] at hkx
        cases hkx
      · rw [Std.TransCmp.lt_trans hlt (hc.1 x hx)] at hkx
        cases hkx
    · rfl
    · rename_i hgt
      rcases List.mem_cons.mp hx with rfl | hx
      · rw [hgt] at hkx
        cases hkx
      · simp only [List.map_cons, ih hc.2 ⟨x, hx, hkx⟩]

/-- A value put under a key that is there keeps all keys as they are spelled. -/
theorem keys_insert_of_find? {m : SortedMap κ ν} {k : κ} {u : ν} (h : m.find? k = some u)
    (v : ν) : (m.insert k v).keys = m.keys := by
  obtain ⟨j, hj, hmem⟩ := exists_mem_of_find? h
  exact map_fst_insertEntry_of_mem k v m.sorted ⟨(j, u), hmem, hj⟩

theorem keys_insert_perm {m : SortedMap κ ν} {k : κ} (h : m.find? k = none) (v : ν) :
    (m.insert k v).keys.Perm (k :: m.keys) := by
  have hne : ∀ e ∈ m.entries, compare k e.1 ≠ .eq := fun e he =>
    find?_eq_none_iff.mp h e.1 (List.mem_map.mpr ⟨e, he, rfl⟩)
  exact (insertEntry_perm k v hne).map _

theorem keys_erase_perm [DecidableEq κ] [Std.LawfulEqOrd κ] {m : SortedMap κ ν} {k : κ} {v : ν}
    (h : m.find? k = some v) : m.keys.Perm (k :: (m.erase k).keys) := by
  have hmem : k ∈ m.keys := by
    obtain ⟨j, hj, heq⟩ := exists_key_of_find? h
    rwa [Std.LawfulEqOrd.eq_of_compare heq]
  have hkeys : (m.erase k).keys = m.keys.erase k := by
    rw [m.nodup_keys.erase_eq_filter]
    unfold keys erase
    rw [List.filter_map]
    congr 1
    apply List.filter_congr
    intro e _
    change (compare k e.1 != .eq) = (e.1 != k)
    by_cases he : e.1 = k
    · simp [he]
    · have hne : compare k e.1 ≠ .eq := fun heq => he (Std.LawfulEqOrd.eq_of_compare heq).symm
      rw [bne_iff_ne.mpr hne, bne_iff_ne.mpr he]
  rw [hkeys]
  exact List.perm_cons_erase hmem

end Marginalia.SortedMap
