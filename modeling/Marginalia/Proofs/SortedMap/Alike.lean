import Mathlib.Data.List.Forall2
import Marginalia.Proofs.SortedMap

/-! Maps that differ in the way in which their keys are spelled. Whatever is done to both of them,
under keys that compare equal, leaves them alike. -/
namespace Marginalia.SortedMap

variable {κ ν μ : Type} [Ord κ]

/-- Entry by entry, the keys compare equal and the values are related. -/
def Alike (V : ν → ν → Prop) (m n : SortedMap κ ν) : Prop :=
  List.Forall₂ (fun a b => compare a.1 b.1 = .eq ∧ V a.2 b.2) m.entries n.entries

variable {V : ν → ν → Prop} {m n : SortedMap κ ν}

theorem Alike.empty : Alike V ({} : SortedMap κ ν) {} := List.Forall₂.nil

theorem Alike.size_eq (h : m.Alike V n) : m.size = n.size := h.length_eq

theorem Alike.isEmpty_eq (h : m.Alike V n) : m.isEmpty = n.isEmpty := by
  unfold Alike at h
  unfold isEmpty
  generalize m.entries = es, n.entries = fs at h
  cases h <;> rfl

theorem Alike.keys (h : m.Alike V n) :
    List.Forall₂ (fun j k => compare j k = .eq) m.keys n.keys :=
  List.rel_map (fun _ _ hab => hab.1) h

theorem Alike.values (h : m.Alike V n) : List.Forall₂ V m.values n.values :=
  List.rel_map (fun _ _ hab => hab.2) h

theorem Alike.map {W : μ → μ → Prop} {f : ν → μ} (h : m.Alike V n)
    (hf : ∀ v w, V v w → W (f v) (f w)) : (m.map f).Alike W (n.map f) :=
  List.rel_map (fun _ _ hab => ⟨hab.1, hf _ _ hab.2⟩) h

variable [Std.TransOrd κ] {j k : κ}

/-- Keys that compare equal compare in one way to keys that compare equal. -/
theorem compare_congr {a b : κ} (hjk : compare j k = .eq) (hab : compare a b = .eq) :
    compare j a = compare k b :=
  (Std.TransCmp.congr_left hjk).trans (Std.TransCmp.congr_right hab)

theorem Alike.find? (h : m.Alike V n) (hjk : compare j k = .eq) :
    Option.Rel V (m.find? j) (n.find? k) := by
  unfold Alike at h
  unfold SortedMap.find?
  generalize m.entries = es, n.entries = fs at h
  induction h with
  | nil => exact .none
  | cons hab _ ih =>
    rw [List.find?_cons, List.find?_cons, compare_congr hjk hab.1]
    split
    · exact .some hab.2
    · exact ih

theorem Alike.find?_eq (h : m.Alike Eq n) (hjk : compare j k = .eq) : m.find? j = n.find? k := by
  have hrel := h.find? hjk
  generalize m.find? j = v, n.find? k = w at hrel
  cases hrel with
  | none => rfl
  | some heq => exact congrArg some heq

theorem Alike.contains_eq (h : m.Alike V n) (hjk : compare j k = .eq) :
    m.contains j = n.contains k := by
  have hrel := h.find? hjk
  unfold contains
  generalize m.find? j = v, n.find? k = w at hrel
  cases hrel <;> rfl

theorem Alike.erase (h : m.Alike V n) (hjk : compare j k = .eq) :
    (m.erase j).Alike V (n.erase k) :=
  List.rel_filter (fun _ _ hab => by simp only [compare_congr hjk hab.1]) h

theorem Alike.insert (h : m.Alike V n) (hjk : compare j k = .eq) {v w : ν} (hvw : V v w) :
    (m.insert j v).Alike V (n.insert k w) := by
  unfold Alike at h ⊢
  unfold SortedMap.insert
  dsimp only
  generalize m.entries = es, n.entries = fs at h
  induction h with
  | nil => exact .cons ⟨hjk, hvw⟩ .nil
  | cons hab htail ih =>
    -- Both insertions go the same way at every entry.
    unfold insertEntry
    rw [compare_congr hjk hab.1]
    split
    · exact .cons ⟨hjk, hvw⟩ (.cons hab htail)
    · exact .cons ⟨hab.1, hvw⟩ htail
    · exact .cons hab ih

/-- A map that has one entry at most for keys that are the same, and finds it under all of them. -/
structure KeyedBy (same : κ → κ → Prop) (m : SortedMap κ ν) : Prop where
  apart : m.keys.Pairwise fun j k => ¬same j k
  found : ∀ k v, m.find? k = some v ↔ ∃ j, same k j ∧ (j, v) ∈ m.entries

theorem KeyedBy.of_compare (m : SortedMap κ ν) {same : κ → κ → Prop}
    (h : ∀ j k, compare j k = .eq ↔ same j k) : m.KeyedBy same where
  apart := m.pairwise_keys.imp fun hlt hsame => by
    rw [(h _ _).mpr hsame] at hlt
    cases hlt
  found k v := by
    simp only [← h]
    exact find?_eq_some_iff

end Marginalia.SortedMap
