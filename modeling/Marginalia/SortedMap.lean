/-! Finite maps as lists of entries in strictly ascending key order. Keys that compare equal need
not be equal: an entry keeps the key under which it was first inserted, and `find?_insert` holds
for every pair of keys. -/
namespace Marginalia

structure SortedMap (κ ν : Type) [Ord κ] where
  entries : List (κ × ν) := []
  sorted : entries.Pairwise (fun a b => compare a.1 b.1 = .lt) := by exact List.Pairwise.nil

namespace SortedMap

variable {κ ν μ : Type} [Ord κ]

instance : Inhabited (SortedMap κ ν) := ⟨{}⟩

def find? (m : SortedMap κ ν) (k : κ) : Option ν :=
  (m.entries.find? fun e => compare k e.1 == .eq).map (·.2)

def contains (m : SortedMap κ ν) (k : κ) : Bool := (m.find? k).isSome

def size (m : SortedMap κ ν) : Nat := m.entries.length

def isEmpty (m : SortedMap κ ν) : Bool := m.entries.isEmpty

def keys (m : SortedMap κ ν) : List κ := m.entries.map (·.1)

def values (m : SortedMap κ ν) : List ν := m.entries.map (·.2)

/-- Values change, keys and their order stay. -/
def map (f : ν → μ) (m : SortedMap κ ν) : SortedMap κ μ where
  entries := m.entries.map fun e => (e.1, f e.2)
  sorted := List.pairwise_map.mpr m.sorted

def erase (m : SortedMap κ ν) (k : κ) : SortedMap κ ν where
  entries := m.entries.filter fun e => compare k e.1 != .eq
  sorted := m.sorted.filter _

theorem find?_map (f : ν → μ) (m : SortedMap κ ν) (k : κ) :
    (m.map f).find? k = (m.find? k).map f := by
  simp only [find?, map, List.find?_map, Option.map_map]
  rfl

/-- Put an entry in its place, or replace the value under an equal key and keep that key. -/
def insertEntry (k : κ) (v : ν) : List (κ × ν) → List (κ × ν)
  | [] => [(k, v)]
  | e :: es =>
    match compare k e.1 with
    | .lt => (k, v) :: e :: es
    | .eq => (e.1, v) :: es
    | .gt => e :: insertEntry k v es

theorem mem_insertEntry {k : κ} {v : ν} {es : List (κ × ν)} {x : κ × ν}
    (h : x ∈ insertEntry k v es) : x.1 = k ∨ ∃ y ∈ es, x.1 = y.1 := by
  induction es with
  | nil => simp_all [insertEntry]
  | cons e es ih =>
    simp only [insertEntry] at h
    split at h
    · rcases List.mem_cons.mp h with rfl | h
      · exact .inl rfl
      · exact .inr ⟨x, h, rfl⟩
    · rcases List.mem_cons.mp h with rfl | h
      · exact .inr ⟨e, List.mem_cons_self, rfl⟩
      · exact .inr ⟨x, List.mem_cons_of_mem _ h, rfl⟩
    · rcases List.mem_cons.mp h with rfl | h
      · exact .inr ⟨x, List.mem_cons_self, rfl⟩
      · rcases ih h with h | ⟨y, hy, h⟩
        · exact .inl h
        · exact .inr ⟨y, List.mem_cons_of_mem _ hy, h⟩

variable [Std.TransOrd κ]

theorem sorted_insertEntry (k : κ) (v : ν) {es : List (κ × ν)}
    (h : es.Pairwise (fun a b => compare a.1 b.1 = .lt)) :
    (insertEntry k v es).Pairwise (fun a b => compare a.1 b.1 = .lt) := by
  induction es with
  | nil => simp [insertEntry]
  | cons e es ih =>
    have hc := List.pairwise_cons.mp h
    simp only [insertEntry]
    split
    · rename_i hlt
      refine List.pairwise_cons.mpr ⟨fun x hx => ?_, h⟩
      rcases List.mem_cons.mp hx with rfl | hx
      · exact hlt
      · exact Std.TransCmp.lt_trans hlt (hc.1 x hx)
    · exact List.pairwise_cons.mpr ⟨hc.1, hc.2⟩
    · rename_i hgt
      refine List.pairwise_cons.mpr ⟨fun x hx => ?_, ih hc.2⟩
      rcases mem_insertEntry hx with hx | ⟨y, hy, hx⟩
      · rw [hx]
        exact Std.OrientedCmp.lt_of_gt hgt
      · rw [hx]
        exact hc.1 y hy

def insert (m : SortedMap κ ν) (k : κ) (v : ν) : SortedMap κ ν where
  entries := insertEntry k v m.entries
  sorted := sorted_insertEntry k v m.sorted

/-- The value that an insertion takes the place of, looked for as far as the insertion goes. -/
def displaced? (k : κ) : List (κ × ν) → Option ν
  | [] => none
  | e :: es =>
    match compare k e.1 with
    | .lt => none
    | .eq => some e.2
    | .gt => displaced? k es

/-- Insert, and give back the value that was there under an equal key. -/
def exchange (m : SortedMap κ ν) (k : κ) (v : ν) : SortedMap κ ν × Option ν :=
  (m.insert k v, displaced? k m.entries)

theorem find?_congr (m : SortedMap κ ν) {j k : κ} (h : compare j k = .eq) :
    m.find? j = m.find? k := by
  simp only [find?, Std.TransCmp.congr_left h]

theorem find?_insert (m : SortedMap κ ν) (k : κ) (v : ν) (j : κ) :
    (m.insert k v).find? j = if compare j k = .eq then some v else m.find? j := by
  simp only [find?, insert]
  induction m.entries with
  | nil => by_cases h : compare j k = .eq <;> simp [insertEntry, h]
  | cons e es ih =>
    simp only [insertEntry]
    split
    · by_cases h : compare j k = .eq <;> simp [h]
    · rename_i he
      have hj : compare j e.1 = compare j k := (Std.TransCmp.congr_right he).symm
      by_cases h : compare j k = .eq <;> simp [hj, h]
    · rename_i hgt
      by_cases hj : compare j e.1 = .eq
      · have hk : compare j k ≠ .eq := fun h => by
          have := Std.TransCmp.eq_trans (Std.OrientedCmp.eq_symm h) hj
          rw [hgt] at this
          cases this
        simp [hj, hk]
      · have hb : (compare j e.1 == .eq) = false := by simpa using hj
        simpa only [List.find?_cons, hb] using ih

theorem find?_erase (m : SortedMap κ ν) (k j : κ) :
    (m.erase k).find? j = if compare j k = .eq then none else m.find? j := by
  simp only [find?, erase, List.find?_filter]
  split
  · rename_i h
    rw [Option.map_eq_none_iff, List.find?_eq_none]
    intro e _
    rw [Std.TransCmp.congr_left (Std.OrientedCmp.eq_symm h)]
    cases compare j e.1 <;> decide
  · rename_i h
    congr 2
    funext e
    by_cases hj : compare j e.1 = .eq
    · have hk : compare k e.1 ≠ .eq := fun hk =>
        h (Std.TransCmp.eq_trans hj (Std.OrientedCmp.eq_symm hk))
      simp [hj, hk]
    · simp [hj]

end SortedMap

end Marginalia
