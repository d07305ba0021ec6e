import Marginalia.Proofs.Report
import Mathlib.Data.Finset.Card
import Mathlib.Data.List.DropRight

/-! Reports against the history that made them. What was told since the last clearing decides all that
can be asked: of each document the last report counts, under the spelling of the first, whatever
spellings came in between (`records_updateAll`). -/
namespace Marginalia.Reports

inductive Update where
  | replace (document : Path) (report : Report)
  | clear

/-- What an update tells of a document. -/
def Update.told? : Update → Option (Path × Report)
  | replace document report => some (document, report)
  | clear => none

/-- The reports after an update, with the one that it replaced. -/
def update (r : Reports) : Update → Reports × Option Report
  | .replace document report => r.exchange document report
  | .clear => (default, none)

def updateAll (r : Reports) (updates : List Update) : Reports :=
  updates.foldl (fun r u => (r.update u).1) r

/-- What was told since the last clearing, in order. -/
def sinceClear (updates : List Update) : List (Path × Report) :=
  (updates.rtakeWhile (·.told?.isSome)).filterMap Update.told?

/-- Reports are those that entries leave behind that came one after the other. -/
structure Records (r : Reports) (entries : List (Path × Report)) : Prop where
  found : ∀ d, r.find? d = ((entries.filter (·.1 ≈ d)).getLast?).map (·.2)
  missing : ∀ d, r.find? d = none ↔ ∀ e ∈ entries, ¬e.1 ≈ d
  given : ∀ d report, (r.update (.replace d report)).2 = r.find? d
  ascending : r.documents.Pairwise fun p q => compare p.components q.components = .lt
  /-- A document keeps the spelling of its first entry. -/
  spelled : ∀ p, p ∈ r.documents ↔ (entries.map (·.1)).find? (· ≈ p) = some p
  once : ∀ e ∈ entries, ∃! p, p ∈ r.documents ∧ p ≈ e.1
  counted : r.size = (entries.map (·.1.components)).toFinset.card
  current : ∀ d live ds, r.current? d live = some ds ↔
    ∃ report, r.find? d = some report ∧ report.diagnostics = ds ∧
      (report.revision = none ∨ report.revision = live)

variable {r : Reports} {entries : List (Path × Report)} {updates : List Update}

/-- One more path is the first of its kind only if there was none of its kind. -/
theorem find?_concat_eq_some_iff (ps : List Path) (d p : Path) :
    (ps ++ [d]).find? (· ≈ p) = some p ↔
      ps.find? (· ≈ p) = some p ∨ p = d ∧ ∀ q ∈ ps, ¬q ≈ d := by
  rw [List.find?_append]
  cases hfirst : ps.find? (· ≈ p) with
  | some q =>
    have hq : q ≈ p := by simpa using List.find?_some hfirst
    rw [Option.some_or]
    refine ⟨.inl, fun h => h.resolve_right ?_⟩
    rintro ⟨rfl, hnone⟩
    exact hnone q (List.mem_of_find?_eq_some hfirst) hq
  | none =>
    have hnone : ∀ q ∈ ps, ¬q ≈ p := by simpa using hfirst
    rw [Option.none_or, List.find?_singleton]
    constructor
    · intro h
      obtain rfl : d = p := by simpa using (Option.ite_none_right_eq_some.mp h).2
      exact .inr ⟨rfl, hnone⟩
    · rintro (h | ⟨rfl, -⟩)
      · cases h
      · exact if_pos (decide_eq_true (Setoid.refl p))

/-- The part of a history on which the next update depends. -/
structure Keeps (r : Reports) (entries : List (Path × Report)) : Prop where
  found : ∀ d, r.find? d = ((entries.filter (·.1 ≈ d)).getLast?).map (·.2)
  spelled : ∀ p, p ∈ r.documents ↔ (entries.map (·.1)).find? (· ≈ p) = some p

theorem keeps_empty : Keeps {} [] where
  found _ := rfl
  spelled p := by simp [documents, SortedMap.keys]

theorem Keeps.missing (h : r.Keeps entries) (d : Path) :
    r.find? d = none ↔ ∀ e ∈ entries, ¬e.1 ≈ d := by
  rw [h.found, Option.map_eq_none_iff, List.getLast?_eq_none_iff, List.filter_eq_nil_iff]
  simp

theorem Keeps.replace (h : r.Keeps entries) (d : Path) (report : Report) :
    (r.replace d report).Keeps (entries ++ [(d, report)]) where
  found e := by
    rw [find?_replace, List.filter_append]
    by_cases hed : e ≈ d
    · have hlast : [(d, report)].filter (·.1 ≈ e) = [(d, report)] :=
        List.filter_cons_of_pos (decide_eq_true (Setoid.symm hed))
      rw [if_pos hed, hlast, List.getLast?_concat, Option.map_some]
    · have hnone : [(d, report)].filter (·.1 ≈ e) = [] :=
        List.filter_cons_of_neg (mt of_decide_eq_true fun hde => hed (Setoid.symm hde))
      rw [if_neg hed, hnone, List.append_nil, h.found]
  spelled p := by
    have hmissing : r.find? d = none ↔ ∀ q ∈ entries.map (·.1), ¬q ≈ d := by
      rw [h.missing, List.forall_mem_map]
    rw [List.map_append, List.map_singleton, find?_concat_eq_some_iff, ← hmissing, ← h.spelled]
    cases hd : r.find? d with
    | some old =>
      have hkeys : (r.replace d report).documents = r.documents :=
        SortedMap.keys_insert_of_find? hd report
      rw [hkeys]
      simp
    | none =>
      have hkeys : (r.replace d report).documents.Perm (d :: r.documents) :=
        SortedMap.keys_insert_perm hd report
      rw [hkeys.mem_iff, List.mem_cons]
      simp [or_comm]

theorem Keeps.update (h : r.Keeps (sinceClear updates)) (u : Update) :
    (r.update u).1.Keeps (sinceClear (updates ++ [u])) := by
  unfold sinceClear
  rw [List.rtakeWhile_concat]
  cases u with
  | replace d report =>
    simp only [Reports.update, exchange_eq]
    simpa [sinceClear, Update.told?] using h.replace d report
  | clear => exact keeps_empty

theorem updateAll_concat (r : Reports) (updates : List Update) (u : Update) :
    r.updateAll (updates ++ [u]) = ((r.updateAll updates).update u).1 :=
  List.foldl_concat _ _ _ _

theorem keeps_updateAll (updates : List Update) :
    (updateAll {} updates).Keeps (sinceClear updates) := by
  induction updates using List.reverseRecOn with
  | nil => exact keeps_empty
  | append_singleton updates u ih =>
    rw [updateAll_concat]
    exact ih.update u

section Counting

/-- Documents that are the same are spelled the same. -/
theorem eq_of_mem_documents {p q : Path} (hp : p ∈ r.documents) (hq : q ∈ r.documents)
    (h : p ≈ q) : p = q := by
  obtain ⟨x, hx, rfl⟩ := List.mem_map.mp hp
  obtain ⟨y, hy, rfl⟩ := List.mem_map.mp hq
  have hxy := SortedMap.eq_of_mem_of_compare_eq r.byDocument.sorted hx hy
    (Path.compare_eq_iff.mpr h)
  exact congrArg Prod.fst hxy

theorem Keeps.mem_components_iff (h : r.Keeps entries) (c : List Component) :
    c ∈ r.documents.map (·.components) ↔ c ∈ entries.map (·.1.components) := by
  simp only [List.mem_map]
  constructor
  · rintro ⟨p, hp, rfl⟩
    have hfirst := List.mem_of_find?_eq_some ((h.spelled p).mp hp)
    obtain ⟨e, he, rfl⟩ := List.mem_map.mp hfirst
    exact ⟨e, he, rfl⟩
  · rintro ⟨e, he, rfl⟩
    have hsome : (r.find? e.1).isSome = true := by
      rw [Option.isSome_iff_ne_none]
      exact fun hnone => (h.missing e.1).mp hnone e he (Setoid.refl e.1)
    obtain ⟨p, hp, hep⟩ := (r.exists_document_iff e.1).mpr hsome
    exact ⟨p, hp, hep.symm⟩

theorem Keeps.once (h : r.Keeps entries) {e : Path × Report} (he : e ∈ entries) :
    ∃! p, p ∈ r.documents ∧ p ≈ e.1 := by
  obtain ⟨p, hp, hpe⟩ := List.mem_map.mp
    ((h.mem_components_iff e.1.components).mpr (List.mem_map.mpr ⟨e, he, rfl⟩))
  refine ⟨p, ⟨hp, hpe⟩, fun q hq => ?_⟩
  exact eq_of_mem_documents hq.1 hp (Setoid.trans hq.2 (Setoid.symm hpe))

theorem Keeps.counted (h : r.Keeps entries) :
    r.size = (entries.map (·.1.components)).toFinset.card := by
  have hnodup : (r.documents.map (·.components)).Nodup :=
    r.byDocument.nodup_keys.map_on fun p hp q hq => eq_of_mem_documents hp hq
  have hsame : (entries.map (·.1.components)).toFinset =
      (r.documents.map (·.components)).toFinset := by
    ext c
    rw [List.mem_toFinset, List.mem_toFinset, h.mem_components_iff]
  rw [hsame, List.toFinset_card_of_nodup hnodup]
  simp [size, SortedMap.size, documents, SortedMap.keys]

end Counting

/-- After any history the reports are those that were told since the last clearing. -/
theorem records_updateAll (updates : List Update) :
    (updateAll {} updates).Records (sinceClear updates) where
  found := (keeps_updateAll updates).found
  missing := (keeps_updateAll updates).missing
  given d report := by rw [update, exchange_eq]
  ascending := SortedMap.pairwise_keys _
  spelled := (keeps_updateAll updates).spelled
  once _ he := (keeps_updateAll updates).once he
  counted := (keeps_updateAll updates).counted
  current _ _ _ := current?_eq_some_iff _

/-- The second spelling replaces the report under the first one. -/
example :
    let r := updateAll {} [.replace ⟨"/b"⟩ ⟨none, []⟩, .clear, .replace ⟨"/c"⟩ ⟨none, []⟩,
      .replace ⟨"/a/./b"⟩ ⟨none, []⟩, .replace ⟨"/a//b/"⟩ ⟨some default, []⟩]
    r.documents = [⟨"/a/./b"⟩, ⟨"/c"⟩] ∧ r.find? ⟨"/a/b"⟩ = some ⟨some default, []⟩ := by decide

end Marginalia.Reports
