import Marginalia.Proofs.SortedMap
import Marginalia.Report

/-! Reports under any spelling of their documents, and what it is for a report to fit. -/
namespace Marginalia

namespace Report

variable {r : Report}

theorem fits_iff {revision : Revision} :
    r.fits revision = true ↔ r.revision = none ∨ r.revision = some revision := by
  unfold fits
  cases r.revision <;> simp

theorem fitsLive_revision_iff {live : Option Revision} :
    r.fitsLive live = true ↔ r.revision = none ∨ r.revision = live := by
  unfold fitsLive
  cases live with
  | none => simp
  | some revision => exact fits_iff

end Report

theorem SortedMap.exists_key_iff {ν : Type} (m : SortedMap Path ν) (d : Path) :
    (∃ e ∈ m.keys, d ≈ e) ↔ (m.find? d).isSome = true := by
  rw [Option.isSome_iff_ne_none, ne_eq, find?_eq_none_iff]
  simp only [Path.compare_eq_iff, Classical.not_forall, Classical.not_not, exists_prop]

namespace Reports

variable (r : Reports)

theorem find?_congr {d e : Path} (h : d ≈ e) : r.find? d = r.find? e :=
  r.byDocument.find?_congr (Path.compare_eq_iff.mpr h)

theorem exists_document_iff (d : Path) :
    (∃ e ∈ r.documents, d ≈ e) ↔ (r.find? d).isSome = true :=
  r.byDocument.exists_key_iff d

theorem exchange_eq (d : Path) (report : Report) :
    r.exchange d report = (r.replace d report, r.find? d) := by
  simp only [exchange, SortedMap.exchange, SortedMap.displaced?_eq_find?]
  rfl

theorem current?_eq_some_iff {d : Path} {live : Option Revision} {ds : List Diagnostic} :
    r.current? d live = some ds ↔
      ∃ report, r.find? d = some report ∧ report.diagnostics = ds ∧
        (report.revision = none ∨ report.revision = live) := by
  simp only [current?, Option.map_eq_some_iff, Option.filter_eq_some_iff,
    Report.fitsLive_revision_iff]
  constructor
  · rintro ⟨report, ⟨hfound, hfits⟩, hds⟩
    exact ⟨report, hfound, hds, hfits⟩
  · rintro ⟨report, hfound, hds, hfits⟩
    exact ⟨report, ⟨hfound, hfits⟩, hds⟩

end Reports

end Marginalia
