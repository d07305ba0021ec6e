import Marginalia.Position

/-! Positions are in a linear order, and a caret hits a span just if it is between its ends. So
nothing hits a span whose ends are reversed. But a selection can, and then every larger selection
does (`Span.overlaps_mono`). Spans with their ends in order overlap just if they have a position in
common, and else one of them is before the other (`Span.overlaps_iff_common`). -/
namespace Marginalia

namespace Position

variable {p q r : Position}

theorem not_lt : ¬p < q ↔ q ≤ p := by
  rw [lt_iff, le_iff]
  omega

theorem le_of_lt (h : p < q) : p ≤ q := by
  rw [lt_iff] at h
  rw [le_iff]
  omega

theorem not_le : ¬p ≤ q ↔ q < p := by
  rw [lt_iff, le_iff]
  omega

theorem le_refl (p : Position) : p ≤ p := (le_iff p p).mpr (.inr ⟨rfl, Nat.le_refl _⟩)

theorem le_total (p q : Position) : p ≤ q ∨ q ≤ p := by
  rw [le_iff, le_iff]
  omega

theorem le_trans (hpq : p ≤ q) (hqr : q ≤ r) : p ≤ r := by
  rw [le_iff] at *
  omega

theorem lt_of_le_of_lt (hpq : p ≤ q) (hqr : q < r) : p < r := by
  rw [le_iff] at hpq
  rw [lt_iff] at *
  omega

theorem lt_of_lt_of_le (hpq : p < q) (hqr : q ≤ r) : p < r := by
  rw [le_iff] at hqr
  rw [lt_iff] at *
  omega

theorem lt_of_le_of_ne (h : p ≤ q) (hne : p ≠ q) : p < q := by
  rw [le_iff] at h
  rw [lt_iff]
  have hends : p.line = q.line → p.character ≠ q.character := by
    intro hline hcharacter
    cases p
    cases q
    exact hne (congr (congrArg mk hline) hcharacter)
  omega

theorem ne_of_lt (h : p < q) : p ≠ q := by
  rintro rfl
  rw [lt_iff] at h
  omega

end Position

namespace Span

/-- Spans that only touch overlap if one of them is empty. -/
theorem overlaps_iff {a b : Span} : a.overlaps b = true ↔
    if a.isEmpty || b.isEmpty then b.start ≤ a.stop ∧ a.start ≤ b.stop
    else b.start < a.stop ∧ a.start < b.stop := by
  unfold overlaps before
  rw [Bool.or_comm b.isEmpty]
  split <;> simp [Position.not_lt, Position.not_le]

/-- A larger selection overlaps no less. Neither selection is empty, so that whether touching counts
depends on the other span alone; that one can have its ends reversed. -/
theorem overlaps_mono {a b x : Span} (hsome : a.start < a.stop) (hstart : b.start ≤ a.start)
    (hstop : a.stop ≤ b.stop) (h : x.overlaps a = true) : x.overlaps b = true := by
  have hempty : a.isEmpty = false := decide_eq_false (Position.ne_of_lt hsome)
  have hlarger : b.isEmpty = false :=
    decide_eq_false (Position.ne_of_lt
      (Position.lt_of_le_of_lt hstart (Position.lt_of_lt_of_le hsome hstop)))
  rw [overlaps_iff, hempty] at h
  rw [overlaps_iff, hlarger]
  split at h
  · rename_i hx
    rw [if_pos hx]
    exact ⟨Position.le_trans hstart h.1, Position.le_trans h.2 hstop⟩
  · rename_i hx
    rw [if_neg hx]
    exact ⟨Position.lt_of_le_of_lt hstart h.1, Position.lt_of_lt_of_le h.2 hstop⟩

theorem start_lt_stop {a : Span} (h : a.start ≤ a.stop) (hsome : a.isEmpty = false) :
    a.start < a.stop :=
  Position.lt_of_le_of_ne h (of_decide_eq_false hsome)

theorem overlaps_self {a : Span} (h : a.start ≤ a.stop) : a.overlaps a = true := by
  rw [overlaps_iff, Bool.or_self]
  split
  · exact ⟨h, h⟩
  · rename_i hempty
    have hlt := start_lt_stop h (Bool.eq_false_iff.mpr hempty)
    exact ⟨hlt, hlt⟩

theorem overlaps_caret_iff {s : Span} {p : Position} :
    s.overlaps (.caret p) = true ↔ s.start ≤ p ∧ p ≤ s.stop := by
  simp only [overlaps, before, isEmpty_caret, Bool.or_true, Bool.true_or, if_true,
    Bool.and_eq_true, Bool.not_eq_true', decide_eq_false_iff_not, Position.not_lt]
  exact and_comm

section Common

variable {a b : Span} {among : Position → Prop}

/-- To reach an end is to lie before it, strictly or not. The spans meet in the later one of their
starts, if they meet at all. -/
theorem exists_common_iff (reaches : Position → Position → Prop)
    (htrans : ∀ {p q r : Position}, p ≤ q → reaches q r → reaches p r)
    (hastart : among a.start) (hbstart : among b.start)
    (ha : reaches a.start a.stop) (hb : reaches b.start b.stop) :
    (∃ p, among p ∧ (a.start ≤ p ∧ reaches p a.stop) ∧ b.start ≤ p ∧ reaches p b.stop) ↔
      reaches b.start a.stop ∧ reaches a.start b.stop := by
  constructor
  · rintro ⟨p, -, ⟨hap, hpa⟩, hbp, hpb⟩
    exact ⟨htrans hbp hpa, htrans hap hpb⟩
  · rintro ⟨hba, hab⟩
    rcases Position.le_total a.start b.start with h | h
    · exact ⟨b.start, hbstart, ⟨h, hba⟩, Position.le_refl _, hb⟩
    · exact ⟨a.start, hastart, ⟨Position.le_refl _, ha⟩, h, hab⟩

theorem before_asymm (ha : a.start ≤ a.stop) (hb : b.start ≤ b.stop) (h : a.before b = true) :
    b.before a = false := by
  unfold before at h ⊢
  rw [Bool.or_comm b.isEmpty]
  split at h
  · rename_i hempty
    have hstop : a.stop < b.start := of_decide_eq_true h
    rw [if_pos hempty, decide_eq_false_iff_not, Position.not_lt]
    exact Position.le_trans ha (Position.le_trans (Position.le_of_lt hstop) hb)
  · rename_i hempty
    have hstop : a.stop ≤ b.start := of_decide_eq_true h
    have hsome : a.isEmpty = false := (Bool.or_eq_false_iff.mp (Bool.eq_false_iff.mpr hempty)).1
    rw [if_neg hempty, decide_eq_false_iff_not, Position.not_le]
    exact Position.lt_of_lt_of_le (start_lt_stop ha hsome) (Position.le_trans hstop hb)

/-- Two spans have a position in common, or else one of them is before the other. An end is a position
of its span if one of the spans is empty. Positions may be limited, as long as both starts are among
them. -/
theorem overlaps_iff_common (hastart : among a.start) (hbstart : among b.start)
    (ha : a.start ≤ a.stop) (hb : b.start ≤ b.stop) :
    (a.isEmpty = false ∧ b.isEmpty = false → (a.overlaps b = true ↔
      ∃ p, among p ∧ (a.start ≤ p ∧ p < a.stop) ∧ b.start ≤ p ∧ p < b.stop)) ∧
    (a.isEmpty = true ∨ b.isEmpty = true → (a.overlaps b = true ↔
      ∃ p, among p ∧ (a.start ≤ p ∧ p ≤ a.stop) ∧ b.start ≤ p ∧ p ≤ b.stop)) ∧
    [a.before b, b.before a, a.overlaps b].count true = 1 := by
  refine ⟨?_, ?_, ?_⟩
  · rintro ⟨hasome, hbsome⟩
    rw [overlaps_iff, hasome, hbsome, exists_common_iff (· < ·) Position.lt_of_le_of_lt hastart
      hbstart (start_lt_stop ha hasome) (start_lt_stop hb hbsome)]
    exact Iff.rfl
  · intro hempty
    rw [overlaps_iff, if_pos (Bool.or_eq_true_iff.mpr hempty),
      exists_common_iff (· ≤ ·) Position.le_trans hastart hbstart ha hb]
  · unfold overlaps
    cases hbefore : a.before b with
    | true => rw [before_asymm ha hb hbefore]; rfl
    | false => cases b.before a <;> rfl

/-- A row with all of its columns that can be told, the last ones of them, and a caret at its end. -/
theorem overlaps_iff_common_limits :
    let told : Position → Prop := fun p => p.line ≤ 4294967295 ∧ p.character ≤ 4294967295
    let row : Span := ⟨⟨4294967295, 0⟩, ⟨4294967295, 4294967295⟩⟩
    let last : Span := ⟨⟨4294967295, 4294967290⟩, ⟨4294967295, 4294967295⟩⟩
    let caret : Span := .caret ⟨4294967295, 4294967295⟩
    row.start ≤ row.stop ∧ last.start ≤ last.stop ∧ caret.start ≤ caret.stop ∧
      (∃ p, told p ∧ (row.start ≤ p ∧ p < row.stop) ∧ last.start ≤ p ∧ p < last.stop) ∧
      ∃ p, told p ∧ (row.start ≤ p ∧ p ≤ row.stop) ∧ caret.start ≤ p ∧ p ≤ caret.stop := by
  intro told row last caret
  have hstart : told row.start := by decide
  have hrow : row.start ≤ row.stop := by decide
  have hlast : last.start ≤ last.stop := by decide
  have hcaret : caret.start ≤ caret.stop := by decide
  obtain ⟨hboth, -⟩ := overlaps_iff_common hstart (b := last) (by decide) hrow hlast
  obtain ⟨-, hempty, -⟩ := overlaps_iff_common hstart (b := caret) (by decide) hrow hcaret
  exact ⟨hrow, hlast, hcaret, (hboth (by decide)).mp (by decide),
    (hempty (.inr rfl)).mp (by decide)⟩

end Common

end Span

end Marginalia
