import Marginalia.Proofs.Text.Offset

/-! Places in a text keep the order of their positions. On one line two columns can share an offset, since
a column inside a surrogate pair stands for the one before it, but from a line to a later one the
offset grows. So a span resolves to ends in order, wherever its own ends are
(`resolve_in_order`). -/
namespace Marginalia.Text

variable {t : Text} {p q : Position} {a b : Nat}

theorem resolve_le_size (h : t.resolve p = some a) : a ≤ t.size :=
  (t.cut_lines.onLine_iff.mp (onLine_of_resolve h)).1

theorem isSome_resolveSpan_iff {s : Span} : (t.resolveSpan s).isSome = true ↔
    (t.resolve s.start).isSome = true ∧ (t.resolve s.stop).isSome = true := by
  unfold resolveSpan
  cases t.resolve s.start <;> cases t.resolve s.stop <;> simp

theorem resolveSpan_swap (t : Text) (p q : Position) :
    t.resolveSpan ⟨q, p⟩ = t.resolveSpan ⟨p, q⟩ := by
  unfold resolveSpan
  cases hp : t.resolve p with
  | none => cases t.resolve q <;> rfl
  | some a =>
    cases hq : t.resolve q with
    | none => rfl
    | some b => simp [Nat.min_comm, Nat.max_comm]

/-- The ends of a span that has them in order are what they resolve to. -/
theorem resolveSpan_eq_some_of_le (h : p ≤ q) : t.resolveSpan ⟨p, q⟩ = some (a, b) ↔
    t.resolve p = some a ∧ t.resolve q = some b := by
  rw [resolveSpan_eq_some_iff]
  constructor
  · rintro ⟨m, n, hp, hq, rfl, rfl⟩
    have hle := resolve_mono h hp hq
    rw [Nat.min_eq_left hle, Nat.max_eq_right hle]
    exact ⟨hp, hq⟩
  · rintro ⟨hp, hq⟩
    have hle := resolve_mono h hp hq
    exact ⟨a, b, hp, hq, (Nat.min_eq_left hle).symm, (Nat.max_eq_right hle).symm⟩

theorem resolveSpan_bounds {s : Span} {range : Nat × Nat} (h : t.resolveSpan s = some range) :
    range.1 ≤ range.2 ∧ range.2 ≤ t.size := by
  obtain ⟨m, n, hm, hn, hlow, hhigh⟩ := resolveSpan_eq_some_iff.mp h
  have hfirst := resolve_le_size hm
  have hsecond := resolve_le_size hn
  rw [hlow, hhigh]
  omega

/-- Positions resolve in their order and into the text, strictly so from one line to another, and on a
line in all columns up to a last one. The last four parts are what spans make of it: both ends have
to resolve, in either order, and the lesser one comes first. -/
theorem resolve_in_order (t : Text) :
    (∀ p q a b, p ≤ q → t.resolve p = some a → t.resolve q = some b →
      a ≤ b ∧ b ≤ t.size ∧ (p.line < q.line → a < b)) ∧
    (∀ line, (t.resolve ⟨line, 0⟩).isSome = true ↔ line < t.lineCount) ∧
    (∀ line column less, less ≤ column → (t.resolve ⟨line, column⟩).isSome = true →
      (t.resolve ⟨line, less⟩).isSome = true) ∧
    (∀ s, (t.resolveSpan s).isSome = true ↔
      (t.resolve s.start).isSome = true ∧ (t.resolve s.stop).isSome = true) ∧
    (∀ p q, t.resolveSpan ⟨q, p⟩ = t.resolveSpan ⟨p, q⟩) ∧
    (∀ p q a b, p ≤ q → (t.resolveSpan ⟨p, q⟩ = some (a, b) ↔
      t.resolve p = some a ∧ t.resolve q = some b)) ∧
    ∀ s a b, t.resolveSpan s = some (a, b) → a ≤ b ∧ b ≤ t.size := by
  refine ⟨?_, fun line => isSome_resolve_start_iff, fun _ _ _ => isSome_resolve_of_le,
    fun s => isSome_resolveSpan_iff, t.resolveSpan_swap, fun _ _ _ _ => resolveSpan_eq_some_of_le,
    fun _ _ _ => resolveSpan_bounds⟩
  intro p q a b hle hp hq
  exact ⟨resolve_mono hle hp hq, resolve_le_size hq, fun hline => resolve_lt_of_line_lt hline hp hq⟩

/-- From inside a surrogate pair on one line to the end of the next, both ways. -/
theorem resolve_in_order_pair :
    let t := ofString "a😀\r\nb"
    let p : Position := ⟨0, 2⟩
    let q : Position := ⟨1, 1⟩
    (p ≤ q ∧ t.resolve p = some 1 ∧ t.resolve q = some 5) ∧ (1 < 5 ∧ 5 ≤ t.size) ∧
      (t.resolve ⟨0, 1⟩).isSome = true ∧ t.resolveSpan ⟨q, p⟩ = some (1, 5) := by
  intro t p q
  obtain ⟨hmono, -, hclosed, -, hswap, hends, -⟩ := resolve_in_order t
  have hle : p ≤ q := by decide
  have hp : t.resolve p = some 1 := by decide
  have hq : t.resolve q = some 5 := by decide
  obtain ⟨-, hsize, hlt⟩ := hmono p q 1 5 hle hp hq
  have hspan : t.resolveSpan ⟨p, q⟩ = some (1, 5) := (hends p q 1 5 hle).mpr ⟨hp, hq⟩
  exact ⟨⟨hle, hp, hq⟩, ⟨hlt (by decide), hsize⟩, hclosed 0 2 1 (by decide) (by decide),
    (hswap p q).trans hspan⟩

/-- On one line a later column can resolve to the same offset. -/
example : (ofString "😀").resolve ⟨0, 0⟩ = some 0 ∧ (ofString "😀").resolve ⟨0, 1⟩ = some 0 := by
  decide

end Marginalia.Text
