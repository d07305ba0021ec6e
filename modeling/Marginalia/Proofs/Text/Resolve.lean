import Marginalia.Proofs.Position
import Marginalia.Proofs.Text.Lines
import Marginalia.Text.Resolve
import Mathlib.Order.Bounds.Defs

/-! Positions against the lines of their text. A position resolves just if its line exists and is wide
enough, and then to the start of the line and as many of its characters as fit before the column
(`resolve_eq_some_iff`). So what comes later resolves to no smaller offset (`resolve_mono`), and what
is between the ends of a span resolves into it (`resolve_mem_of_between`). Conversely, what resolves
strictly into a span is between its ends, if it has them in order (`between_of_resolve_mem`). -/
namespace Marginalia.Text

/-- The width of a row in UTF-16: one unit for a character, and one more for each that takes a pair. -/
def width (cs : List Char) : Nat := cs.length + cs.countP fun c => 0xFFFF < c.toNat

@[simp] theorem width_nil : width [] = 0 := rfl

@[simp] theorem width_cons (c : Char) (cs : List Char) : width (c :: cs) = units c + width cs := by
  unfold width units
  rw [List.length_cons, List.countP_cons]
  simp only [decide_eq_true_eq]
  split <;> split <;> omega

theorem width_append (cs ds : List Char) : width (cs ++ ds) = width cs + width ds := by
  unfold width
  rw [List.length_append, List.countP_append]
  omega

theorem unitCount_eq_width (cs : List Char) : unitCount cs = width cs := by
  induction cs with
  | nil => rfl
  | cons c cs ih => rw [unitCount, ih, width_cons]

theorem units_pos (c : Char) : 0 < units c := by
  unfold units
  split <;> decide

theorem isGreatest_fitting (left : Nat) (cs : List Char) :
    IsGreatest {k | k ≤ cs.length ∧ width (cs.take k) ≤ left} (fitting left cs) := by
  induction cs generalizing left with
  | nil => exact ⟨⟨Nat.le_refl 0, Nat.zero_le _⟩, fun k hk => hk.1⟩
  | cons c cs ih =>
    unfold fitting
    split
    · rename_i hlt
      refine ⟨⟨Nat.zero_le _, Nat.zero_le _⟩, fun k hk => ?_⟩
      cases k with
      | zero => exact Nat.le_refl 0
      | succ k =>
        have hfit : width ((c :: cs).take (k + 1)) ≤ left := hk.2
        rw [List.take_succ_cons, width_cons] at hfit
        omega
    · obtain ⟨⟨hlength, hwidth⟩, hmax⟩ := ih (left - units c)
      refine ⟨⟨?_, ?_⟩, fun k hk => ?_⟩
      · simpa using hlength
      · rw [List.take_succ_cons, width_cons]
        omega
      · cases k with
        | zero => exact Nat.zero_le _
        | succ k =>
          have hfit : width ((c :: cs).take (k + 1)) ≤ left := hk.2
          rw [List.take_succ_cons, width_cons] at hfit
          have hk : k ≤ fitting (left - units c) cs := hmax ⟨by simpa using hk.1, by omega⟩
          omega

theorem fitting_le (left : Nat) (cs : List Char) : fitting left cs ≤ cs.length :=
  (isGreatest_fitting left cs).1.1

theorem fitting_mono (cs : List Char) {left more : Nat} (h : left ≤ more) :
    fitting left cs ≤ fitting more cs := by
  obtain ⟨hlength, hwidth⟩ := (isGreatest_fitting left cs).1
  exact (isGreatest_fitting more cs).2 ⟨hlength, Nat.le_trans hwidth h⟩

section FirstLine

variable {content ending rest : List Char}

theorem endsLine_of_plain {c : Char} (h : isBreak c = false) (next : Option Char) :
    endsLine c next = false := by
  rw [endsLine, h, Bool.false_and]

theorem endsLine_of_break {c : Char} (h : isBreak c = true) {next : Option Char}
    (hwhole : c = '\r' → next ≠ some '\n') : endsLine c next = true := by
  simpa [endsLine, h, ← imp_iff_not_or] using hwhole

theorem firstLine_of_plain (h : Plain content) : firstLine content = content := by
  induction content with
  | nil => rfl
  | cons c cs ih =>
    rw [firstLine, endsLine_of_plain h.of_cons.1, if_neg Bool.false_ne_true, ih h.of_cons.2]

theorem firstLine_append (h : Plain content) (tail : List Char) :
    firstLine (content ++ tail) = content ++ firstLine tail := by
  induction content with
  | nil => rfl
  | cons c cs ih =>
    rw [List.cons_append, firstLine, endsLine_of_plain h.of_cons.1, if_neg Bool.false_ne_true,
      ih h.of_cons.2, List.cons_append]

theorem firstLine_of_break (h : Break ending rest) : firstLine (ending ++ rest) = ending := by
  cases h with
  | pair => rfl
  | single breaks whole =>
    rw [List.singleton_append, firstLine,
      endsLine_of_break ((mem_endings_iff _).mp breaks) whole, if_pos rfl]

theorem Cut.firstLine_eq {cs : List Char} {l : Line} {ls : List Line} (h : Cut cs (l :: ls)) :
    firstLine cs = l.chars := by
  cases h with
  | last plain => rw [firstLine_of_plain plain, Line.chars, List.append_nil]
  | line plain ends below => rw [firstLine_append plain, firstLine_of_break ends, Line.chars]

theorem seekLine_of_plain (h : Plain content) (offset n : Nat) (cs : List Char) :
    seekLine offset (n + 1) (content ++ cs) = seekLine (offset + content.length) (n + 1) cs := by
  induction content generalizing offset with
  | nil => rfl
  | cons c content ih =>
    rw [List.cons_append, seekLine, endsLine_of_plain h.of_cons.1, if_neg Bool.false_ne_true,
      ih h.of_cons.2, List.length_cons, Nat.add_assoc, Nat.add_comm 1]

theorem seekLine_of_break (h : Break ending rest) (offset n : Nat) :
    seekLine offset (n + 1) (ending ++ rest) = seekLine (offset + ending.length) n rest := by
  cases h with
  | pair => rfl
  | single breaks whole =>
    rw [List.singleton_append, seekLine,
      endsLine_of_break ((mem_endings_iff _).mp breaks) whole, if_pos rfl, List.length_singleton]

end FirstLine

/-- To seek a line is to find where it starts, and its characters. -/
theorem Cut.seekLine_eq {cs : List Char} {ls : List Line} (h : Cut cs ls) (offset n : Nat) :
    ((seekLine offset n cs).map fun x => (x.1, firstLine x.2)) =
      ls[n]?.map fun l => (offset + lineStart ls n, l.chars) := by
  induction h generalizing offset n with
  | @last content plain =>
    cases n with
    | zero => simp [seekLine, firstLine_of_plain plain, Line.chars]
    | succ n =>
      have hnone := seekLine_of_plain plain offset n []
      rw [List.append_nil] at hnone
      simp [hnone, seekLine]
  | @line content ending rest ls plain ends below ih =>
    cases n with
    | zero =>
      have hfirst := (Cut.line plain ends below).firstLine_eq
      simp [seekLine, hfirst]
    | succ n =>
      rw [seekLine_of_plain plain, seekLine_of_break ends, ih, List.getElem?_cons_succ,
        lineStart_cons, Line.size]
      simp only [Nat.add_assoc]

variable {t : Text} {p q : Position} {a b : Nat}

theorem resolve_eq_some_iff : t.resolve p = some a ↔
    ∃ l, t.lines[p.line]? = some l ∧ p.character ≤ width l.content ∧
      a = lineStart t.lines p.line + fitting p.character l.content := by
  have hseek := t.cut_lines.seekLine_eq 0 p.line
  unfold resolve
  cases hl : t.lines[p.line]? with
  | none =>
    rw [hl, Option.map_none, Option.map_eq_none_iff] at hseek
    simp [hseek]
  | some l =>
    rw [hl, Option.map_some, Option.map_eq_some_iff] at hseek
    obtain ⟨⟨start, cs⟩, hfound, hline⟩ := hseek
    obtain ⟨rfl, hchars⟩ := Prod.mk.inj hline
    have htrim := t.cut_lines.trim_chars l (List.mem_of_getElem? hl)
    simp only [hfound, Option.bind_some, hchars, htrim, unitCount_eq_width, Nat.zero_add]
    constructor
    · intro h
      split at h
      · cases h
      · rename_i hwide
        exact ⟨l, rfl, Nat.le_of_not_lt hwide, (Option.some.inj h).symm⟩
    · rintro ⟨m, hm, hwide, rfl⟩
      cases hm
      exact if_neg (Nat.not_lt.mpr hwide)

theorem isSome_resolve_iff : (t.resolve p).isSome = true ↔
    ∃ l, t.lines[p.line]? = some l ∧ p.character ≤ width l.content := by
  rw [Option.isSome_iff_exists]
  constructor
  · rintro ⟨a, ha⟩
    obtain ⟨l, hl, hwide, -⟩ := resolve_eq_some_iff.mp ha
    exact ⟨l, hl, hwide⟩
  · rintro ⟨l, hl, hwide⟩
    exact ⟨_, resolve_eq_some_iff.mpr ⟨l, hl, hwide, rfl⟩⟩

/-- A line resolves in all its columns up to one. -/
theorem isSome_resolve_of_le {line column less : Nat} (h : less ≤ column)
    (hcolumn : (t.resolve ⟨line, column⟩).isSome = true) :
    (t.resolve ⟨line, less⟩).isSome = true := by
  obtain ⟨l, hl, hwide⟩ := isSome_resolve_iff.mp hcolumn
  exact isSome_resolve_iff.mpr ⟨l, hl, Nat.le_trans h hwide⟩

theorem isSome_resolve_start_iff {line : Nat} :
    (t.resolve ⟨line, 0⟩).isSome = true ↔ line < t.lineCount := by
  rw [isSome_resolve_iff]
  constructor
  · rintro ⟨l, hl, -⟩
    exact (List.getElem?_eq_some_iff.mp hl).1
  · intro h
    exact ⟨_, List.getElem?_eq_getElem h, Nat.zero_le _⟩

/-- The break behind a line keeps what resolves on it apart from the lines below. -/
theorem resolve_lt_of_line_lt (h : p.line < q.line) (hp : t.resolve p = some a)
    (hq : t.resolve q = some b) : a < b := by
  obtain ⟨l, hl, -, rfl⟩ := resolve_eq_some_iff.mp hp
  obtain ⟨m, hm, -, rfl⟩ := resolve_eq_some_iff.mp hq
  have hbelow : q.line < t.lines.length := (List.getElem?_eq_some_iff.mp hm).1
  have hfit := fitting_le p.character l.content
  have hbreak := t.cut_lines.content_lt_size hl (Nat.lt_of_le_of_lt h hbelow)
  have hstart := lineStart_mono t.lines (Nat.succ_le_of_lt h)
  rw [Nat.succ_eq_add_one, lineStart_succ hl] at hstart
  omega

/-- A later position does not resolve to a smaller offset. -/
theorem resolve_mono (h : p ≤ q) (hp : t.resolve p = some a) (hq : t.resolve q = some b) :
    a ≤ b := by
  rcases (Position.le_iff p q).mp h with hline | ⟨hline, hcharacter⟩
  · exact Nat.le_of_lt (resolve_lt_of_line_lt hline hp hq)
  · obtain ⟨l, hl, -, rfl⟩ := resolve_eq_some_iff.mp hp
    obtain ⟨m, hm, -, rfl⟩ := resolve_eq_some_iff.mp hq
    rw [hline, hm] at hl
    cases hl
    rw [hline]
    exact Nat.add_le_add_left (fitting_mono l.content hcharacter) _

variable {s : Span} {k : Nat}

theorem resolveSpan_eq_some_iff : t.resolveSpan s = some (a, b) ↔
    ∃ m n, t.resolve s.start = some m ∧ t.resolve s.stop = some n ∧ a = min m n ∧ b = max m n := by
  constructor
  · intro h
    obtain ⟨m, hm, h⟩ := Option.bind_eq_some_iff.mp h
    obtain ⟨n, hn, h⟩ := Option.map_eq_some_iff.mp h
    cases h
    exact ⟨m, n, hm, hn, rfl, rfl⟩
  · rintro ⟨m, n, hm, hn, rfl, rfl⟩
    simp [resolveSpan, hm, hn]

theorem resolve_mem_of_between (hs : t.resolveSpan s = some (a, b)) (hp : t.resolve p = some k)
    (hstart : s.start ≤ p) (hstop : p ≤ s.stop) : a ≤ k ∧ k ≤ b := by
  obtain ⟨m, n, hm, hn, rfl, rfl⟩ := resolveSpan_eq_some_iff.mp hs
  have hlow := resolve_mono hstart hm hp
  have hhigh := resolve_mono hstop hp hn
  omega

theorem between_of_resolve_mem (hs : t.resolveSpan s = some (a, b)) (hp : t.resolve p = some k)
    (hlow : a < k) (hhigh : k < b) (hordered : s.start ≤ s.stop) : s.start ≤ p ∧ p ≤ s.stop := by
  obtain ⟨m, n, hm, hn, rfl, rfl⟩ := resolveSpan_eq_some_iff.mp hs
  have hends := resolve_mono hordered hm hn
  refine ⟨Position.not_lt.mp fun hbefore => ?_, Position.not_lt.mp fun hbehind => ?_⟩
  · have := resolve_mono (Position.le_of_lt hbefore) hp hm
    omega
  · have := resolve_mono (Position.le_of_lt hbehind) hn hp
    omega

end Marginalia.Text
