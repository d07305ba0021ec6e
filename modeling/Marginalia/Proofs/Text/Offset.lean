import Marginalia.Proofs.Text.Resolve
import Mathlib.Data.Nat.Find

/-! From offsets back to positions. An offset has a line and a column by the lines of its text, and
unless it lies between a carriage return and its line feed, that is the first of the positions that
resolve to it. Inside such a pair nothing resolves (`resolve_agrees_with_lines`). -/
namespace Marginalia.Text

/-- The line of an offset: the last one that starts at or before it. -/
def lineAt (t : Text) (o : Nat) : Nat :=
  Nat.findGreatest (fun i => lineStart t.lines i ≤ o) (t.lineCount - 1)

/-- Line and column of an offset. The column counts the units from the start of the line. -/
def positionOf (t : Text) (o : Nat) : Position :=
  ⟨t.lineAt o, width ((t.chars.take o).drop (lineStart t.lines (t.lineAt o)))⟩

/-- Between a carriage return and the line feed behind it. -/
def InsideBreak (cs : List Char) (o : Nat) : Prop :=
  ∃ i, o = i + 1 ∧ cs[i]? = some '\r' ∧ cs[i + 1]? = some '\n'

theorem not_insideBreak_zero (cs : List Char) : ¬InsideBreak cs 0 := by
  rintro ⟨i, hi, -⟩
  omega

theorem insideBreak_succ {cs : List Char} {o : Nat} :
    InsideBreak cs (o + 1) ↔ cs[o]? = some '\r' ∧ cs[o + 1]? = some '\n' := by
  constructor
  · rintro ⟨i, hi, h⟩
    cases hi
    exact h
  · exact fun h => ⟨o, rfl, h⟩

theorem insideBreak_append (before : List Char) {cs : List Char} {o : Nat} :
    InsideBreak (before ++ cs) (before.length + (o + 1)) ↔ InsideBreak cs (o + 1) := by
  rw [← Nat.add_assoc, insideBreak_succ, insideBreak_succ, Nat.add_assoc,
    List.getElem?_append_right (Nat.le_add_right _ _),
    List.getElem?_append_right (Nat.le_add_right _ _), Nat.add_sub_cancel_left,
    Nat.add_sub_cancel_left]

/-- In a plain row and at its end no offset is inside a break. -/
theorem Plain.not_insideBreak {content : List Char} (h : Plain content) (tail : List Char) {o : Nat}
    (ho : o ≤ content.length) : ¬InsideBreak (content ++ tail) o := by
  rintro ⟨i, rfl, hreturn, -⟩
  rw [List.getElem?_append_left ho] at hreturn
  cases h.not_isBreak (List.mem_of_getElem? hreturn)

section Break

variable {ending rest : List Char} {o : Nat}

/-- A break that ends a line is no part of another one. -/
theorem Break.insideBreak_below (h : Break ending rest) (content : List Char) :
    InsideBreak (content ++ (ending ++ rest)) (content.length + ending.length + o) ↔
      InsideBreak rest o := by
  cases o with
  | succ o => rw [← List.append_assoc, ← List.length_append, insideBreak_append]
  | zero =>
    refine iff_of_false ?_ (not_insideBreak_zero rest)
    intro hi
    cases h with
    | pair =>
      have hi := (insideBreak_append content (o := 1)).mp hi
      simp [insideBreak_succ] at hi
    | @single c _ breaks whole =>
      have hi : InsideBreak (content ++ ([c] ++ rest)) (content.length + (0 + 1)) := hi
      obtain ⟨hreturn, hfeed⟩ := insideBreak_succ.mp ((insideBreak_append content).mp hi)
      refine whole (by simpa using hreturn) ?_
      rw [List.head?_eq_getElem?]
      simpa using hfeed

theorem Break.insideBreak (h : Break ending rest) {content : List Char} (hlow : content.length < o)
    (hhigh : o < content.length + ending.length) : InsideBreak (content ++ (ending ++ rest)) o := by
  cases h with
  | single =>
    rw [List.length_singleton] at hhigh
    omega
  | pair =>
    have hpair : o < content.length + 2 := hhigh
    obtain rfl : o = content.length + (0 + 1) := by omega
    rw [insideBreak_append, insideBreak_succ]
    exact ⟨rfl, rfl⟩

end Break

/-- An offset on a line, or at its end. -/
def OnLine (ls : List Line) (o : Nat) : Prop :=
  ∃ i l k, ls[i]? = some l ∧ k ≤ l.content.length ∧ o = lineStart ls i + k

theorem onLine_cons {l : Line} {ls : List Line} {o : Nat} :
    OnLine (l :: ls) o ↔ o ≤ l.content.length ∨ ∃ m, o = l.size + m ∧ OnLine ls m := by
  constructor
  · rintro ⟨i, m, k, hm, hk, rfl⟩
    cases i with
    | zero =>
      obtain rfl : l = m := by simpa using hm
      exact .inl (by simpa using hk)
    | succ i =>
      rw [lineStart_cons, Nat.add_assoc]
      exact .inr ⟨_, rfl, i, m, k, by simpa using hm, hk, rfl⟩
  · rintro (ho | ⟨_, rfl, i, m, k, hm, hk, rfl⟩)
    · exact ⟨0, l, o, rfl, ho, by simp⟩
    · exact ⟨i + 1, m, k, by simpa using hm, hk, by rw [lineStart_cons, Nat.add_assoc]⟩

section Cut

variable {cs : List Char} {ls : List Line}

theorem Cut.onLine_iff (h : Cut cs ls) {o : Nat} :
    OnLine ls o ↔ o ≤ cs.length ∧ ¬InsideBreak cs o := by
  induction h generalizing o with
  | @last content plain =>
    rw [onLine_cons]
    constructor
    · rintro (ho | ⟨_, _, i, l, k, hl, -⟩)
      · exact ⟨ho, by simpa using plain.not_insideBreak [] ho⟩
      · simp at hl
    · exact fun ho => .inl ho.1
  | @line content ending rest ls plain ends below ih =>
    rw [onLine_cons]
    constructor
    · rintro (ho | ⟨m, rfl, hm⟩)
      · have hfirst : content.length ≤ (content ++ (ending ++ rest)).length := by simp
        exact ⟨Nat.le_trans ho hfirst, plain.not_insideBreak _ ho⟩
      · obtain ⟨hm, hinside⟩ := ih.mp hm
        refine ⟨?_, mt (ends.insideBreak_below content).mp hinside⟩
        simp only [Line.size, List.length_append]
        omega
    · rintro ⟨ho, hinside⟩
      by_cases hfirst : o ≤ content.length
      · exact .inl hfirst
      · have hbehind : content.length + ending.length ≤ o := by
          by_contra hwithin
          exact hinside (ends.insideBreak (by omega) (by omega))
        obtain ⟨m, rfl⟩ := Nat.exists_eq_add_of_le hbehind
        rw [ends.insideBreak_below] at hinside
        simp only [List.length_append] at ho
        exact .inr ⟨m, rfl, ih.mpr ⟨by omega, hinside⟩⟩

/-- The last line that starts at or before an offset is the one that it is on. -/
theorem Cut.findGreatest_lineStart (h : Cut cs ls) {i k : Nat} {l : Line}
    (hl : ls[i]? = some l) (hk : k ≤ l.content.length) :
    Nat.findGreatest (fun j => lineStart ls j ≤ lineStart ls i + k) (ls.length - 1) = i := by
  have hi : i < ls.length := (List.getElem?_eq_some_iff.mp hl).1
  refine Nat.findGreatest_eq_iff.mpr ⟨by omega, fun _ => Nat.le_add_right _ _, fun j hij hj => ?_⟩
  have hbelow := lineStart_mono ls (Nat.succ_le_of_lt hij)
  have hsize := h.content_lt_size hl (by omega)
  rw [Nat.succ_eq_add_one, lineStart_succ hl] at hbelow
  omega

end Cut

theorem positionOf_add (t : Text) {i k : Nat} {l : Line} (hl : t.lines[i]? = some l)
    (hk : k ≤ l.content.length) :
    t.positionOf (lineStart t.lines i + k) = ⟨i, width (l.content.take k)⟩ := by
  have hline : t.lineAt (lineStart t.lines i + k) = i := t.cut_lines.findGreatest_lineStart hl hk
  unfold positionOf
  rw [hline, t.cut_lines.drop_take hl hk]

theorem width_take_le (cs : List Char) (k : Nat) : width (cs.take k) ≤ width cs := by
  conv_rhs => rw [← List.take_append_drop k cs, width_append]
  exact Nat.le_add_right _ _

theorem fitting_width_take {cs : List Char} {k : Nat} (hk : k ≤ cs.length) :
    fitting (width (cs.take k)) cs = k := by
  induction cs generalizing k with
  | nil => simpa [fitting, eq_comm] using hk
  | cons c cs ih =>
    cases k with
    | zero => simp [fitting, units_pos]
    | succ k => simp [fitting, ih (Nat.le_of_succ_le_succ hk)]

/-- The position of an offset on a line is the first that resolves to it. -/
theorem isLeast_positionOf (t : Text) {o : Nat} (h : OnLine t.lines o) :
    IsLeast {p | t.resolve p = some o} (t.positionOf o) := by
  obtain ⟨i, l, k, hl, hk, rfl⟩ := h
  constructor
  · have hplace : lineStart t.lines i + k =
        lineStart t.lines i + fitting (width (l.content.take k)) l.content := by
      rw [fitting_width_take hk]
    rw [t.positionOf_add hl hk]
    exact resolve_eq_some_iff.mpr ⟨l, hl, width_take_le l.content k, hplace⟩
  · intro p hp
    obtain ⟨m, hm, -, hplace⟩ := resolve_eq_some_iff.mp hp
    have hfit := (isGreatest_fitting p.character m.content).1
    rw [hplace, t.positionOf_add hm hfit.1]
    exact (Position.le_iff _ _).mpr (.inr ⟨rfl, hfit.2⟩)

theorem onLine_of_resolve {t : Text} {p : Position} {o : Nat} (h : t.resolve p = some o) :
    OnLine t.lines o := by
  obtain ⟨l, hl, -, rfl⟩ := resolve_eq_some_iff.mp h
  exact ⟨p.line, l, _, hl, fitting_le p.character l.content, rfl⟩

/-- Positions resolve as the lines of the text say. The first conjunct is what the lines are; the
next two are when a position resolves, and where to; the last two are which offsets are reached, and
from which position first. -/
theorem resolve_agrees_with_lines (t : Text) :
    (∀ ls, Cut t.chars ls ↔ ls = t.lines) ∧
    (∀ p, (t.resolve p).isSome = true ↔
      ∃ l, t.lines[p.line]? = some l ∧ p.character ≤ width l.content) ∧
    (∀ p l o, t.lines[p.line]? = some l → t.resolve p = some o →
      ∃ k, o = lineStart t.lines p.line + k ∧
        IsGreatest {k | k ≤ l.content.length ∧ width (l.content.take k) ≤ p.character} k) ∧
    (∀ o ≤ t.size, ¬InsideBreak t.chars o → IsLeast {p | t.resolve p = some o} (t.positionOf o)) ∧
    ∀ p o, t.resolve p = some o → o ≤ t.size ∧ ¬InsideBreak t.chars o := by
  refine ⟨fun ls => ⟨fun h => h.lines_eq.symm, ?_⟩, fun p => isSome_resolve_iff, ?_, ?_, ?_⟩
  · rintro rfl
    exact t.cut_lines
  · intro p l o hl ho
    obtain ⟨m, hm, -, hplace⟩ := resolve_eq_some_iff.mp ho
    obtain rfl : l = m := Option.some.inj (hl.symm.trans hm)
    exact ⟨_, hplace, isGreatest_fitting p.character l.content⟩
  · intro o ho hinside
    exact t.isLeast_positionOf (t.cut_lines.onLine_iff.mpr ⟨ho, hinside⟩)
  · intro p o ho
    exact t.cut_lines.onLine_iff.mp (onLine_of_resolve ho)

end Marginalia.Text
