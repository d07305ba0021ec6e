import Marginalia.Text.Line
import Mathlib.Algebra.GroupWithZero.Nat
import Mathlib.Order.Monotone.Basic

/-! What it is to cut a text into lines, told without how it is done. The breaks are listed as they are
spelled: every line but the last ends in one of them, a carriage return takes a line feed behind it
along, and no break is left inside a line. `Text.lines` is such a cut (`cut_lines`), and there is no
other (`Cut.lines_eq`). What a line is without its break can be told from its characters alone
(`Cut.trim_chars`). -/
namespace Marginalia.Text

def endings : List (List Char) :=
  [['\n'], ['\r'], ['\r', '\n'], ['\x0b'], ['\x0c'], ['\u0085'], ['\u2028'], ['\u2029']]

theorem mem_endings_iff (c : Char) : [c] ∈ endings ↔ isBreak c = true := by
  simp [endings, isBreak, or_assoc]

/-- Characters without a break among them. -/
def Plain (cs : List Char) : Prop := ∀ c ∈ cs, [c] ∉ endings

theorem Plain.not_isBreak {c : Char} {cs : List Char} (h : Plain cs) (hc : c ∈ cs) :
    isBreak c = false := by
  rw [← Bool.not_eq_true, ← mem_endings_iff]
  exact h c hc

theorem Plain.of_cons {c : Char} {cs : List Char} (h : Plain (c :: cs)) :
    isBreak c = false ∧ Plain cs :=
  ⟨h.not_isBreak List.mem_cons_self, fun d hd => h d (List.mem_cons_of_mem c hd)⟩

theorem Plain.cons {c : Char} {cs : List Char} (hc : isBreak c = false) (h : Plain cs) :
    Plain (c :: cs) := by
  rw [← Bool.not_eq_true, ← mem_endings_iff] at hc
  exact List.forall_mem_cons.mpr ⟨hc, h⟩

/-- A break, in front of the text that follows it. -/
inductive Break : List Char → List Char → Prop
  | pair (rest : List Char) : Break ['\r', '\n'] rest
  | single {c : Char} {rest : List Char} (breaks : [c] ∈ endings)
      (whole : c = '\r' → rest.head? ≠ some '\n') : Break [c] rest

theorem Break.exists_cons {ending rest : List Char} (h : Break ending rest) :
    ∃ c tail, ending = c :: tail ∧ isBreak c = true := by
  cases h with
  | pair => exact ⟨_, _, rfl, rfl⟩
  | single breaks _ => exact ⟨_, _, rfl, (mem_endings_iff _).mp breaks⟩

/-- A text and its lines. -/
inductive Cut : List Char → List Line → Prop
  | last {content : List Char} (plain : Plain content) : Cut content [⟨content, []⟩]
  | line {content ending rest : List Char} {ls : List Line} (plain : Plain content)
      (ends : Break ending rest) (below : Cut rest ls) :
      Cut (content ++ (ending ++ rest)) (⟨content, ending⟩ :: ls)

theorem Cut.exists_cons {cs : List Char} {ls : List Line} (h : Cut cs ls) :
    ∃ l rest, ls = l :: rest := by
  cases h <;> exact ⟨_, _, rfl⟩

/-- The first line is a lone line feed just if the text starts with one. -/
theorem Cut.starts_iff {cs : List Char} {l : Line} {rest : List Line} (h : Cut cs (l :: rest)) :
    l = ⟨[], ['\n']⟩ ↔ cs.head? = some '\n' := by
  cases h with
  | last plain =>
    constructor
    · intro h
      cases h
    · intro h
      cases plain.not_isBreak (List.mem_of_mem_head? h)
  | @line content ending below _ plain ends _ =>
    cases content with
    | nil =>
      cases ends with
      | pair => simp
      | single => simp
    | cons c cs =>
      have : c ≠ '\n' := by
        rintro rfl
        cases plain.of_cons.1
      simpa using this

theorem cutLine_of_plain {c : Char} (h : isBreak c = false) (l : Line) (rest : List Line) :
    cutLine c (l :: rest) = ⟨c :: l.content, l.ending⟩ :: rest := by
  simp [cutLine, h]

theorem cutLine_pair (rest : List Line) :
    cutLine '\r' (⟨[], ['\n']⟩ :: rest) = ⟨[], ['\r', '\n']⟩ :: rest := rfl

theorem cutLine_of_break {c : Char} {l : Line} (h : isBreak c = true)
    (hwhole : ¬(c = '\r' ∧ l = ⟨[], ['\n']⟩)) (rest : List Line) :
    cutLine c (l :: rest) = ⟨[], [c]⟩ :: l :: rest := by
  simp [cutLine, h, hwhole]

theorem Cut.cutLine {c : Char} {cs : List Char} {ls : List Line} (h : Cut cs ls) :
    Cut (c :: cs) (cutLine c ls) := by
  obtain ⟨l, rest, rfl⟩ := h.exists_cons
  cases hc : isBreak c with
  | false =>
    rw [cutLine_of_plain hc]
    cases h with
    | last plain => exact .last (plain.cons hc)
    | line plain ends below => exact .line (plain.cons hc) ends below
  | true =>
    by_cases hpair : c = '\r' ∧ l = ⟨[], ['\n']⟩
    · obtain ⟨rfl, rfl⟩ := hpair
      rw [cutLine_pair]
      cases h with
      | line plain ends below => exact .line plain (.pair _) below
    · rw [cutLine_of_break hc hpair]
      have hwhole : c = '\r' → cs.head? ≠ some '\n' :=
        fun hreturn hstart => hpair ⟨hreturn, h.starts_iff.mpr hstart⟩
      have hnone : Plain [] := List.forall_mem_nil _
      exact .line hnone (.single ((mem_endings_iff c).mpr hc) hwhole) h

theorem cut_lines (t : Text) : Cut t.chars t.lines := by
  unfold lines
  induction t.chars with
  | nil => exact .last (List.forall_mem_nil _)
  | cons c cs ih => exact ih.cutLine

theorem foldr_cutLine_of_plain {content : List Char} (h : Plain content) (l : Line)
    (rest : List Line) :
    content.foldr cutLine (l :: rest) = ⟨content ++ l.content, l.ending⟩ :: rest := by
  induction content with
  | nil => rfl
  | cons c cs ih =>
    rw [List.foldr_cons, ih h.of_cons.2, cutLine_of_plain h.of_cons.1, List.cons_append]

theorem foldr_cutLine_of_break {ending rest : List Char} (h : Break ending rest) {ls : List Line}
    (hbelow : Cut rest ls) : ending.foldr cutLine ls = ⟨[], ending⟩ :: ls := by
  obtain ⟨l, tail, rfl⟩ := hbelow.exists_cons
  cases h with
  | pair =>
    have hfeed : cutLine '\n' (l :: tail) = ⟨[], ['\n']⟩ :: l :: tail :=
      cutLine_of_break rfl (fun h => absurd h.1 (by decide)) tail
    rw [List.foldr_cons, List.foldr_cons, List.foldr_nil, hfeed, cutLine_pair]
  | single breaks whole =>
    refine cutLine_of_break ((mem_endings_iff _).mp breaks) ?_ tail
    rintro ⟨hreturn, hl⟩
    exact whole hreturn (hbelow.starts_iff.mp hl)

/-- A text has only one cut. -/
theorem Cut.lines_eq {cs : List Char} {ls : List Line} (h : Cut cs ls) :
    lines ⟨cs⟩ = ls := by
  unfold lines
  induction h with
  | last plain => simpa using foldr_cutLine_of_plain plain ⟨[], []⟩ []
  | line plain ends below ih =>
    rw [List.foldr_append, List.foldr_append, ih, foldr_cutLine_of_break ends below,
      foldr_cutLine_of_plain plain, List.append_nil]

section Trim

variable {content : List Char}

theorem trim_of_plain (h : Plain content) : trim content = content := by
  unfold trim contentSize
  cases hlast : content.getLast? with
  | none => rw [List.getLast?_eq_none_iff.mp hlast, List.take_nil]
  | some last =>
    have hplain := h.not_isBreak (List.mem_of_getLast? hlast)
    have hfeed : last ≠ '\n' := by
      rintro rfl
      cases hplain
    simp [hfeed, hplain]

theorem trim_concat {c : Char} (h : isBreak c = true)
    (hwhole : c = '\n' → content.getLast? ≠ some '\r') : trim (content ++ [c]) = content := by
  have hpair : ¬(c = '\n' ∧ content.getLast? = some '\r') := fun h => hwhole h.1 h.2
  simp [trim, contentSize, h, hpair]

theorem trim_pair (content : List Char) : trim (content ++ ['\r', '\n']) = content := by
  have hchars : content ++ ['\r', '\n'] = content ++ ['\r'] ++ ['\n'] := by simp
  rw [hchars]
  simp [trim, contentSize]

theorem trim_of_break {ending rest : List Char} (h : Plain content) (hbreak : Break ending rest) :
    trim (content ++ ending) = content := by
  cases hbreak with
  | pair => exact trim_pair content
  | single breaks _ =>
    refine trim_concat ((mem_endings_iff _).mp breaks) fun _ hreturn => ?_
    cases h.not_isBreak (List.mem_of_getLast? hreturn)

/-- The characters of a line tell where its break starts. -/
theorem Cut.trim_chars {cs : List Char} {ls : List Line} (h : Cut cs ls) :
    ∀ l ∈ ls, trim l.chars = l.content := by
  induction h with
  | @last content plain =>
    rw [List.forall_mem_singleton, Line.chars, List.append_nil]
    exact trim_of_plain plain
  | line plain ends below ih => exact List.forall_mem_cons.mpr ⟨trim_of_break plain ends, ih⟩

end Trim

theorem line?_eq (t : Text) (i : Nat) :
    t.line? i = t.lines[i]?.map fun l => String.ofList l.content := by
  unfold line?
  cases hl : t.lines[i]? with
  | none => rfl
  | some l =>
    rw [Option.map_some, Option.map_some, t.cut_lines.trim_chars l (List.mem_of_getElem? hl)]

/-- The offset at which a line starts. -/
def lineStart (ls : List Line) (i : Nat) : Nat := ((ls.take i).map Line.size).sum

@[simp] theorem lineStart_zero (ls : List Line) : lineStart ls 0 = 0 := by
  simp [lineStart]

@[simp] theorem lineStart_cons (l : Line) (ls : List Line) (i : Nat) :
    lineStart (l :: ls) (i + 1) = l.size + lineStart ls i := by
  simp [lineStart]

theorem lineStart_succ {ls : List Line} {i : Nat} {l : Line} (h : ls[i]? = some l) :
    lineStart ls (i + 1) = lineStart ls i + l.size := by
  simp [lineStart, List.take_add_one, h]

theorem lineStart_mono (ls : List Line) : Monotone (lineStart ls) := by
  apply monotone_nat_of_le_succ
  intro i
  cases h : ls[i]? with
  | none =>
    have : ls.length ≤ i := List.getElem?_eq_none_iff.mp h
    simp [lineStart, List.take_of_length_le, this, Nat.le_succ_of_le]
  | some l => simp [lineStart_succ h]

theorem Cut.drop {cs : List Char} {ls : List Line} (h : Cut cs ls) {i : Nat}
    (hi : i < ls.length) : Cut (cs.drop (lineStart ls i)) (ls.drop i) := by
  induction h generalizing i with
  | last plain =>
    obtain rfl : i = 0 := by simpa using hi
    exact .last plain
  | @line content ending rest ls plain ends below ih =>
    cases i with
    | zero => exact .line plain ends below
    | succ i =>
      have hrest : (content ++ (ending ++ rest)).drop (lineStart (⟨content, ending⟩ :: ls) (i + 1)) =
          rest.drop (lineStart ls i) := by
        rw [lineStart_cons, ← List.append_assoc, Line.size, ← List.length_append, List.drop_append]
        simp
      rw [hrest, List.drop_succ_cons]
      exact ih (by simpa using hi)

section Line

variable {cs : List Char} {ls : List Line} {i : Nat} {l : Line}

theorem Cut.at_line (h : Cut cs ls) (hl : ls[i]? = some l) :
    Cut (cs.drop (lineStart ls i)) (l :: ls.drop (i + 1)) := by
  obtain ⟨hi, rfl⟩ := List.getElem?_eq_some_iff.mp hl
  have hcut := h.drop hi
  rwa [List.drop_eq_getElem_cons hi] at hcut

theorem Cut.exists_tail {rest : List Line} (h : Cut cs (l :: rest)) :
    ∃ tail, cs = l.content ++ tail := by
  cases h with
  | last => exact ⟨[], (List.append_nil _).symm⟩
  | line => exact ⟨_, rfl⟩

/-- Only the last line has no break. -/
theorem Cut.content_lt_size (h : Cut cs ls) (hl : ls[i]? = some l) (hi : i + 1 < ls.length) :
    l.content.length < l.size := by
  have hcut := h.at_line hl
  obtain ⟨next, rest, hrest⟩ : ∃ next rest, ls.drop (i + 1) = next :: rest :=
    ⟨_, _, List.drop_eq_getElem_cons hi⟩
  rw [hrest] at hcut
  generalize cs.drop (lineStart ls i) = tail at hcut
  cases hcut with
  | line plain ends below =>
    obtain ⟨c, ending, rfl, -⟩ := ends.exists_cons
    simp [Line.size]

/-- The characters of a text from the start of a line are those of the line. -/
theorem Cut.drop_take (h : Cut cs ls) (hl : ls[i]? = some l) {k : Nat}
    (hk : k ≤ l.content.length) :
    (cs.take (lineStart ls i + k)).drop (lineStart ls i) = l.content.take k := by
  obtain ⟨tail, htail⟩ := (h.at_line hl).exists_tail
  rw [List.drop_take, Nat.add_sub_cancel_left, htail, List.take_append_of_le_length hk]

end Line

end Marginalia.Text
