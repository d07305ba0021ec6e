import Marginalia.Proofs.Text.Resolve

/-! Edits and what comes before them. Whether a position resolves to an offset depends on the text up to
that character and no further, so an edit leaves alone what resolves before it, whatever becomes of
the lines around it (`resolve_before_edit`). To see this a line is not trimmed first: `seek` goes
through the text one character at a time, never back, and stops at the one that it has found. -/
namespace Marginalia.Text

/-- Breaks still to be passed behind a character, one at least before it. -/
def breaksLeft (n : Nat) (c : Char) (next : Option Char) : Nat :=
  if endsLine c next then n else n + 1

/-- Offset reached by going so many units into a line. -/
def seekColumn (offset : Nat) (left : Nat) : List Char → Option Nat
  | [] => if left = 0 then some offset else none
  | c :: cs =>
    if left = 0 then some offset
    else if isBreak c then none
    else if left < units c then some offset
    else seekColumn (offset + 1) (left - units c) cs

/-- Line first, then column, in a text that starts at an offset. -/
def seek (offset line column : Nat) (cs : List Char) : Option Nat :=
  (seekLine offset line cs).bind fun (start, cs) => seekColumn start column cs

theorem takeWhile_append_of_plain {content : List Char} (h : Plain content) (tail : List Char) :
    (content ++ tail).takeWhile (!isBreak ·) = content ++ tail.takeWhile (!isBreak ·) :=
  List.takeWhile_append_of_pos fun c hc => by rw [h.not_isBreak hc, Bool.not_false]

/-- The first line without its break goes up to the first character that breaks a line. -/
theorem Cut.takeWhile_eq {cs : List Char} {l : Line} {rest : List Line} (h : Cut cs (l :: rest)) :
    cs.takeWhile (!isBreak ·) = l.content := by
  cases h with
  | @last content plain =>
    have hall := takeWhile_append_of_plain plain []
    rwa [List.append_nil, List.takeWhile_nil, List.append_nil] at hall
  | line plain ends _ =>
    obtain ⟨c, ending, rfl, hbreak⟩ := ends.exists_cons
    rw [takeWhile_append_of_plain plain]
    simp [hbreak]

theorem trim_firstLine (cs : List Char) : trim (firstLine cs) = cs.takeWhile (!isBreak ·) := by
  have hcut : Cut cs (lines ⟨cs⟩) := cut_lines ⟨cs⟩
  obtain ⟨l, rest, hlines⟩ := hcut.exists_cons
  rw [hlines] at hcut
  rw [hcut.firstLine_eq, hcut.takeWhile_eq, hcut.trim_chars l List.mem_cons_self]

theorem seekColumn_eq (offset left : Nat) (cs : List Char) :
    seekColumn offset left cs =
      if unitCount (trim (firstLine cs)) < left then none
      else some (offset + fitting left (trim (firstLine cs))) := by
  rw [unitCount_eq_width, trim_firstLine]
  induction cs generalizing offset left with
  | nil => cases left <;> rfl
  | cons c cs ih =>
    have hpos := units_pos c
    simp only [seekColumn, List.takeWhile_cons]
    cases hbreak : isBreak c with
    | true => cases left <;> rfl
    | false =>
      simp only [Bool.not_false, Bool.false_eq_true, if_true, if_false, width_cons, fitting, ih]
      by_cases hzero : left = 0
      · simp [hzero, hpos]
      · by_cases hlt : left < units c
        · have hwide : ¬units c + width (cs.takeWhile (!isBreak ·)) < left := by omega
          simp [hzero, hlt, hwide]
        · have hiff : width (cs.takeWhile (!isBreak ·)) < left - units c ↔
              units c + width (cs.takeWhile (!isBreak ·)) < left := by omega
          simp only [hzero, hlt, hiff, if_false, Nat.add_assoc, Nat.add_comm 1]

theorem resolve_eq_seek (cs : List Char) (p : Position) :
    resolve ⟨cs⟩ p = seek 0 p.line p.character cs := by
  unfold resolve seek
  simp only [seekColumn_eq]

theorem seek_zero (offset column : Nat) (cs : List Char) :
    seek offset 0 column cs = seekColumn offset column cs := by
  rw [seek, seekLine, Option.bind_some]

theorem seek_cons (offset n column : Nat) (c : Char) (cs : List Char) :
    seek offset (n + 1) column (c :: cs) =
      seek (offset + 1) (breaksLeft n c cs.head?) column cs := by
  unfold seek breaksLeft
  rw [seekLine]
  split <;> rfl

theorem le_of_seekColumn {offset left o : Nat} {cs : List Char}
    (h : seekColumn offset left cs = some o) : offset ≤ o := by
  induction cs generalizing offset left with
  | nil =>
    rw [seekColumn, Option.ite_none_right_eq_some] at h
    exact Nat.le_of_eq (Option.some.inj h.2)
  | cons c cs ih =>
    rw [seekColumn] at h
    split at h
    · exact Nat.le_of_eq (Option.some.inj h)
    · split at h
      · cases h
      · split at h
        · exact Nat.le_of_eq (Option.some.inj h)
        · exact Nat.le_of_succ_le (ih h)

theorem le_of_seek {offset n column o : Nat} {cs : List Char}
    (h : seek offset n column cs = some o) : offset ≤ o := by
  induction cs generalizing offset n with
  | nil =>
    cases n with
    | zero => exact le_of_seekColumn h
    | succ n => cases h
  | cons c cs ih =>
    cases n with
    | zero => exact le_of_seekColumn h
    | succ n =>
      rw [seek_cons] at h
      exact Nat.le_of_succ_le (ih h)

section Behind

variable (c : Char) (cs ds : List Char)

theorem seekColumn_at_iff (before : List Char) (offset left : Nat) :
    seekColumn offset left (before ++ c :: cs) = some (offset + before.length) ↔
      seekColumn offset left (before ++ c :: ds) = some (offset + before.length) := by
  induction before generalizing offset left with
  | nil =>
    have hbehind : ∀ more rest, seekColumn (offset + 1) more rest ≠ some offset :=
      fun more rest h => absurd (le_of_seekColumn h) (Nat.not_succ_le_self offset)
    simp only [List.nil_append, List.length_nil, Nat.add_zero, seekColumn]
    split
    · exact Iff.rfl
    · split
      · exact Iff.rfl
      · split
        · exact Iff.rfl
        · exact iff_of_false (hbehind _ cs) (hbehind _ ds)
  | cons b before ih =>
    have hplace : offset + (b :: before).length = offset + 1 + before.length := by
      rw [List.length_cons]
      omega
    simp only [hplace, List.cons_append, seekColumn]
    split
    · exact Iff.rfl
    · split
      · exact Iff.rfl
      · split
        · exact Iff.rfl
        · exact ih (offset + 1) _

theorem seek_at_iff (before : List Char) (offset n column : Nat) :
    seek offset n column (before ++ c :: cs) = some (offset + before.length) ↔
      seek offset n column (before ++ c :: ds) = some (offset + before.length) := by
  induction before generalizing offset n with
  | nil =>
    cases n with
    | zero =>
      rw [seek_zero, seek_zero]
      exact seekColumn_at_iff c cs ds [] offset column
    | succ n =>
      have hbehind : ∀ m rest, seek (offset + 1) m column rest ≠ some offset :=
        fun m rest h => absurd (le_of_seek h) (Nat.not_succ_le_self offset)
      rw [List.nil_append, List.nil_append, seek_cons, seek_cons]
      exact iff_of_false (hbehind _ cs) (hbehind _ ds)
  | cons b before ih =>
    cases n with
    | zero =>
      rw [seek_zero, seek_zero]
      exact seekColumn_at_iff c cs ds (b :: before) offset column
    | succ n =>
      have hplace : offset + (b :: before).length = offset + 1 + before.length := by
        rw [List.length_cons]
        omega
      -- Whether `b` ends a line shows at the next character, which is before the difference.
      have hnext : (before ++ c :: cs).head? = (before ++ c :: ds).head? := by
        cases before <;> rfl
      rw [hplace, List.cons_append, List.cons_append, seek_cons, seek_cons, hnext]
      exact ih (offset + 1) _

end Behind

/-- Inside a beginning of the text, it makes no difference what follows that beginning. -/
theorem resolve_append_iff {head : List Char} {k : Nat} (hk : k < head.length)
    (tail other : List Char) (p : Position) :
    resolve ⟨head ++ tail⟩ p = some k ↔ resolve ⟨head ++ other⟩ p = some k := by
  obtain ⟨before, c, rest, rfl, rfl⟩ : ∃ before c rest, head = before ++ c :: rest ∧
      k = before.length := by
    refine ⟨head.take k, head[k], head.drop (k + 1), ?_, ?_⟩
    · rw [← List.drop_eq_getElem_cons hk, List.take_append_drop]
    · rw [List.length_take, Nat.min_eq_left (Nat.le_of_lt hk)]
  have hat := seek_at_iff c (rest ++ tail) (rest ++ other) before 0 p.line p.character
  rwa [Nat.zero_add, ← resolve_eq_seek, ← resolve_eq_seek, ← List.cons_append, ← List.cons_append,
    ← List.append_assoc, ← List.append_assoc] at hat

/-- Positions that resolve before an edit resolve to the same offsets after it, and no others do. -/
theorem resolve_before_edit (t : Text) (p : Position) (k : Nat) :
    (∀ offset new, k < min offset t.size →
      ((t.insert offset new).resolve p = some k ↔ t.resolve p = some k)) ∧
    ∀ start count, k < min start t.size →
      ((t.delete start count).resolve p = some k ↔ t.resolve p = some k) := by
  have hkept : ∀ place tail, k < min place t.size →
      (resolve ⟨t.chars.take place ++ tail⟩ p = some k ↔ t.resolve p = some k) := by
    intro place tail hk
    have hwhole : t = ⟨t.chars.take place ++ t.chars.drop place⟩ := by
      rw [List.take_append_drop]
    conv => rhs; rw [hwhole]
    have hinside : k < (t.chars.take place).length := by
      rw [List.length_take]
      exact hk
    exact resolve_append_iff hinside tail _ p
  constructor
  · intro offset new hk
    unfold insert
    rw [List.append_assoc]
    exact hkept offset _ hk
  · intro start count hk
    exact hkept start _ hk

/-- A line feed joins a carriage return and is taken away again. A column inside a surrogate pair goes
on to stand for the one before the pair. -/
theorem resolve_before_edit_seams :
    let t := ofString "😀\r"
    let joined := t.insert 2 (ofString "\n")
    (1 < min 2 t.size ∧ 1 < min 2 joined.size) ∧
      (t.resolve ⟨0, 1⟩ = some 0 ∧ t.resolve ⟨0, 2⟩ = some 1) ∧
      (joined.resolve ⟨0, 1⟩ = some 0 ∧ joined.resolve ⟨0, 2⟩ = some 1) ∧
      (joined.delete 2 1).resolve ⟨0, 2⟩ = some 1 := by
  intro t joined
  have hpair : joined.resolve ⟨0, 1⟩ = some 0 :=
    ((resolve_before_edit t ⟨0, 1⟩ 0).1 2 (ofString "\n") (by decide)).mpr (by decide)
  have hend : joined.resolve ⟨0, 2⟩ = some 1 :=
    ((resolve_before_edit t ⟨0, 2⟩ 1).1 2 (ofString "\n") (by decide)).mpr (by decide)
  have hcut : (joined.delete 2 1).resolve ⟨0, 2⟩ = some 1 :=
    ((resolve_before_edit joined ⟨0, 2⟩ 1).2 2 1 (by decide)).mpr hend
  exact ⟨by decide, by decide, ⟨hpair, hend⟩, hcut⟩

/-- What resolves to the place of the edit itself can move: here a break ended, and goes on now. -/
example : (ofString "a\r").resolve ⟨1, 0⟩ = some 2 ∧
    ((ofString "a\r").insert 2 (ofString "\n")).resolve ⟨1, 0⟩ = some 3 := by decide

end Marginalia.Text
