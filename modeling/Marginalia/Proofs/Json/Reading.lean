import Marginalia.Proofs.Json.Grammar
import Marginalia.Proofs.Json.Written

/-! The readers of blanks, strings and numbers take just what the grammar gives, whatever comes
behind it. -/
namespace Marginalia.Json

theorem skipBlank_append {front : List Char} (h : Blanks front) (cs : List Char) :
    skipBlank (front ++ cs) = skipBlank cs :=
  List.dropWhile_append_of_pos h

theorem skipBlank_append_cons {front : List Char} (h : Blanks front) {c : Char}
    (hc : isBlank c = false) (cs : List Char) : skipBlank (front ++ c :: cs) = c :: cs := by
  rw [skipBlank_append h, skipBlank_cons hc]

theorem readColon_blanks {blanks : List Char} (h : Blanks blanks) (rest : List Char) :
    readColon (blanks ++ ':' :: rest) = .ok rest := by
  have hcolon : isBlank ':' = false := rfl
  simp only [readColon, skipBlank_append_cons h hcolon, if_true]

theorem readUnit_hex {n : Nat} {cs : List Char} (h : Hex n cs) (rest : List Char) :
    readUnit (cs ++ rest) = .ok (n, rest) := by
  cases h with
  | digits ha hb hc hd => simp only [List.cons_append, List.nil_append, readUnit, ha, hb, hc, hd]

/-- No character is half of a surrogate pair. -/
theorem not_surrogate (c : Char) :
    isLowSurrogate c.toNat = false ∧ isHighSurrogate c.toNat = false := by
  have hvalid : c.toNat < 0xD800 ∨ 0xDFFF < c.toNat ∧ c.toNat < 0x110000 := c.valid
  simp only [isLowSurrogate, isHighSurrogate]
  constructor <;> simp <;> omega

section Text

variable {paired : Bool} {cs : List Char}

theorem readEscape_short {e c : Char} (h : shortEscape? e = some c) (rest : List Char) :
    readEscape paired (e :: rest) = .ok (c, rest) := by
  have hunit : e ≠ 'u' := by
    rintro rfl
    cases h
  unfold readEscape
  split
  · rename_i heq
    cases heq
  · rename_i heq
    exact absurd (List.cons.inj heq).1 hunit
  · rename_i heq
    cases heq
    rw [h]

theorem readEscape_hex {c : Char} (h : Hex c.toNat cs) (rest : List Char) :
    readEscape paired ('u' :: (cs ++ rest)) = .ok (c, rest) := by
  obtain ⟨hlow, hhigh⟩ := not_surrogate c
  simp [readEscape, readUnit_hex h, hlow, hhigh, Char.ofNat_toNat]

theorem readEscape_pair {high low : Nat} {ds : List Char} {c : Char}
    (hhigh : isHighSurrogate high = true) (hlow : isLowSurrogate low = true) (hcs : Hex high cs)
    (hds : Hex low ds) (h : c.toNat = 0x10000 + (high - 0xD800) * 0x400 + (low - 0xDC00))
    (rest : List Char) :
    readEscape true ('u' :: (cs ++ ('\\' :: 'u' :: (ds ++ rest)))) = .ok (c, rest) := by
  have hfirst : isLowSurrogate high = false := by
    simp only [isLowSurrogate, isHighSurrogate, Bool.and_eq_true, decide_eq_true_eq] at hhigh ⊢
    simp
    omega
  have hsecond : readLowSurrogate high ('\\' :: 'u' :: (ds ++ rest)) = .ok (c, rest) := by
    simp [readLowSurrogate, readUnit_hex hds, hlow, ← h, Char.ofNat_toNat]
  simp [readEscape, readUnit_hex hcs, hfirst, hhigh, hsecond]

theorem readCharacters_spells {c : Char} (h : Spells c cs) (done rest : List Char) :
    readCharacters true done (cs ++ rest) = readCharacters true (c :: done) rest := by
  cases h with
  | plain h => exact readCharacters_of_plain h.1 h.2.1 h.2.2
  | short h => exact readCharacters_of_escape (readEscape_short h rest)
  | unit h => exact readCharacters_of_escape (readEscape_hex h rest)
  | pair hhigh hlow hcs hds h =>
    have hpair := readEscape_pair hhigh hlow hcs hds h rest
    simpa using readCharacters_of_escape hpair

theorem readCharacters_spelling {text : List Char} (h : Spelling text cs) (done rest : List Char) :
    readCharacters true done (cs ++ '"' :: rest) = .ok (done.reverse ++ text, rest) := by
  induction h generalizing done with
  | nil => simp [readCharacters_quote]
  | cons hc _ ih =>
    rw [List.append_assoc, readCharacters_spells hc, ih]
    simp

theorem readString_spelling {s : String} (h : Spelling s.toList cs) (rest : List Char) :
    readString (cs ++ '"' :: rest) = .ok (s, rest) := by
  simp [readString, readCharacters_spelling h]

/-- Half of a pair is let pass where nobody looks. -/
theorem readEscape_unpaired {n : Nat} (h : Hex n cs) (rest : List Char) :
    readEscape false ('u' :: (cs ++ rest)) = .ok (Char.ofNat n, rest) := by
  simp [readEscape, readUnit_hex h]

theorem readCharacters_inside (h : Inside cs) (done rest : List Char) :
    ∃ text, readCharacters false done (cs ++ '"' :: rest) = .ok (text, rest) := by
  induction h generalizing done with
  | nil => exact ⟨done.reverse, readCharacters_quote⟩
  | plain hc _ ih =>
    rw [List.cons_append, readCharacters_of_plain hc.1 hc.2.1 hc.2.2]
    exact ih _
  | short he _ ih =>
    rw [List.cons_append, List.cons_append, readCharacters_of_escape (readEscape_short he _)]
    exact ih _
  | unit hcs _ ih =>
    rw [List.cons_append, List.cons_append, List.append_assoc,
      readCharacters_of_escape (readEscape_unpaired hcs _)]
    exact ih _

theorem skipString_inside (h : Inside cs) (rest : List Char) :
    skipString (cs ++ '"' :: rest) = .ok rest := by
  obtain ⟨text, htext⟩ := readCharacters_inside h [] rest
  simp only [skipString, htext]

end Text

section Number

variable {cs rest : List Char}

theorem skipDigits_append {ds : List Char} (h : ∀ d ∈ ds, isDigit d = true) (rest : List Char) :
    skipDigits (ds ++ rest) = skipDigits rest :=
  List.dropWhile_append_of_pos h

theorem skipSomeDigits_append {ds : List Char} (h : Digits ds) (rest : List Char) :
    skipSomeDigits (ds ++ rest) = .ok (skipDigits rest) := by
  obtain ⟨d, ds, rfl⟩ := List.exists_cons_of_ne_nil h.1
  obtain ⟨hd, hds⟩ := List.forall_mem_cons.mp h.2
  simp only [List.cons_append, skipSomeDigits, hd, if_true, skipDigits_append hds]

/-- A digit is no sign. -/
theorem readSign_of_digits {ds : List Char} (h : Digits ds) (rest : List Char) :
    readSign (ds ++ rest) = (false, ds ++ rest) := by
  obtain ⟨d, ds, rfl⟩ := List.exists_cons_of_ne_nil h.1
  have hd : isDigit d = true := h.2 d List.mem_cons_self
  unfold readSign
  split
  · rename_i heq
    cases (List.cons.inj heq).1
    cases hd
  · rename_i heq
    cases (List.cons.inj heq).1
    cases hd
  · rfl

theorem skipFloatEnd_of_ends (h : NumberEnds rest) : skipFloatEnd rest = .ok rest := by
  unfold skipFloatEnd
  split
  · exact absurd rfl (h 'e' rfl).2.2.1
  · exact absurd rfl (h 'E' rfl).2.2.2
  · rfl

theorem skipFloatEnd_exponent (he : Exponent cs) (h : NumberEnds rest) :
    skipFloatEnd (cs ++ rest) = .ok rest := by
  cases he with
  | none => exact skipFloatEnd_of_ends h
  | @digits e sign ds he hsign hds =>
    have hsigned : skipExponent (sign ++ (ds ++ rest)) = .ok rest := by
      have hdigits := skipSomeDigits_append hds rest
      rw [skipDigits_of_ends h] at hdigits
      rcases hsign with rfl | rfl | rfl
      · rw [List.nil_append, skipExponent, readSign_of_digits hds]
        exact hdigits
      · exact hdigits
      · exact hdigits
    rw [List.cons_append, List.append_assoc]
    rcases he with rfl | rfl
    · exact hsigned
    · exact hsigned

/-- No digit stands in front of the exponent, nor behind the number. -/
theorem skipDigits_exponent (he : Exponent cs) (h : NumberEnds rest) :
    skipDigits (cs ++ rest) = cs ++ rest := by
  cases he with
  | none => exact skipDigits_of_ends h
  | digits he =>
    rcases he with rfl | rfl
    · rfl
    · rfl

theorem skipNumberEnd_of_not_point (h : ∀ c ∈ cs.head?, c ≠ '.') :
    skipNumberEnd cs = skipFloatEnd cs := by
  unfold skipNumberEnd
  split
  · exact absurd rfl (h '.' rfl)
  · rfl

theorem skipNumberEnd_fraction {fraction : List Char} (hf : Fraction fraction) (he : Exponent cs)
    (h : NumberEnds rest) : skipNumberEnd (fraction ++ (cs ++ rest)) = .ok rest := by
  have hend := skipFloatEnd_exponent he h
  cases hf with
  | none =>
    have hpoint : ∀ c ∈ (cs ++ rest).head?, c ≠ '.' := by
      cases he with
      | none => exact fun c hc => (h c hc).2.1
      | digits he =>
        rintro c ⟨⟩
        rcases he with rfl | rfl
        · decide
        · decide
    rw [List.nil_append, skipNumberEnd_of_not_point hpoint]
    exact hend
  | @digits ds hds =>
    have hdigits := skipSomeDigits_append hds (cs ++ rest)
    rw [skipDigits_exponent he h] at hdigits
    simp only [List.cons_append, skipNumberEnd, hdigits]
    exact hend

/-- Neither does one stand in front of the fraction. -/
theorem skipDigits_fraction {fraction : List Char} (hf : Fraction fraction) (he : Exponent cs)
    (h : NumberEnds rest) :
    skipDigits (fraction ++ (cs ++ rest)) = fraction ++ (cs ++ rest) := by
  cases hf with
  | none =>
    rw [List.nil_append]
    exact skipDigits_exponent he h
  | digits => rfl

theorem skipNumber_whole {whole fraction : List Char} (hw : Whole whole) (hf : Fraction fraction)
    (he : Exponent cs) (h : NumberEnds rest) :
    skipNumber (whole ++ (fraction ++ (cs ++ rest))) = .ok rest := by
  have hend := skipNumberEnd_fraction hf he h
  have hnone := skipDigits_fraction hf he h
  generalize fraction ++ (cs ++ rest) = tail at hend hnone
  cases hw with
  | zero =>
    have hnext : (tail.head?.map isDigit).getD false = false := by
      cases tail with
      | nil => rfl
      | cons c tail =>
        rw [Bool.eq_false_iff]
        intro hc
        -- dropping a digit would make the text shorter
        have hdropped : skipDigits (c :: tail) = skipDigits tail :=
          List.dropWhile_cons_of_pos hc
        have := length_skipDigits_le tail
        rw [← hdropped, hnone, List.length_cons] at this
        omega
    rw [List.cons_append, skipNumber, if_pos rfl, List.nil_append, hnext]
    exact hend
  | @digits d ds hzero hds =>
    obtain ⟨hd, hds⟩ := List.forall_mem_cons.mp hds.2
    rw [List.cons_append, skipNumber, if_neg hzero, if_pos hd, skipDigits_append hds, hnone]
    exact hend

end Number

end Marginalia.Json
