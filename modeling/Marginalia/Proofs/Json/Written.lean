import Marginalia.Json.Value
import Marginalia.Json.Written

/-! What is written is read back, whatever comes behind it. Only a number must not go on there
(`NumberEnds`), because nothing else tells where it stops. -/
namespace Marginalia.Json

theorem skipBlank_cons {c : Char} (h : isBlank c = false) (cs : List Char) :
    skipBlank (c :: cs) = c :: cs := by
  simp [skipBlank, h]

section Text

variable {paired : Bool} {done cs rest : List Char} {c : Char}

theorem readCharacters_of_escape (h : readEscape paired cs = .ok (c, rest)) :
    readCharacters paired done ('\\' :: cs) = readCharacters paired (c :: done) rest := by
  rw [readCharacters]
  simp only [Char.reduceEq, if_false, if_true]
  split
  · rename_i he
    rw [h] at he
    cases he
  · rename_i he
    rw [h] at he
    cases he
    rfl

theorem readCharacters_of_plain (hquote : c ≠ '"') (hescape : c ≠ '\\') (hc : ¬c < ' ') :
    readCharacters paired done (c :: cs) = readCharacters paired (c :: done) cs := by
  rw [readCharacters]
  simp [hquote, hescape, hc]

theorem readCharacters_quote :
    readCharacters paired done ('"' :: cs) = .ok (done.reverse, cs) := by
  rw [readCharacters]
  rfl

theorem hexValue?_digitChar : ∀ n < 16, hexValue? (Nat.digitChar n) = some n := by decide

/-- Characters below U+0020 need two digits. -/
theorem readEscape_unit (hc : c < ' ') :
    readEscape paired
      ('u' :: '0' :: '0' :: Nat.digitChar (c.toNat / 16) :: Nat.digitChar (c.toNat % 16) :: rest) =
      .ok (c, rest) := by
  have hlow : c.toNat < 32 := hc
  have hunit : readUnit
      ('0' :: '0' :: Nat.digitChar (c.toNat / 16) :: Nat.digitChar (c.toNat % 16) :: rest) =
      .ok (c.toNat, rest) := by
    have hzero : hexValue? '0' = some 0 := rfl
    have hdivMod : (0 * 16 + 0) * 16 + c.toNat / 16 = c.toNat / 16 := by omega
    simp only [readUnit, hzero, hexValue?_digitChar _ (show c.toNat / 16 < 16 by omega),
      hexValue?_digitChar _ (Nat.mod_lt c.toNat (show 16 > 0 by decide)), hdivMod]
    rw [Nat.div_add_mod']
  have hsingle : isLowSurrogate c.toNat = false ∧ isHighSurrogate c.toNat = false := by
    simp only [isLowSurrogate, isHighSurrogate]
    constructor <;> simp <;> omega
  simp [readEscape, hunit, hsingle.1, hsingle.2, Char.ofNat_toNat]

theorem readCharacters_escapeCharacter (c : Char) :
    readCharacters paired done (escapeCharacter c ++ cs) =
      readCharacters paired (c :: done) cs := by
  unfold escapeCharacter
  split
  case h_8 hquote hescape _ _ _ _ _ =>
    split
    · rename_i hc
      exact readCharacters_of_escape (readEscape_unit hc)
    · rename_i hc
      exact readCharacters_of_plain hquote hescape hc
  all_goals exact readCharacters_of_escape rfl

theorem readCharacters_written (text done rest : List Char) :
    readCharacters paired done (text.flatMap escapeCharacter ++ '"' :: rest) =
      .ok (done.reverse ++ text, rest) := by
  induction text generalizing done with
  | nil => simp [readCharacters_quote]
  | cons c text ih =>
    rw [List.flatMap_cons, List.append_assoc, readCharacters_escapeCharacter, ih]
    simp

end Text

theorem readString_written (s : String) (rest : List Char) :
    readString (s.toList.flatMap escapeCharacter ++ '"' :: rest) = .ok (s, rest) := by
  simp [readString, readCharacters_written]

theorem readText_written (wanted : Wanted) (s : String) (rest : List Char) :
    readText wanted (writeText s ++ rest) = .ok (s, rest) := by
  have hquote : isBlank '"' = false := rfl
  simp [readText, writeText, skipBlank_cons hquote, readString_written]

theorem readOptionalText_written (wanted : Wanted) (s : Option String) (rest : List Char) :
    readOptionalText wanted (writeOptionalText s ++ rest) = .ok (s, rest) := by
  cases s with
  | none => rfl
  | some s =>
    have hquote : isBlank '"' = false := rfl
    obtain ⟨tail, htail⟩ : ∃ tail, writeText s ++ rest = '"' :: tail := ⟨_, rfl⟩
    have htext := readText_written wanted s rest
    change readOptionalText wanted (writeText s ++ rest) = _
    rw [htail] at htext ⊢
    simp [readOptionalText, skipBlank_cons hquote, htext]

theorem readBoolean_written (b : Bool) (rest : List Char) :
    readBoolean (writeBoolean b ++ rest) = .ok (b, rest) := by
  cases b <;> rfl

/-- A number that stands in front does not go on here. -/
def NumberEnds (rest : List Char) : Prop :=
  ∀ c ∈ rest.head?, isDigit c = false ∧ c ≠ '.' ∧ c ≠ 'e' ∧ c ≠ 'E'

section Number

variable {rest : List Char}

theorem takeDigits_of_ends (h : NumberEnds rest) (significand : Nat) :
    takeDigits significand rest = (significand, rest) := by
  cases rest with
  | nil => rfl
  | cons c rest => simp [takeDigits, (h c rfl).1]

theorem skipDigits_of_ends (h : NumberEnds rest) : skipDigits rest = rest := by
  cases rest with
  | nil => rfl
  | cons c rest => simp [skipDigits, (h c rfl).1]

theorem takeWhile_of_ends (h : NumberEnds rest) : rest.takeWhile isDigit = [] := by
  cases rest with
  | nil => rfl
  | cons c rest => simp [(h c rfl).1]

/-- A number that ends after its whole part is an integer, unless digits were left out. -/
theorem readNumberEnd_of_ends (h : NumberEnds rest) (significand places : Nat) :
    readNumberEnd false significand places rest =
      if places ≠ 0 then readFloat false significand places rest
      else .ok (.integer significand, rest) := by
  unfold readNumberEnd
  split
  · exact absurd rfl (h '.' rfl).2.1
  · exact absurd rfl (h 'e' rfl).2.2.1
  · exact absurd rfl (h 'E' rfl).2.2.2
  · rfl

theorem le_ofDigitChars (ds : List Char) (n : Nat) : n ≤ Nat.ofDigitChars 10 ds n := by
  induction ds generalizing n with
  | nil => exact Nat.le_refl n
  | cons d ds ih =>
    rw [Nat.ofDigitChars_cons]
    have := ih (10 * n + (d.toNat - '0'.toNat))
    omega

/-- Digits are taken as long as their number is below the bound. -/
theorem takeDigits_append {ds : List Char} (hdigits : ∀ d ∈ ds, isDigit d = true) {n : Nat}
    (hlt : Nat.ofDigitChars 10 ds n < UInt64.size) :
    takeDigits n (ds ++ rest) = takeDigits (Nat.ofDigitChars 10 ds n) rest := by
  induction ds generalizing n with
  | nil => rfl
  | cons d ds ih =>
    obtain ⟨hd, hdigits⟩ := List.forall_mem_cons.mp hdigits
    rw [Nat.ofDigitChars_cons, Nat.mul_comm] at hlt ⊢
    have hnext : n * 10 + digitValue d < UInt64.size :=
      Nat.lt_of_le_of_lt (le_ofDigitChars ds _) hlt
    rw [List.cons_append, takeDigits, if_pos (by simp [hd, hnext])]
    exact ih hdigits hlt

theorem isDigit_of_mem_writeNatural {n : Nat} {d : Char} (h : d ∈ writeNatural n) :
    isDigit d = true :=
  Nat.isDigit_of_mem_toDigits (by decide) (by decide) h

/-- Only the number zero is written with a zero in front. -/
theorem exists_writeNatural {n : Nat} (hn : n ≠ 0) :
    ∃ d ds, writeNatural n = d :: ds ∧ d ≠ '0' := by
  induction n using Nat.strongRecOn with
  | ind n ih =>
    unfold writeNatural
    rw [Nat.toDigits_eq_if (by decide)]
    split
    · rename_i hsmall
      refine ⟨n.digitChar, [], rfl, fun hd => hn ?_⟩
      have hvalue := Nat.toNat_digitChar_of_lt_ten hsmall
      rw [hd] at hvalue
      change 48 = 48 + n at hvalue
      omega
    · obtain ⟨d, ds, hds, hd⟩ := ih (n / 10) (by omega) (by omega)
      rw [writeNatural] at hds
      exact ⟨d, ds ++ [_], by rw [hds, List.cons_append], hd⟩

theorem readNumber_written {n : Nat} (hn : n < UInt64.size) (h : NumberEnds rest) :
    readNumber false (writeNatural n ++ rest) = .ok (.integer n, rest) := by
  by_cases hzero : n = 0
  · subst hzero
    have hnext : (rest.head?.map isDigit).getD false = false := by
      cases rest with
      | nil => rfl
      | cons c rest => exact (h c rfl).1
    change readNumber false ('0' :: rest) = _
    rw [readNumber, if_pos rfl, hnext]
    exact readNumberEnd_of_ends h 0 0
  · obtain ⟨d, ds, hds, hd⟩ := exists_writeNatural hzero
    have hdigit : isDigit d = true := isDigit_of_mem_writeNatural (hds ▸ List.mem_cons_self)
    have hvalue : Nat.ofDigitChars 10 (writeNatural n) 0 = n :=
      Nat.ofDigitChars_toDigits (by decide) (by decide)
    have htaken : takeDigits 0 (writeNatural n ++ rest) = (n, rest) := by
      rw [takeDigits_append (fun _ => isDigit_of_mem_writeNatural) (hvalue.symm ▸ hn), hvalue,
        takeDigits_of_ends h]
    rw [hds, List.cons_append] at htaken ⊢
    rw [readNumber, if_neg hd, if_pos hdigit, htaken]
    dsimp only
    rw [takeWhile_of_ends h, skipDigits_of_ends h]
    exact readNumberEnd_of_ends h n 0

theorem isBlank_of_isDigit {c : Char} (h : isDigit c = true) : isBlank c = false := by
  rw [Bool.eq_false_iff]
  intro hblank
  simp only [isBlank, Bool.or_eq_true, decide_eq_true_eq] at hblank
  rcases hblank with ((rfl | rfl) | rfl) | rfl <;> cases h

theorem readNatural_written (wanted : Wanted) {bound n : Nat} (hn : n < bound)
    (hbound : bound ≤ UInt64.size) (h : NumberEnds rest) :
    readNatural wanted bound (writeNatural n ++ rest) = .ok (n, rest) := by
  have hnumber := readNumber_written (Nat.lt_of_lt_of_le hn hbound) h
  have hsome : writeNatural n ≠ [] := Nat.toDigits_ne_nil
  obtain ⟨d, ds, hds⟩ := List.exists_cons_of_ne_nil hsome
  have hdigit : isDigit d = true := isDigit_of_mem_writeNatural (hds ▸ List.mem_cons_self)
  have hunsigned : d ≠ '-' := by
    rintro rfl
    cases hdigit
  rw [hds, List.cons_append] at hnumber ⊢
  rw [readNatural, skipBlank_cons (isBlank_of_isDigit hdigit)]
  simp [hdigit, hunsigned, hnumber, naturalOf, hn]

end Number

end Marginalia.Json
