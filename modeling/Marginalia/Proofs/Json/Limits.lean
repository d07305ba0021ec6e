import Marginalia.Proofs.Json.Written

/-! Decimals at and beyond the limits of what is wanted. A number that 64 bits cannot hold is a float or
no number at all, so it is refused where a whole number is wanted, and so is one that is not below
the bound (`readNatural_large`). -/
namespace Marginalia.Json

variable {rest : List Char}

/-- A number too large for its digits to be taken leaves one of them over. -/
theorem takeDigits_large {ds : List Char} (hdigits : ∀ d ∈ ds, isDigit d = true) {n : Nat}
    (hn : n < UInt64.size) (hlarge : UInt64.size ≤ Nat.ofDigitChars 10 ds n) (rest : List Char) :
    ∃ significand surplus, takeDigits n (ds ++ rest) = (significand, surplus ++ rest) ∧
      surplus ≠ [] ∧ ∀ d ∈ surplus, isDigit d = true := by
  induction ds generalizing n with
  | nil => exact absurd hn (Nat.not_lt_of_le hlarge)
  | cons d ds ih =>
    obtain ⟨hd, hrest⟩ := List.forall_mem_cons.mp hdigits
    rw [Nat.ofDigitChars_cons, Nat.mul_comm] at hlarge
    rw [List.cons_append, takeDigits]
    by_cases hnext : n * 10 + digitValue d < UInt64.size
    · rw [if_pos (by simp [hd, hnext])]
      exact ih hrest hnext hlarge
    · rw [if_neg (by simp [hnext])]
      exact ⟨n, d :: ds, rfl, List.cons_ne_nil _ _, hdigits⟩

theorem skipDigits_surplus {surplus : List Char} (h : ∀ d ∈ surplus, isDigit d = true)
    (hrest : NumberEnds rest) :
    ((surplus ++ rest).takeWhile isDigit).length = surplus.length ∧
      skipDigits (surplus ++ rest) = rest := by
  rw [List.takeWhile_append_of_pos h, takeWhile_of_ends hrest, List.append_nil, skipDigits,
    List.dropWhile_append_of_pos h]
  exact ⟨rfl, skipDigits_of_ends hrest⟩

/-- What 64 bits cannot hold is read as a float, if there is one that is large enough. -/
theorem readNumber_large {n : Nat} (hn : UInt64.size ≤ n) (h : NumberEnds rest) :
    ∃ significand places,
      readNumber false (writeNatural n ++ rest) = readFloat false significand places rest := by
  have hpositive : n ≠ 0 := by
    rintro rfl
    exact absurd hn (by decide)
  obtain ⟨d, ds, hds, hd⟩ := exists_writeNatural hpositive
  have hvalue : Nat.ofDigitChars 10 (writeNatural n) 0 = n :=
    Nat.ofDigitChars_toDigits (by decide) (by decide)
  have hdigit : isDigit d = true := isDigit_of_mem_writeNatural (hds ▸ List.mem_cons_self)
  obtain ⟨significand, surplus, htaken, hsurplus, hdigits⟩ := takeDigits_large
    (fun _ => isDigit_of_mem_writeNatural) (by decide : 0 < UInt64.size) (hvalue.symm ▸ hn) rest
  obtain ⟨hlength, hskipped⟩ := skipDigits_surplus hdigits h
  refine ⟨significand, surplus.length, ?_⟩
  rw [hds, List.cons_append] at htaken ⊢
  rw [readNumber, if_neg hd, if_pos hdigit, htaken]
  dsimp only
  rw [hlength, hskipped, readNumberEnd_of_ends h, if_pos (mt List.length_eq_zero_iff.mp hsurplus)]

theorem readFloat_cases (negative : Bool) (significand : Nat) (places : Int) (cs : List Char) :
    (∃ x, readFloat negative significand places cs = .ok (.float negative x, cs)) ∨
      ∃ p, readFloat negative significand places cs = .error p := by
  unfold readFloat
  split
  · exact .inl ⟨_, rfl⟩
  · exact .inr ⟨_, rfl⟩

section Refusal

variable {wanted : Wanted} {bound n : Nat} {p : Problem}

/-- Only what the reader of numbers finds is a matter of the bound. -/
theorem readNatural_refused
    (h : readNumber false (writeNatural n ++ rest) = .error p ∨
      ∃ x tail, readNumber false (writeNatural n ++ rest) = .ok (x, tail) ∧
        naturalOf wanted bound x = .error p) :
    readNatural wanted bound (writeNatural n ++ rest) = .error p := by
  have hsome : writeNatural n ≠ [] := Nat.toDigits_ne_nil
  obtain ⟨d, ds, hds⟩ := List.exists_cons_of_ne_nil hsome
  have hdigit : isDigit d = true := isDigit_of_mem_writeNatural (hds ▸ List.mem_cons_self)
  have hunsigned : d ≠ '-' := by
    rintro rfl
    cases hdigit
  rw [hds, List.cons_append] at h ⊢
  rw [readNatural, skipBlank_cons (isBlank_of_isDigit hdigit)]
  rcases h with hnumber | ⟨x, tail, hnumber, hx⟩
  · simp [hdigit, hunsigned, hnumber]
  · simp [hdigit, hunsigned, hnumber, hx]

/-- Nothing that is not below the bound is brought below it. -/
theorem readNatural_large (wanted : Wanted) (hn : bound ≤ n) (h : NumberEnds rest) :
    ∃ p, readNatural wanted bound (writeNatural n ++ rest) = .error p := by
  by_cases hsmall : n < UInt64.size
  · have hout : naturalOf wanted bound (.integer n) = .error (.outOfRange n wanted) :=
      if_neg fun hin => by omega
    exact ⟨_, readNatural_refused (.inr ⟨_, _, readNumber_written hsmall h, hout⟩)⟩
  · obtain ⟨significand, places, hnumber⟩ := readNumber_large (Nat.le_of_not_lt hsmall) h
    rcases readFloat_cases false significand places rest with ⟨x, hfloat⟩ | ⟨p, hfloat⟩
    · exact ⟨_, readNatural_refused (.inr ⟨_, _, hnumber.trans hfloat, rfl⟩)⟩
    · exact ⟨p, readNatural_refused (.inl (hnumber.trans hfloat))⟩

end Refusal

end Marginalia.Json
