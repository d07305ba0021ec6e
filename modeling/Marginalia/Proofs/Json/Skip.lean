import Marginalia.Proofs.Json.Reading

/-! Passing over a value takes just that value, however deep it is, and leaves the containers around
it as they were (`skipFrom_phrase`). The machine has one equation for each of its moves; in front of
an item of a container, an opening bracket or a comma has been read. -/
namespace Marginalia.Json

theorem isBlank_opening (container : Container) : isBlank container.opening = false := by
  cases container <;> rfl

theorem isBlank_closing (container : Container) : isBlank container.closing = false := by
  cases container <;> rfl

theorem numberEnds_append {back rest : List Char} (h : Blanks back) (hrest : NumberEnds rest) :
    NumberEnds (back ++ rest) := by
  cases back with
  | nil => exact hrest
  | cons c back =>
    rintro c ⟨⟩
    have hblank : isBlank c = true := h c List.mem_cons_self
    simp only [isBlank, Bool.or_eq_true, decide_eq_true_eq] at hblank
    rcases hblank with ((rfl | rfl) | rfl) | rfl <;> decide

theorem numberEnds_comma (cs : List Char) : NumberEnds (',' :: cs) := by
  rintro c ⟨⟩
  decide

theorem numberEnds_closing (container : Container) (cs : List Char) :
    NumberEnds (container.closing :: cs) := by
  rintro c ⟨⟩
  cases container <;> decide

/-- A value that is neither blank nor a container starts here. -/
def StartsScalar (c : Char) : Prop :=
  isBlank c = false ∧ c ≠ '[' ∧ c ≠ '\x7b' ∧ c ≠ ']'

instance (c : Char) : Decidable (StartsScalar c) :=
  inferInstanceAs (Decidable (isBlank c = false ∧ c ≠ '[' ∧ c ≠ '\x7b' ∧ c ≠ ']'))

theorem startsScalar_of_isDigit {c : Char} (h : isDigit c = true) : StartsScalar c := by
  refine ⟨isBlank_of_isDigit h, ?_, ?_, ?_⟩ <;> (rintro rfl; cases h)

theorem Whole.start {cs : List Char} (h : Whole cs) : ∃ d ds, cs = d :: ds ∧ isDigit d = true := by
  cases h with
  | zero => exact ⟨_, _, rfl, rfl⟩
  | digits _ h => exact ⟨_, _, rfl, h.2 _ List.mem_cons_self⟩

theorem Scalar.start {cs : List Char} (h : Scalar cs) :
    ∃ c ds, cs = c :: ds ∧ StartsScalar c := by
  cases h with
  | null | true | false | string => exact ⟨_, _, rfl, by decide⟩
  | number h =>
    obtain ⟨rfl | rfl, hwhole, _, _⟩ := h
    · obtain ⟨d, ds, rfl, hd⟩ := hwhole.start
      exact ⟨d, _, rfl, startsScalar_of_isDigit hd⟩
    · exact ⟨_, _, rfl, by decide⟩

theorem skipScalar_of_isDigit {c : Char} (h : isDigit c = true) (cs : List Char) :
    skipScalar (c :: cs) = skipNumber (c :: cs) := by
  have hother : c ≠ 'n' ∧ c ≠ 't' ∧ c ≠ 'f' ∧ c ≠ '"' ∧ c ≠ '-' := by
    refine ⟨?_, ?_, ?_, ?_, ?_⟩ <;> (rintro rfl; cases h)
  simp only [skipScalar, hother, if_false, h, if_true]

theorem skipScalar_numeral {cs rest : List Char} (h : Numeral cs) (hrest : NumberEnds rest) :
    skipScalar (cs ++ rest) = .ok rest := by
  obtain ⟨hsign, hwhole, hfraction, hexponent⟩ := h
  have hnumber := skipNumber_whole hwhole hfraction hexponent hrest
  rw [List.append_assoc, List.append_assoc, List.append_assoc]
  rcases hsign with rfl | rfl
  · obtain ⟨d, ds, rfl, hd⟩ := hwhole.start
    exact (skipScalar_of_isDigit hd _).trans hnumber
  · exact hnumber

theorem skipScalar_scalar {cs rest : List Char} (h : Scalar cs) (hrest : NumberEnds rest) :
    skipScalar (cs ++ rest) = .ok rest := by
  cases h with
  | null | true | false => rfl
  | string h =>
    rw [List.cons_append, List.append_assoc]
    exact skipString_inside h rest
  | number h => exact skipScalar_numeral h hrest

section Moves

variable {stack outer : List Container} {container : Container} {cs tail rest : List Char}
  {c : Char}

theorem skipFrom_value_opening (hblank : skipBlank cs = container.opening :: rest) :
    skipFrom stack .value cs = skipFrom (container :: stack) .opened rest := by
  conv => lhs; rw [skipFrom]
  split <;> rename_i h <;> cases hblank.symm.trans h
  cases container with
  | list => exact if_pos rfl
  | object => exact (if_neg (by decide)).trans (if_pos rfl)

theorem skipFrom_value_scalar (hblank : skipBlank cs = c :: tail) (hc : StartsScalar c)
    (hscalar : skipScalar (c :: tail) = .ok rest) :
    skipFrom stack .value cs = skipFrom stack .after rest := by
  conv => lhs; rw [skipFrom]
  split <;> rename_i h <;> cases hblank.symm.trans h
  rw [if_neg hc.2.1, if_neg hc.2.2.1]
  split <;> rename_i h <;> cases hscalar.symm.trans h
  rfl

theorem skipFrom_opened_closing (hblank : skipBlank cs = container.closing :: rest) :
    skipFrom (container :: outer) .opened cs = skipFrom outer .after rest := by
  conv => lhs; rw [skipFrom]
  split <;> rename_i h <;> cases hblank.symm.trans h
  rw [if_pos rfl]

theorem skipFrom_opened_item (hblank : skipBlank cs = c :: tail) (hc : c ≠ container.closing)
    (hkey : skipKey container (c :: tail) = .ok rest) :
    skipFrom (container :: outer) .opened cs = skipFrom (container :: outer) .value rest := by
  conv => lhs; rw [skipFrom]
  split <;> rename_i h <;> cases hblank.symm.trans h
  rw [if_neg hc]
  split <;> rename_i h <;> cases hkey.symm.trans h
  rfl

theorem skipFrom_after_comma (hblank : skipBlank cs = ',' :: tail)
    (hkey : skipKey container tail = .ok rest) :
    skipFrom (container :: outer) .after cs = skipFrom (container :: outer) .value rest := by
  conv => lhs; rw [skipFrom]
  split <;> rename_i h <;> cases hblank.symm.trans h
  rw [if_pos rfl]
  split <;> rename_i h <;> cases hkey.symm.trans h
  rfl

theorem skipFrom_after_closing (hblank : skipBlank cs = container.closing :: rest) :
    skipFrom (container :: outer) .after cs = skipFrom outer .after rest := by
  conv => lhs; rw [skipFrom]
  split <;> rename_i h <;> cases hblank.symm.trans h
  have hcomma : container.closing ≠ ',' := by cases container <;> decide
  rw [if_neg hcomma, if_pos rfl]

theorem skipFrom_value_blanks {front : List Char} (h : Blanks front) (cs : List Char) :
    skipFrom stack .value (front ++ cs) = skipFrom stack .value cs := by
  conv => lhs; rw [skipFrom]
  conv => rhs; rw [skipFrom]
  rw [skipBlank_append h]

theorem skipFrom_after_blanks {back : List Char} (h : Blanks back) (cs : List Char) :
    skipFrom (container :: outer) .after (back ++ cs) =
      skipFrom (container :: outer) .after cs := by
  conv => lhs; rw [skipFrom]
  conv => rhs; rw [skipFrom]
  rw [skipBlank_append h]

end Moves

theorem skipKey_object {name blanks front : List Char} (hname : Inside name)
    (hblanks : Blanks blanks) (hfront : Blanks front) (rest : List Char) :
    skipKey .object (front ++ ('"' :: (name ++ '"' :: (blanks ++ [':'])) ++ rest)) = .ok rest := by
  have hquote : isBlank '"' = false := rfl
  have hcolon := readColon_blanks hblanks rest
  simp [skipKey, skipBlank_append_cons hfront hquote, skipString_inside hname, hcolon]

section Items

variable {outer : List Container} {container : Container} {front key middle cs : List Char}

/-- A list reads on in front of the value, an object behind the colon. -/
theorem skipFrom_opened_key {c : Char} (hfront : Blanks front) (hkey : Key container key)
    (hmiddle : Blanks middle) (hblank : isBlank c = false) (hc : c ≠ ']') (cs : List Char) :
    skipFrom (container :: outer) .opened (front ++ (key ++ (middle ++ c :: cs))) =
      skipFrom (container :: outer) .value (c :: cs) := by
  cases hkey with
  | list =>
    have hskipped : skipBlank (front ++ (middle ++ c :: cs)) = c :: cs := by
      rw [skipBlank_append hfront, skipBlank_append_cons hmiddle hblank]
    exact skipFrom_opened_item hskipped hc rfl
  | @object name blanks hname hblanks =>
    have hquote : isBlank '"' = false := rfl
    have hskipped := skipBlank_append_cons hfront hquote
      (name ++ '"' :: (blanks ++ [':']) ++ (middle ++ c :: cs))
    have hnone : Blanks [] := nofun
    have hread := skipKey_object hname hblanks hnone (middle ++ c :: cs)
    exact (skipFrom_opened_item hskipped (by decide) hread).trans (skipFrom_value_blanks hmiddle _)

theorem skipFrom_comma_key (hfront : Blanks front) (hkey : Key container key)
    (hmiddle : Blanks middle) (cs : List Char) :
    skipFrom (container :: outer) .after (',' :: (front ++ (key ++ (middle ++ cs)))) =
      skipFrom (container :: outer) .value cs := by
  have hcomma : isBlank ',' = false := rfl
  have hskipped := skipBlank_cons hcomma (front ++ (key ++ (middle ++ cs)))
  cases hkey with
  | list =>
    refine (skipFrom_after_comma hskipped rfl).trans ?_
    rw [skipFrom_value_blanks hfront, List.nil_append, skipFrom_value_blanks hmiddle]
  | object hname hblanks =>
    have hread := skipKey_object hname hblanks hfront (middle ++ cs)
    rw [skipFrom_after_comma hskipped hread, skipFrom_value_blanks hmiddle]

end Items

theorem Phrase.start {cs : List Char} (h : Phrase .value cs) :
    ∃ c ds, cs = c :: ds ∧ isBlank c = false ∧ c ≠ ']' := by
  cases h with
  | scalar h =>
    obtain ⟨c, ds, rfl, hc⟩ := h.start
    exact ⟨c, ds, rfl, hc.1, hc.2.2.2⟩
  | empty container | @full _ container =>
    exact ⟨_, _, rfl, isBlank_opening container, by cases container <;> decide⟩

/-- What the machine does with a text of the shape. It is behind a value when it is done with one,
and behind a container when it is done with its items. -/
def Shape.Skips : Shape → List Char → Prop
  | .value, cs => ∀ stack rest, NumberEnds rest →
    skipFrom stack .value (cs ++ rest) = skipFrom stack .after rest
  | .items container, cs => ∀ outer rest,
    skipFrom (container :: outer) .opened (cs ++ container.closing :: rest) =
        skipFrom outer .after rest ∧
      skipFrom (container :: outer) .after (',' :: (cs ++ container.closing :: rest)) =
        skipFrom outer .after rest

/-- An item, when the machine is done with what stands behind its value. -/
theorem skips_item {container : Container} {front key middle cs tail : List Char}
    (hfront : Blanks front) (hkey : Key container key) (hmiddle : Blanks middle)
    (hvalue : Phrase .value cs) (hskips : Shape.value.Skips cs) (htail : NumberEnds tail)
    {outer : List Container} {r : Except Problem (List Char)}
    (h : skipFrom (container :: outer) .after tail = r) :
    skipFrom (container :: outer) .opened (front ++ (key ++ (middle ++ (cs ++ tail)))) = r ∧
      skipFrom (container :: outer) .after (',' :: (front ++ (key ++ (middle ++ (cs ++ tail))))) =
        r := by
  have hdone := (hskips (container :: outer) tail htail).trans h
  obtain ⟨c, ds, rfl, hblank, hc⟩ := hvalue.start
  exact ⟨(skipFrom_opened_key hfront hkey hmiddle hblank hc _).trans hdone,
    (skipFrom_comma_key hfront hkey hmiddle _).trans hdone⟩

theorem Phrase.skips {shape : Shape} {cs : List Char} (h : Phrase shape cs) : shape.Skips cs := by
  induction h with
  | @scalar cs h =>
    intro stack rest hrest
    have hskipped := skipScalar_scalar h hrest
    obtain ⟨c, ds, rfl, hc⟩ := h.start
    exact skipFrom_value_scalar (skipBlank_cons hc.1 _) hc hskipped
  | @empty cs container h =>
    intro stack rest _
    have hopening := skipBlank_cons (isBlank_opening container) (cs ++ [container.closing] ++ rest)
    have hclosing := skipBlank_append_cons h (isBlank_closing container) rest
    rw [List.append_assoc] at hopening
    rw [List.cons_append, List.append_assoc]
    exact (skipFrom_value_opening hopening).trans (skipFrom_opened_closing hclosing)
  | @full cs container _ ih =>
    intro stack rest _
    have hopening := skipBlank_cons (isBlank_opening container) (cs ++ [container.closing] ++ rest)
    rw [List.append_assoc] at hopening
    rw [List.cons_append, List.append_assoc]
    exact (skipFrom_value_opening hopening).trans (ih stack rest).1
  | @last container front key middle cs back hfront hkey hmiddle h hback ih =>
    intro outer rest
    have hclosing := skipBlank_append_cons hback (isBlank_closing container) rest
    have hafter : skipFrom (container :: outer) .after (back ++ container.closing :: rest) =
        skipFrom outer .after rest := skipFrom_after_closing hclosing
    have hitem := skips_item hfront hkey hmiddle h ih
      (numberEnds_append hback (numberEnds_closing container rest)) hafter
    simpa only [List.append_assoc] using hitem
  | @more container front key middle cs back ds hfront hkey hmiddle h hback _ ih ihs =>
    intro outer rest
    have hafter := (skipFrom_after_blanks hback _).trans (ihs outer rest).2
    have hitem := skips_item hfront hkey hmiddle h ih
      (numberEnds_append hback (numberEnds_comma _)) hafter
    simpa only [List.append_assoc, List.cons_append] using hitem

/-- The containers around a value are left as they were. -/
theorem skipFrom_phrase {cs rest : List Char} (h : Phrase .value cs) (hrest : NumberEnds rest)
    (stack : List Container) :
    skipFrom stack .value (cs ++ rest) = skipFrom stack .after rest :=
  h.skips stack rest hrest

theorem skipValue_phrase {front cs rest : List Char} (hfront : Blanks front)
    (h : Phrase .value cs) (hrest : NumberEnds rest) :
    skipValue (front ++ (cs ++ rest)) = .ok rest := by
  rw [skipValue, skipFrom_value_blanks hfront, skipFrom_phrase h hrest, skipFrom]

end Marginalia.Json
