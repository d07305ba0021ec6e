import Marginalia.Proofs.Json.Limits
import Marginalia.Proofs.Settings.ByName

/-! The numbers of the settings, in decimals of any length. A number is read as it is written or not at
all, and the limit of sizes is then as exact as it was written, also where it is more bytes than 64
bits can count (`parse_numbers`). -/
namespace Marginalia.Settings

open Json

/-- A member that gives a number under the name of a field, with the blanks around its parts. -/
inductive NumberMember : Field × Nat → List Char → Prop
  | mk {f : Field} {n : Nat} {front name behind middle back : List Char} (hfront : Blanks front)
      (hname : Spelling f.name.toList name) (hbehind : Blanks behind) (hmiddle : Blanks middle)
      (hback : Blanks back) :
      NumberMember (f, n) (front ++ '"' :: (name ++ '"' :: (behind ++ ':' ::
        (middle ++ (writeNatural n ++ back)))))

/-- An object that gives a limit of sizes and then a layer, and nothing else. -/
abbrev Numbers (kb layer : Nat) : List Char → Prop :=
  Enclosed .object NumberMember [(.sizeLimitKb, kb), (.layer, layer)]

variable {s given : Settings} {f : Field} {seen : List Field} {kb layer n : Nat}
  {cs rest : List Char} {p : Problem} {text : String}

theorem NumberMember.member (h : NumberMember (f, n) cs)
    (hvalue : FieldText given f (writeNatural n)) : Member given (some f) cs := by
  obtain ⟨hfront, hname, hbehind, hmiddle, hback⟩ := h
  exact .mk hfront hname hbehind hmiddle (.field hvalue) hback

theorem readMember_refused (hf : f ∉ seen) {behind middle : List Char} (hbehind : Blanks behind)
    (hmiddle : Blanks middle) (hvalue : readField s f cs = .error p) :
    readMember seen s f.name (behind ++ ':' :: (middle ++ cs)) = .error p := by
  have hcolon := readColon_blanks hbehind (middle ++ cs)
  simp only [readMember, Field.ofName?_name, if_neg hf, hcolon, readField_blanks hmiddle, hvalue,
    Read.map]

theorem readField_large {wanted : Wanted} {bound : Nat} {take : Nat → Settings}
    (hf : ∀ cs, readField s f cs = Read.map take (readNatural wanted bound cs)) (hn : bound ≤ n)
    (rest : List Char) (hrest : NumberEnds rest) :
    ∃ p, readField s f (writeNatural n ++ rest) = .error p := by
  obtain ⟨p, hp⟩ := readNatural_large wanted hn hrest
  exact ⟨p, by rw [hf, hp, Read.map]⟩

/-- A number that its field cannot hold ends the object. -/
theorem readMembers_refused (first : Bool) (h : NumberMember (f, n) cs) (hf : f ∉ seen)
    (hlarge : ∀ rest, NumberEnds rest → ∃ p, readField s f (writeNatural n ++ rest) = .error p)
    (hrest : NumberEnds rest) :
    ∃ p, readMembers first seen s ((if first then [] else [',']) ++ (cs ++ rest)) = .error p := by
  obtain ⟨hfront, hname, hbehind, hmiddle, hback⟩ := h
  obtain ⟨p, hp⟩ := hlarge _ (numberEnds_append hback hrest)
  have hvalue := readMember_refused hf hbehind hmiddle hp
  refine ⟨p, ?_⟩
  simp only [List.append_assoc, List.cons_append]
  rw [readMembers_keyed first seen s hfront hname, hvalue]

/-- The settings that two numbers make, where they fit. -/
def ofNumbers (kb layer : Nat) : Settings :=
  { sizeLimitKb := .ofNat kb, layer := ⟨.ofNat layer⟩ }

theorem toNat_ofNumbers_kb (hkb : kb < UInt64.size) (layer : Nat) :
    (ofNumbers kb layer).sizeLimitKb.toNat = kb := UInt64.toNat_ofNat_of_lt' hkb

theorem toNat_ofNumbers_layer (kb : Nat) (hlayer : layer < UInt32.size) :
    (ofNumbers kb layer).layer.number.toNat = layer := UInt32.toNat_ofNat_of_lt' hlayer

theorem fieldText_kb (hkb : kb < UInt64.size) (layer : Nat) :
    FieldText (ofNumbers kb layer) .sizeLimitKb (writeNatural kb) :=
  congrArg writeNatural (toNat_ofNumbers_kb hkb layer).symm

theorem fieldText_layer (kb : Nat) (hlayer : layer < UInt32.size) :
    FieldText (ofNumbers kb layer) .layer (writeNatural layer) :=
  congrArg writeNatural (toNat_ofNumbers_layer kb hlayer).symm

theorem Numbers.exists_members (h : Numbers kb layer cs) :
    ∃ front first last back, Blanks front ∧ NumberMember (.sizeLimitKb, kb) first ∧
      NumberMember (.layer, layer) last ∧ Blanks back ∧
      cs = front ++ '\x7b' :: (first ++ ',' :: last ++ '\x7d' :: back) := by
  cases h with
  | full hfront hmembers hback =>
    cases hmembers with
    | more hfirst hrest =>
      cases hrest with
      | last hlast => exact ⟨_, _, _, _, hfront, hfirst, hlast, hback, rfl⟩
      | more _ hnone => cases hnone

section Text

variable {front first last back : List Char}

theorem readJson_numbers (hfront : Blanks front) (hfirst : NumberMember (.sizeLimitKb, kb) first)
    (hlast : NumberMember (.layer, layer) last) (hback : Blanks back) (hkb : kb < UInt64.size)
    (hlayer : layer < UInt32.size) :
    readJson (front ++ '\x7b' :: (first ++ ',' :: last ++ '\x7d' :: back)) =
      .ok (ofNumbers kb layer) := by
  have hmembers : Separated (Member (ofNumbers kb layer)) [some .sizeLimitKb, some .layer]
      (first ++ ',' :: last) :=
    .more (hfirst.member (fieldText_kb hkb layer)) (.last (hlast.member (fieldText_layer kb hlayer)))
  exact readJson_object (.full hfront hmembers hback) (by decide)

theorem readJson_stopped (hfront : Blanks front) {p : Problem}
    (h : readMembers true [] {} cs = .error p) : readJson (front ++ '\x7b' :: cs) = .error p := by
  have hbrace : isBlank '\x7b' = false := rfl
  simp only [readJson, skipBlank_append_cons hfront hbrace, if_true, h, finish]

/-- The first number that does not fit is refused, whatever comes behind it. -/
theorem readJson_large (hfront : Blanks front) (hfirst : NumberMember (.sizeLimitKb, kb) first)
    (hlast : NumberMember (.layer, layer) last)
    (hlarge : UInt64.size ≤ kb ∨ UInt32.size ≤ layer) (back : List Char) :
    ∃ p, readJson (front ++ '\x7b' :: (first ++ ',' :: last ++ '\x7d' :: back)) = .error p := by
  have hends : NumberEnds ('\x7d' :: back) := numberEnds_closing .object back
  have hcomma : NumberEnds (',' :: (last ++ '\x7d' :: back)) := numberEnds_comma _
  rw [List.append_assoc, List.cons_append]
  by_cases hkb : kb < UInt64.size
  · have hlayer : UInt32.size ≤ layer := hlarge.resolve_left (Nat.not_le_of_lt hkb)
    obtain ⟨p, hp⟩ := readMembers_refused (s := ({} : Settings).take (ofNumbers kb layer) .sizeLimitKb)
      false hlast (by decide : .layer ∉ [Field.sizeLimitKb])
      (readField_large (fun _ => rfl) hlayer) hends
    refine ⟨p, readJson_stopped hfront (Eq.trans ?_ hp)⟩
    exact readMembers_member true (hfirst.member (fieldText_kb hkb layer))
      (fun _ _ => List.not_mem_nil) hcomma
  · obtain ⟨p, hp⟩ := readMembers_refused (s := {}) true hfirst List.not_mem_nil
      (readField_large (fun _ => rfl) (Nat.le_of_not_lt hkb)) hcomma
    exact ⟨p, readJson_stopped hfront hp⟩

end Text

theorem parse_fits (h : Numbers kb layer text.toList) (hkb : kb < UInt64.size)
    (hlayer : layer < UInt32.size) : parse text = (ofNumbers kb layer).validate := by
  obtain ⟨front, first, last, back, hfront, hfirst, hlast, hback, htext⟩ := h.exists_members
  simp only [parse, htext, readJson_numbers hfront hfirst hlast hback hkb hlayer]

theorem parse_large (h : Numbers kb layer text.toList)
    (hlarge : UInt64.size ≤ kb ∨ UInt32.size ≤ layer) : ∃ p, parse text = .error (.json p) := by
  obtain ⟨front, first, last, back, hfront, hfirst, hlast, -, htext⟩ := h.exists_members
  obtain ⟨p, hp⟩ := readJson_large hfront hfirst hlast hlarge back
  exact ⟨p, by simp only [parse, htext, hp]⟩

theorem validate_ofNumbers_zero (layer : Nat) :
    (ofNumbers 0 layer).validate = .error .zeroSizeLimit := rfl

theorem validate_ofNumbers (hkb : kb < UInt64.size) (hpositive : 1 ≤ kb) (layer : Nat) :
    (ofNumbers kb layer).validate = .ok (ofNumbers kb layer) := by
  have hnat := toNat_ofNumbers_kb hkb layer
  have hsome : (ofNumbers kb layer).sizeLimitKb ≠ 0 := by
    intro hzero
    rw [hzero] at hnat
    exact absurd hnat.symm (Nat.ne_of_gt hpositive)
  simp [validate, isValid, hsome]

/-- A limit that 64 bits cannot count in bytes allows every count of bytes that they can. -/
theorem allowsSize_iff (s : Settings) {bytes : Nat} (h : bytes < UInt64.size) :
    s.allowsSize bytes = true ↔ (s.sizeLimited = true → bytes ≤ 1024 * s.sizeLimitKb.toNat) := by
  have hlimit : bytes ≤ s.byteLimit ↔ bytes ≤ 1024 * s.sizeLimitKb.toNat := by
    rw [byteLimit, Nat.mul_comm, Nat.le_min]
    omega
  simp only [allowsSize, Bool.or_eq_true, Bool.not_eq_true', decide_eq_true_eq, hlimit]
  cases s.sizeLimited <;> simp

/-- What comes of a limit of `kb` and a layer, given in an object of their own. -/
structure Exact (kb layer : Nat) (result : Except LoadProblem Settings) : Prop where
  accepted : (∃ s, result = .ok s) ↔ 1 ≤ kb ∧ kb < UInt64.size ∧ layer < UInt32.size
  zero : result = .error .zeroSizeLimit ↔ kb = 0 ∧ layer < UInt32.size
  refused : (∃ p, result = .error (.json p)) ↔ UInt64.size ≤ kb ∨ UInt32.size ≤ layer
  numbers : ∀ s, result = .ok s → s.sizeLimitKb.toNat = kb ∧ s.layer.number.toNat = layer ∧
    s = { sizeLimitKb := s.sizeLimitKb, layer := s.layer }
  allows : ∀ s, result = .ok s →
    ∀ bytes < UInt64.size, s.allowsSize bytes = true ↔ bytes ≤ 1024 * kb

theorem parse_numbers (kb layer : Nat) (text : String) (h : Numbers kb layer text.toList) :
    Exact kb layer (parse text) := by
  have hsome : 0 < UInt64.size := by decide
  by_cases hlarge : UInt64.size ≤ kb ∨ UInt32.size ≤ layer
  · obtain ⟨p, hp⟩ := parse_large h hlarge
    rw [hp]
    constructor <;> simp <;> omega
  obtain ⟨hkb, hlayer⟩ : kb < UInt64.size ∧ layer < UInt32.size := by omega
  have hfits := parse_fits h hkb hlayer
  by_cases hpositive : 1 ≤ kb
  · rw [hfits, validate_ofNumbers hkb hpositive]
    have hnat := toNat_ofNumbers_kb hkb layer
    constructor
    case accepted | zero | refused =>
      simp
      omega
    case numbers =>
      rintro s ⟨⟩
      exact ⟨hnat, toNat_ofNumbers_layer kb hlayer, rfl⟩
    case allows =>
      rintro s ⟨⟩ bytes hbytes
      rw [allowsSize_iff _ hbytes, hnat]
      exact ⟨fun h => h rfl, fun h _ => h⟩
  · obtain rfl : kb = 0 := by omega
    rw [hfits, validate_ofNumbers_zero]
    constructor <;> simp <;> omega

/-- The greatest numbers that are taken, and one more. -/
theorem parse_numbers_greatest :
    (∃ s, parse "\x7b\"sizeThresholdKb\":18446744073709551615,\"decorationLayer\":4294967295\x7d" =
      .ok s ∧ s.sizeLimitKb.toNat = 18446744073709551615 ∧
      s.allowsSize 18446744073709551615 = true) ∧
      ∃ p, parse "\x7b\"sizeThresholdKb\":18446744073709551616,\"decorationLayer\":0\x7d" =
        .error (.json p) := by
  have hnone : Blanks [] := by decide
  have hkb : Spelling Field.sizeLimitKb.name.toList _ := Unescaped.spelling (by decide)
  have hlayer : Spelling Field.layer.name.toList _ := Unescaped.spelling (by decide)
  have hnumbers (kb layer : Nat) : Numbers kb layer _ :=
    .full hnone (.more (.mk hnone hkb hnone hnone hnone) (.last (.mk hnone hlayer hnone hnone hnone)))
      hnone
  constructor
  · have h := parse_numbers 18446744073709551615 4294967295
      "\x7b\"sizeThresholdKb\":18446744073709551615,\"decorationLayer\":4294967295\x7d"
      (by rw [String.toList_ofList]; exact hnumbers _ _)
    obtain ⟨s, hs⟩ := h.accepted.mpr (by decide)
    exact ⟨s, hs, (h.numbers s hs).1, (h.allows s hs _ (by decide)).mpr (by decide)⟩
  · have h := parse_numbers 18446744073709551616 0
      "\x7b\"sizeThresholdKb\":18446744073709551616,\"decorationLayer\":0\x7d"
      (by rw [String.toList_ofList]; exact hnumbers _ _)
    exact h.refused.mpr (by decide)

end Marginalia.Settings
