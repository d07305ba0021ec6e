import Marginalia.Proofs.Json.Skip
import Marginalia.Proofs.Settings.RoundTrip

/-! Settings are read by name (`parse_by_name`): of an object only the values under the names of the
fields count, in whatever order and spelling they come, and other members are passed over. A list is
the short form of an object that names the first fields. -/
namespace Marginalia.Settings

open Json

/-- A string with its quotes. -/
inductive StringText (s : String) : List Char → Prop
  | mk {cs : List Char} (h : Spelling s.toList cs) : StringText s ('"' :: (cs ++ ['"']))

/-- A string, or `null` for its absence. -/
inductive OptionalText : Option String → List Char → Prop
  | none : OptionalText none ['n', 'u', 'l', 'l']
  | some {s : String} {cs : List Char} (h : StringText s cs) : OptionalText (some s) cs

/-- The value of a field. Only strings can be written in more than one way. -/
def FieldText (given : Settings) : Field → List Char → Prop
  | .executable => OptionalText (given.executable.map Path.spelling)
  | .clientName => OptionalText given.clientName
  | .clientId => StringText given.clientId
  | .sizeLimited => fun cs => cs = writeBoolean given.sizeLimited
  | .sizeLimitKb => fun cs => cs = writeNatural given.sizeLimitKb.toNat
  | .layer => fun cs => cs = writeNatural given.layer.number.toNat

/-- The value of a field under its name, or any value under a name that no field has. -/
inductive Content (given : Settings) : Option Field → String → List Char → Prop
  | field {f : Field} {cs : List Char} (h : FieldText given f cs) :
      Content given (some f) f.name cs
  | other {key : String} {cs : List Char} (hkey : ∀ f : Field, key ≠ f.name)
      (h : Phrase .value cs) : Content given none key cs

/-- A member of an object with the blanks around its parts. Its key may be spelled in any way. -/
inductive Member (given : Settings) : Option Field → List Char → Prop
  | mk {m : Option Field} {key : String} {front name behind middle cs back : List Char}
      (hfront : Blanks front) (hname : Spelling key.toList name) (hbehind : Blanks behind)
      (hmiddle : Blanks middle) (h : Content given m key cs) (hback : Blanks back) :
      Member given m (front ++ '"' :: (name ++ '"' :: (behind ++ ':' ::
        (middle ++ (cs ++ back)))))

/-- An element of a list with the blanks around it. -/
inductive Element (given : Settings) : Field → List Char → Prop
  | mk {f : Field} {front cs back : List Char} (hfront : Blanks front) (h : FieldText given f cs)
      (hback : Blanks back) : Element given f (front ++ (cs ++ back))

/-- The fields in the list as they are given, and the others as they were. -/
def merge (s given : Settings) (fs : List Field) : Settings where
  executable := if .executable ∈ fs then given.executable else s.executable
  clientName := if .clientName ∈ fs then given.clientName else s.clientName
  clientId := if .clientId ∈ fs then given.clientId else s.clientId
  sizeLimited := if .sizeLimited ∈ fs then given.sizeLimited else s.sizeLimited
  sizeLimitKb := if .sizeLimitKb ∈ fs then given.sizeLimitKb else s.sizeLimitKb
  layer := if .layer ∈ fs then given.layer else s.layer

theorem foldl_take (s given : Settings) (fs : List Field) :
    fs.foldl (·.take given) s = s.merge given fs := by
  induction fs generalizing s with
  | nil => rfl
  | cons f fs ih =>
    rw [List.foldl_cons, ih]
    cases f <;> simp [merge, take]

theorem merge_congr {fs gs : List Field} (h : ∀ f, f ∈ fs ↔ f ∈ gs) (s given : Settings) :
    s.merge given fs = s.merge given gs := by
  simp only [merge, h]

variable {given s : Settings} {cs rest : List Char}

theorem readText_stringText (wanted : Wanted) {text : String} (h : StringText text cs)
    (rest : List Char) : readText wanted (cs ++ rest) = .ok (text, rest) := by
  obtain ⟨hspelling⟩ := h
  have hquote : isBlank '"' = false := rfl
  simp [readText, skipBlank_cons hquote, readString_spelling hspelling]

theorem readOptionalText_optionalText (wanted : Wanted) {text : Option String}
    (h : OptionalText text cs) : readOptionalText wanted (cs ++ rest) = .ok (text, rest) := by
  cases h with
  | none => rfl
  | some h =>
    have htext := readText_stringText wanted h rest
    obtain ⟨hspelling⟩ := h
    have hquote : isBlank '"' = false := rfl
    rw [List.cons_append] at htext ⊢
    simp only [readOptionalText, skipBlank_cons hquote, Char.reduceEq, if_false, htext]

theorem readField_fieldText (s : Settings) {f : Field} (h : FieldText given f cs)
    (hrest : NumberEnds rest) : readField s f (cs ++ rest) = .ok (s.take given f, rest) := by
  cases f with
  | executable =>
    have hpath : (given.executable.map Path.spelling).map Path.mk = given.executable := by
      cases given.executable <;> rfl
    simp only [readField, readOptionalText_optionalText _ h, Read.map, hpath, take]
  | clientName => simp only [readField, readOptionalText_optionalText _ h, Read.map, take]
  | clientId => simp only [readField, readText_stringText _ h rest, Read.map, take]
  -- the other values can be written in one way only
  | sizeLimited | sizeLimitKb | layer =>
    cases h
    exact readField_written s given _ hrest

theorem readField_blanks {front : List Char} (h : Blanks front) (s : Settings) (f : Field)
    (cs : List Char) : readField s f (front ++ cs) = readField s f cs := by
  cases f <;>
    simp only [readField, readOptionalText, readText, readBoolean, readNatural, skipBlank_append h]

theorem spelling_inside {text : List Char} (h : Spelling text cs) : Inside cs := by
  induction h with
  | nil => exact .nil
  | cons hc _ ih =>
    cases hc with
    | plain h => exact .plain h ih
    | short h => exact .short h ih
    | unit h => exact .unit h ih
    | pair _ _ hcs hds =>
      have hpair := Inside.unit hcs (Inside.unit hds ih)
      simpa using hpair

theorem StringText.scalar {text : String} (h : StringText text cs) : Scalar cs := by
  obtain ⟨hspelling⟩ := h
  exact .string (spelling_inside hspelling)

theorem OptionalText.scalar {text : Option String} (h : OptionalText text cs) : Scalar cs := by
  cases h with
  | none => exact .null
  | some h => exact h.scalar

theorem numeral_writeNatural (n : Nat) : Numeral (writeNatural n) := by
  have hwhole : Whole (writeNatural n) := by
    by_cases hzero : n = 0
    · subst hzero
      exact .zero
    · obtain ⟨d, ds, hds, hd⟩ := exists_writeNatural hzero
      have hdigits : Digits (writeNatural n) :=
        ⟨Nat.toDigits_ne_nil, fun _ => isDigit_of_mem_writeNatural⟩
      rw [hds] at hdigits ⊢
      exact .digits hd hdigits
  simpa using Numeral.mk (.inl rfl) hwhole .none .none

theorem FieldText.scalar {f : Field} (h : FieldText given f cs) : Scalar cs := by
  cases f with
  | executable | clientName => exact OptionalText.scalar h
  | clientId => exact StringText.scalar h
  | sizeLimited =>
    cases h
    cases given.sizeLimited
    · exact .false
    · exact .true
  | sizeLimitKb | layer =>
    cases h
    exact .number (numeral_writeNatural _)

theorem ofName?_eq_none {key : String} (h : ∀ f : Field, key ≠ f.name) :
    Field.ofName? key = none := by
  rw [Field.ofName?, List.find?_eq_none]
  intro f _
  simpa using (h f).symm

section Members

variable {m : Option Field} {seen : List Field} {key : String}

theorem readMember_content (s : Settings) (hc : Content given m key cs) (hm : ∀ f ∈ m, f ∉ seen)
    {behind middle : List Char} (hbehind : Blanks behind) (hmiddle : Blanks middle)
    (hrest : NumberEnds rest) :
    readMember seen s key (behind ++ ':' :: (middle ++ (cs ++ rest))) =
      .ok ((m.toList ++ seen, m.toList.foldl (·.take given) s), rest) := by
  have hcolon := readColon_blanks hbehind (middle ++ (cs ++ rest))
  cases hc with
  | @field f cs h =>
    have hvalue := readField_fieldText s h hrest
    simp [readMember, hm f rfl, hcolon, readField_blanks hmiddle, hvalue, Read.map]
  | other hkey h =>
    simp [readMember, ofName?_eq_none hkey, hcolon, skipValue_phrase hmiddle h hrest]

theorem readMembers_blanks {back : List Char} (h : Blanks back) (first : Bool) (cs : List Char) :
    readMembers first seen s (back ++ cs) = readMembers first seen s cs := by
  conv => lhs; rw [readMembers]
  conv => rhs; rw [readMembers]
  rw [skipBlank_append h]

/-- The first key stands behind the brace, every other one behind a comma. -/
theorem readMembers_keyed (first : Bool) (seen : List Field) (s : Settings)
    {front name : List Char} (hfront : Blanks front) (hname : Spelling key.toList name)
    (cs : List Char) :
    readMembers first seen s ((if first then [] else [',']) ++
        (front ++ '"' :: (name ++ '"' :: cs))) =
      match readMember seen s key cs with
      | .error p => .error p
      | .ok (x, rest) => readMembers false x.1 x.2 rest := by
  have hquote : isBlank '"' = false := rfl
  have hkey := readString_spelling hname cs
  have hkeyed := skipBlank_append_cons hfront hquote (name ++ '"' :: cs)
  cases first with
  | true => exact readMembers_key hkeyed (by decide) rfl hkey
  | false =>
    refine readMembers_key rfl (by decide) ?_ hkey
    simp [readKeyStart, hkeyed]

theorem readMembers_member (first : Bool) (h : Member given m cs) (hm : ∀ f ∈ m, f ∉ seen)
    (hrest : NumberEnds rest) :
    readMembers first seen s ((if first then [] else [',']) ++ (cs ++ rest)) =
      readMembers false (m.toList ++ seen) (m.toList.foldl (·.take given) s) rest := by
  obtain ⟨hfront, hname, hbehind, hmiddle, hc, hback⟩ := h
  have hvalue := readMember_content s hc hm hbehind hmiddle (numberEnds_append hback hrest)
  refine Eq.trans ?_ (readMembers_blanks hback false rest)
  simp only [List.append_assoc, List.cons_append]
  rw [readMembers_keyed first seen s hfront hname, hvalue]

theorem readMembers_separated {ms : List (Option Field)} (h : Separated (Member given) ms cs)
    (first : Bool) (s : Settings) (hms : (ms.filterMap id ++ seen).Nodup) (rest : List Char) :
    readMembers first seen s ((if first then [] else [',']) ++ (cs ++ '\x7d' :: rest)) =
      .ok ((ms.filterMap id).foldl (·.take given) s, rest) := by
  have hfresh {m : Option Field} {ms : List (Option Field)} {seen : List Field}
      (hms : ((m :: ms).filterMap id ++ seen).Nodup) :
      (∀ f ∈ m, f ∉ seen) ∧ (ms.filterMap id ++ (m.toList ++ seen)).Nodup := by
    cases m with
    | none => exact ⟨nofun, hms⟩
    | some f =>
      refine ⟨?_, List.perm_middle.nodup_iff.mpr hms⟩
      rintro f ⟨⟩ h
      exact (List.nodup_cons.mp hms).1 (List.mem_append_right _ h)
  induction h generalizing first seen s with
  | @last m cs h =>
    obtain ⟨hm, -⟩ := hfresh hms
    have hclosed : readMembers false (m.toList ++ seen) (m.toList.foldl (·.take given) s)
        ('\x7d' :: rest) = .ok (m.toList.foldl (·.take given) s, rest) := by
      rw [readMembers]
      rfl
    have hends : NumberEnds ('\x7d' :: rest) := numberEnds_closing .object rest
    rw [readMembers_member first h hm hends, hclosed]
    cases m <;> rfl
  | @more m ms cs ds h _ ih =>
    obtain ⟨hm, hms⟩ := hfresh hms
    have hrest := ih false (m.toList.foldl (·.take given) s) hms
    rw [List.append_assoc, List.cons_append,
      readMembers_member first h hm (numberEnds_comma _)]
    refine hrest.trans ?_
    cases m <;> rfl

end Members

theorem readElements_blanks {back : List Char} (h : Blanks back) (first : Bool)
    (fs : List Field) (cs : List Char) :
    readElements first s fs (back ++ cs) = readElements first s fs cs := by
  cases fs <;> simp only [readElements, skipBlank_append h]

theorem readElements_element (first : Bool) {f : Field} (h : Element given f cs)
    (hrest : NumberEnds rest) (fs : List Field) :
    readElements first s (f :: fs) ((if first then [] else [',']) ++ (cs ++ rest)) =
      readElements false (s.take given f) fs rest := by
  obtain ⟨hfront, h, hback⟩ := h
  rename_i front cs back
  have hvalue := readField_fieldText s h (numberEnds_append hback hrest)
  obtain ⟨c, ds, rfl, hblank, hc⟩ := (Phrase.scalar h.scalar).start
  have hskipped := skipBlank_append_cons hfront hblank (ds ++ (back ++ rest))
  refine Eq.trans ?_ (readElements_blanks hback false fs rest)
  simp only [List.append_assoc, List.cons_append] at hvalue hskipped ⊢
  cases first with
  | true => simp [readElements, hskipped, hc, hvalue]
  | false =>
    have hcomma : isBlank ',' = false := rfl
    simp [readElements, skipBlank_cons hcomma, hskipped, hc, hvalue]

theorem readElements_closed (first : Bool) (s : Settings) (fs : List Field) (rest : List Char) :
    readElements first s fs (']' :: rest) = .ok (s, rest) := by
  cases fs <;> rfl

theorem readElements_separated {fs : List Field} (h : Separated (Element given) fs cs)
    (first : Bool) (s : Settings) (gs : List Field) (rest : List Char) :
    readElements first s (fs ++ gs) ((if first then [] else [',']) ++ (cs ++ ']' :: rest)) =
      .ok (fs.foldl (·.take given) s, rest) := by
  induction h generalizing first s with
  | last h =>
    have hends : NumberEnds (']' :: rest) := numberEnds_closing .list rest
    rw [List.singleton_append, readElements_element first h hends, readElements_closed]
    rfl
  | more h _ ih =>
    rw [List.cons_append, List.append_assoc, List.cons_append,
      readElements_element first h (numberEnds_comma _)]
    exact ih false (s.take given _)

theorem finish_blanks {back : List Char} (h : Blanks back) (s : Settings) :
    finish (.ok (s, back)) = .ok s := by
  have hskipped := skipBlank_append h []
  rw [List.append_nil] at hskipped
  simp only [finish, hskipped]
  rfl

theorem readJson_object {ms : List (Option Field)}
    (h : Enclosed .object (Member given) ms cs) (hms : (ms.filterMap id).Nodup) :
    readJson cs = .ok (({} : Settings).merge given (ms.filterMap id)) := by
  have hbrace : isBlank '\x7b' = false := rfl
  cases h with
  | @empty front cs back hfront h hback =>
    have hmembers : readMembers true [] {} (cs ++ '\x7d' :: back) = .ok ({}, back) := by
      rw [readMembers_blanks h, readMembers]
      rfl
    have hskipped := skipBlank_append_cons hfront hbrace (cs ++ '\x7d' :: back)
    simp only [readJson, Container.opening, Container.closing, hskipped, if_true, hmembers,
      finish_blanks hback]
    rfl
  | @full _ front cs back hfront h hback =>
    rw [← List.append_nil (ms.filterMap id)] at hms
    have hmembers := readMembers_separated h true {} hms back
    have hskipped := skipBlank_append_cons hfront hbrace (cs ++ '\x7d' :: back)
    simp only [if_true, List.nil_append] at hmembers
    simp only [readJson, Container.opening, Container.closing, hskipped, if_true, hmembers,
      finish_blanks hback, foldl_take]

theorem readJson_list {fs gs : List Field} (hall : Field.all = fs ++ gs)
    (h : Enclosed .list (Element given) fs cs) :
    readJson cs = .ok (({} : Settings).merge given fs) := by
  have hbracket : isBlank '[' = false := rfl
  have hother : '[' ≠ '\x7b' := by decide
  cases h with
  | @empty front cs back hfront h hback =>
    have helements := readElements_closed true {} Field.all back
    have hskipped := skipBlank_append_cons hfront hbracket (cs ++ ']' :: back)
    simp only [readJson, Container.opening, Container.closing, hskipped, hother, if_false, if_true,
      readElements_blanks h, helements, finish_blanks hback]
    rfl
  | @full _ front cs back hfront h hback =>
    have helements := readElements_separated h true {} gs back
    have hskipped := skipBlank_append_cons hfront hbracket (cs ++ ']' :: back)
    simp only [if_true, List.nil_append, ← hall] at helements
    simp only [readJson, Container.opening, Container.closing, hskipped, hother, if_false, if_true,
      helements, finish_blanks hback, foldl_take]

/-- The same fields with the same values give the same settings, in an object or in a list. -/
theorem parse_by_name (given : Settings) :
    (∀ (ms : List (Option Field)) (text : String), (ms.filterMap id).Nodup →
      Enclosed .object (Member given) ms text.toList →
      parse text = (({} : Settings).merge given (ms.filterMap id)).validate) ∧
      ∀ (k : Nat) (text : String), Enclosed .list (Element given) (Field.all.take k) text.toList →
        parse text = (({} : Settings).merge given (Field.all.take k)).validate ∧
          ∀ (ms : List (Option Field)) (other : String),
            (ms.filterMap id).Perm (Field.all.take k) →
            Enclosed .object (Member given) ms other.toList → parse other = parse text := by
  have hobject (ms : List (Option Field)) (text : String) (hms : (ms.filterMap id).Nodup)
      (h : Enclosed .object (Member given) ms text.toList) :
      parse text = (({} : Settings).merge given (ms.filterMap id)).validate := by
    simp only [parse, readJson_object h hms]
  refine ⟨hobject, fun k text htext => ?_⟩
  have hread := readJson_list (List.take_append_drop k Field.all).symm htext
  have hlist : parse text = (({} : Settings).merge given (Field.all.take k)).validate := by
    simp only [parse, hread]
  refine ⟨hlist, fun ms other hperm hother => ?_⟩
  have hall : Field.all.Nodup := by decide
  have hms : (ms.filterMap id).Nodup :=
    hperm.nodup_iff.mpr (hall.sublist (List.take_sublist k Field.all))
  rw [hlist, hobject ms other hms hother, merge_congr (fun f => hperm.mem_iff)]

/-- A key with an escape, fields out of order, a name that is not known twice, and half of a
surrogate pair where nobody looks; and the same two fields in a list. -/
theorem parse_by_name_reordered :
    parse ("\x7b\"clientN\\u0061me\":\"A\", \"x\":[-1,\x7b\"\\uD800\":[ ]\x7d] ,\"x\" :true," ++
        "\"executable\":null\x7d") = .ok { clientName := some "A" } ∧
      parse "[null,\"A\" ]" = .ok { clientName := some "A" } := by
  let given : Settings := { clientName := some "A" }
  have hblank : Blanks [' '] := by decide
  have hnone : Blanks [] := by decide
  have hletter : Spelling "A".toList ['A'] := Unescaped.spelling (by decide)
  have hvalue : FieldText given .clientName ['"', 'A', '"'] := OptionalText.some (.mk hletter)
  have hnull : FieldText given .executable ['n', 'u', 'l', 'l'] := OptionalText.none
  have hwithout : Element given .executable _ := .mk hnone hnull hnone
  have hnamed : Element given .clientName _ := .mk hnone hvalue hblank
  have ha : Hex 'a'.toNat ['0', '0', '6', '1'] :=
    .digits (i := 0) (j := 0) (k := 6) (l := 1) rfl rfl rfl rfl
  have hname : Spelling "clientName".toList _ :=
    (by decide : Unescaped "clientN".toList).spelling.append
      (.cons (.unit ha) (by decide : Unescaped "me".toList).spelling)
  have hfirst : Member given (some .clientName) _ :=
    .mk hnone hname hnone hnone (.field hvalue) hnone
  have hlast : Member given (some .executable) _ :=
    .mk hnone (Unescaped.spelling (by decide)) hnone hnone (.field hnull) hnone
  have hx : Spelling "x".toList _ := Unescaped.spelling (by decide)
  have hunknown : ∀ f : Field, "x" ≠ f.name := by
    intro f
    cases f <;> decide
  have hhalf : Hex 0xD800 ['D', '8', '0', '0'] :=
    .digits (i := 13) (j := 8) (k := 0) (l := 0) rfl rfl rfl rfl
  have hinner : Phrase (.items .object) _ :=
    .last hnone (.object (.unit hhalf .nil) hnone) hnone (.empty .list hblank) hnone
  have hone : Whole ['1'] := .digits (by decide) (by decide)
  have hminus : Numeral _ := .mk (.inr rfl) hone .none .none
  have hitems : Phrase (.items .list) _ :=
    .more hnone .list hnone (.scalar (.number hminus)) hnone
      (.last hnone .list hnone (.full hinner) hnone)
  have hother : Member given none _ :=
    .mk hblank hx hnone hnone (.other hunknown (.full hitems)) hblank
  have hagain : Member given none _ :=
    .mk hnone hx hblank hnone (.other hunknown (.scalar .true)) hnone
  constructor
  · refine ((parse_by_name given).1 [some .clientName, none, none, some .executable] _
      (by decide) ?_).trans rfl
    rw [String.toList_append, String.toList_ofList, String.toList_ofList]
    exact .full hnone (.more hfirst (.more hother (.more hagain (.last hlast)))) hnone
  · refine ((parse_by_name given).2 2 _ ?_).1.trans rfl
    rw [String.toList_ofList]
    exact .full hnone (.more hwithout (.last hnamed)) hnone

end Marginalia.Settings
