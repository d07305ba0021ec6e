import Marginalia.Proofs.Text.Lines

/-! A text as its lines and the breaks between them. A text is put together from lines in which no break
occurs, and breaks as they are spelled. There is one way to do so, and the lines that can be asked for
are those of it (`lines_part_text`). -/
namespace Marginalia.Text

/-- Lines and breaks that take turns make up the text. A carriage return and a line feed with nothing
between them are one break. -/
structure Parts (cs : List Char) (texts breaks : List (List Char)) : Prop where
  between : texts.length = breaks.length + 1
  plain : ∀ text ∈ texts, ∀ c ∈ text, [c] ∉ endings
  known : ∀ ending ∈ breaks, ending ∈ endings
  whole : cs = (List.zipWith (· ++ ·) texts (breaks ++ [[]])).flatten
  apart : ∀ i, ¬(breaks[i]? = some ['\r'] ∧ texts[i + 1]? = some [] ∧ breaks[i + 1]? = some ['\n'])

section Parts

variable {cs text ending : List Char} {texts breaks : List (List Char)}

theorem parts_nil_iff : Parts cs texts [] ↔ texts = [cs] ∧ Plain cs := by
  constructor
  · intro h
    obtain ⟨text, rfl⟩ := List.length_eq_one_iff.mp h.between
    obtain rfl : cs = text := by simpa using h.whole
    exact ⟨rfl, h.plain cs List.mem_cons_self⟩
  · rintro ⟨rfl, plain⟩
    exact ⟨rfl, List.forall_mem_singleton.mpr plain, by simp, by simp, by simp⟩

theorem parts_cons_iff : Parts cs (text :: texts) (ending :: breaks) ↔
    Plain text ∧ ending ∈ endings ∧
      ¬(ending = ['\r'] ∧ texts[0]? = some [] ∧ breaks[0]? = some ['\n']) ∧
      ∃ rest, cs = text ++ (ending ++ rest) ∧ Parts rest texts breaks := by
  constructor
  · intro h
    have hplain := List.forall_mem_cons.mp h.plain
    have hknown := List.forall_mem_cons.mp h.known
    refine ⟨hplain.1, hknown.1, ?_, _, by simpa using h.whole, ?_⟩
    · simpa using h.apart 0
    · exact ⟨Nat.succ.inj h.between, hplain.2, hknown.2, rfl, fun i => by simpa using h.apart (i + 1)⟩
  · rintro ⟨hplain, hknown, hfirst, rest, rfl, h⟩
    refine ⟨congrArg Nat.succ h.between, List.forall_mem_cons.mpr ⟨hplain, h.plain⟩,
      List.forall_mem_cons.mpr ⟨hknown, h.known⟩, by simpa using h.whole, fun i => ?_⟩
    cases i with
    | zero => simpa using hfirst
    | succ i => simpa using h.apart i

end Parts

theorem Cut.head?_eq_iff {cs : List Char} {ls : List Line} (h : Cut cs ls) :
    cs.head? = some '\n' ↔ ls[0]? = some ⟨[], ['\n']⟩ := by
  obtain ⟨l, rest, rfl⟩ := h.exists_cons
  rw [← h.starts_iff, List.getElem?_cons_zero, Option.some_inj]

section Break

variable {ending rest : List Char}

theorem Break.mem_endings (h : Break ending rest) : ending ∈ endings := by
  cases h with
  | pair => decide
  | single breaks _ => exact breaks

theorem Break.of_mem_endings (h : ending ∈ endings)
    (hwhole : ending = ['\r'] → rest.head? ≠ some '\n') : Break ending rest := by
  have hshape : ∀ ending ∈ endings, ending = ['\r', '\n'] ∨ ending.length = 1 := by decide
  rcases hshape ending h with rfl | hlength
  · exact .pair rest
  · obtain ⟨c, rfl⟩ := List.length_eq_one_iff.mp hlength
    exact .single h fun hc => hwhole (congrArg ([·]) hc)

end Break

/-- The parts that a cut into lines gives. -/
theorem Cut.parts {cs : List Char} {ls : List Line} (h : Cut cs ls) :
    Parts cs (ls.map Line.content) (ls.map Line.ending).dropLast := by
  induction h with
  | last plain => exact parts_nil_iff.mpr ⟨rfl, plain⟩
  | @line content ending rest ls plain ends below ih =>
    obtain ⟨l, tail, rfl⟩ := below.exists_cons
    refine parts_cons_iff.mpr ⟨plain, ends.mem_endings, ?_, rest, rfl, ih⟩
    rintro ⟨rfl, hcontent, hending⟩
    have hfeed : rest.head? = some '\n' := by
      rw [List.getElem?_dropLast, Option.ite_none_right_eq_some] at hending
      rw [← below.starts_iff]
      exact congr (congrArg Line.mk (Option.some.inj hcontent)) (Option.some.inj hending.2)
    cases ends with
    | single _ whole => exact whole rfl hfeed

/-- The cut into lines that parts give. -/
theorem Parts.cut {cs : List Char} {texts breaks : List (List Char)} (h : Parts cs texts breaks) :
    Cut cs (List.zipWith Line.mk texts (breaks ++ [[]])) := by
  induction breaks generalizing cs texts with
  | nil =>
    obtain ⟨rfl, plain⟩ := parts_nil_iff.mp h
    exact .last plain
  | cons ending breaks ih =>
    cases texts with
    | nil => cases h.between
    | cons text texts =>
      obtain ⟨plain, known, hapart, rest, rfl, hrest⟩ := parts_cons_iff.mp h
      have hcut := ih hrest
      refine .line plain (.of_mem_endings known ?_) hcut
      rintro rfl hfeed
      rw [hcut.head?_eq_iff, List.getElem?_zipWith_eq_some] at hfeed
      obtain ⟨text, ending, htext, hending, hline⟩ := hfeed
      cases hline
      refine hapart ⟨rfl, htext, ?_⟩
      cases breaks with
      | nil => simp at hending
      | cons => exact hending

/-- There is one way to take a text apart. -/
theorem parts_iff (t : Text) {texts breaks : List (List Char)} : Parts t.chars texts breaks ↔
    texts = t.lines.map Line.content ∧ breaks = (t.lines.map Line.ending).dropLast := by
  constructor
  · intro h
    have hlength : texts.length = (breaks ++ [[]]).length := by simp [h.between]
    have hlines : t.lines = List.zipWith Line.mk texts (breaks ++ [[]]) := h.cut.lines_eq
    have htexts := List.map_fst_zip (Nat.le_of_eq hlength)
    have hbreaks := List.map_snd_zip (Nat.le_of_eq hlength.symm)
    rw [List.zip, List.map_zipWith] at htexts hbreaks
    rw [hlines, List.map_zipWith, List.map_zipWith]
    constructor
    · exact htexts.symm
    · exact List.dropLast_concat.symm.trans (congrArg List.dropLast hbreaks.symm)
  · rintro ⟨rfl, rfl⟩
    exact t.cut_lines.parts

/-- A line feed alone after a whole break, and a carriage return at the end. -/
example : Parts "a\r\n\nb\r".toList [['a'], [], ['b'], []] [['\r', '\n'], ['\n'], ['\r']] :=
  (parts_iff (ofString "a\r\n\nb\r")).mpr (by decide)

/-- The lines that can be asked for are those of the one way in which the text is put together from
lines without a break and the breaks between them. -/
theorem lines_part_text (t : Text) :
    (∀ i, (t.line? i).isSome = true ↔ i < t.lineCount) ∧
    (∀ i line, t.line? i = some line → ∀ c ∈ line.toList, [c] ∉ endings) ∧
    ∃ texts breaks, (∀ i, t.line? i = texts[i]?.map String.ofList) ∧
      breaks.length + 1 = t.lineCount ∧
      Parts t.chars texts breaks ∧
      ∀ others ends, Parts t.chars others ends → others = texts ∧ ends = breaks := by
  have hparts := t.cut_lines.parts
  have hline : ∀ i, t.line? i = (t.lines.map Line.content)[i]?.map String.ofList := by
    intro i
    rw [line?_eq, List.getElem?_map, Option.map_map]
    rfl
  refine ⟨fun i => ?_, fun i line hi c hc => ?_, t.lines.map Line.content,
    (t.lines.map Line.ending).dropLast, hline, ?_, hparts, fun _ _ h => (parts_iff t).mp h⟩
  · simp [line?, lineCount]
  · rw [hline i] at hi
    obtain ⟨text, htext, rfl⟩ := Option.map_eq_some_iff.mp hi
    rw [String.toList_ofList] at hc
    exact hparts.plain text (List.mem_of_getElem? htext) c hc
  · rw [← hparts.between, List.length_map]
    rfl

end Marginalia.Text
