import Marginalia.Path

/-! The last name of a path and its stem, told of the spelling. The slashes behind the last name say
nothing, nor does a dot alone between them (`Path.fileName?_eq_some_iff`). A stem is what stands
before the last dot, and it is never empty (`Path.stem?_eq_some_iff`). -/
namespace Marginalia

namespace Component

variable {piece : List Char}

theorem ofPiece?_eq_none_iff : ofPiece? piece = none ↔ piece = [] ∨ piece = ['.'] := by
  unfold ofPiece?
  split <;> simp_all

theorem ofPiece?_eq_name_iff {text : String} :
    ofPiece? piece = some (.name text) ↔
      piece = text.toList ∧ text ≠ "" ∧ text ≠ "." ∧ text ≠ ".." := by
  have hlist : piece = text.toList ↔ String.ofList piece = text := by
    rw [← String.toList_inj, String.toList_ofList]
  rw [hlist]
  unfold ofPiece?
  split
  case h_4 hnone hdot hdots =>
    rw [Option.some_inj, name.injEq]
    refine ⟨?_, And.left⟩
    rintro rfl
    refine ⟨rfl, ?_, ?_, ?_⟩ <;> intro h <;> rw [← String.toList_inj, String.toList_ofList] at h
    · exact hnone h
    · exact hdot h
    · exact hdots h
  all_goals
    refine iff_of_false (by simp) ?_
    rintro ⟨rfl, h⟩
    simp at h

end Component

namespace Path

variable {cs : List Char} {p : Path} {name stem : String}

theorem pieces_cons {first : List Char} {rest : List (List Char)} (h : pieces cs = first :: rest)
    (c : Char) :
    pieces (c :: cs) = if c = '/' then [] :: first :: rest else (c :: first) :: rest :=
  congrArg (cutPiece c) h

theorem pieces_eq_splitOn (cs : List Char) : pieces cs = cs.splitOn '/' := by
  induction cs with
  | nil => rfl
  | cons c cs ih =>
    obtain ⟨first, rest, hsplit⟩ := List.exists_cons_of_ne_nil (List.splitOn_ne_nil '/' cs)
    rw [pieces_cons (ih.trans hsplit), List.splitOn_cons_eq_if_modifyHead, hsplit]
    simp

theorem pieces_append (front back : List Char) :
    pieces (front ++ '/' :: back) = pieces front ++ pieces back := by
  simp only [pieces_eq_splitOn, List.splitOn_append_cons_self]

theorem pieces_of_not_mem (h : '/' ∉ cs) : pieces cs = [cs] := by
  rw [pieces_eq_splitOn, List.splitOn_eq_singleton h]

theorem pieces_append_slash {piece : List Char} (h : '/' ∉ piece) (back : List Char) :
    pieces (piece ++ '/' :: back) = piece :: pieces back := by
  rw [pieces_append, pieces_of_not_mem h, List.singleton_append]

theorem not_mem_of_mem_pieces {piece : List Char} (h : piece ∈ pieces cs) : '/' ∉ piece := by
  induction cs generalizing piece with
  | nil =>
    rw [List.mem_singleton.mp h]
    exact List.not_mem_nil
  | cons c cs ih =>
    have hsome : pieces cs ≠ [] := pieces_eq_splitOn cs ▸ List.splitOn_ne_nil '/' cs
    obtain ⟨first, rest, hpieces⟩ := List.exists_cons_of_ne_nil hsome
    rw [pieces_cons hpieces] at h
    rw [hpieces] at ih
    split at h
    · rcases List.mem_cons.mp h with rfl | h
      · exact List.not_mem_nil
      · exact ih h
    · rename_i hc
      rcases List.mem_cons.mp h with rfl | h
      · exact List.not_mem_cons_of_ne_of_not_mem (Ne.symm hc) (ih List.mem_cons_self)
      · exact ih (List.mem_cons_of_mem _ h)

theorem intercalate_slash (before : List (List Char)) (piece : List Char)
    (after : List (List Char)) :
    ['/'].intercalate (before ++ piece :: after) =
      before.flatMap (· ++ ['/']) ++ (piece ++ after.flatMap ('/' :: ·)) := by
  have hafter : ['/'].intercalate (piece :: after) = piece ++ after.flatMap ('/' :: ·) := by
    induction after generalizing piece with
    | nil => simp
    | cons next after ih => simp [List.intercalate_cons_cons, ih]
  induction before with
  | nil => exact hafter
  | cons first before ih =>
    rw [List.cons_append, List.intercalate_cons_of_ne_nil (by simp), ih]
    simp

/-- Slashes with nothing but single dots between them and behind. -/
inductive Slack : List Char → Prop
  | nil : Slack []
  | slash {cs : List Char} (h : Slack cs) : Slack ('/' :: cs)
  | dot {cs : List Char} (h : Slack cs) : Slack ('/' :: '.' :: cs)

/-- The name that a path ends with, but for what means nothing. -/
structure LastName (p : Path) (name : String) : Prop where
  spelled : ∃ front back, p.spelling.toList = front ++ (name.toList ++ back) ∧
    (∀ c ∈ front.getLast?, c = '/') ∧ Slack back
  undivided : '/' ∉ name.toList
  proper : name ≠ "" ∧ name ≠ "." ∧ name ≠ ".."

theorem Slack.flatMap {after : List (List Char)}
    (h : ∀ piece ∈ after, Component.ofPiece? piece = none) :
    Slack (after.flatMap ('/' :: ·)) := by
  induction after with
  | nil => exact .nil
  | cons piece after ih =>
    obtain ⟨hpiece, hafter⟩ := List.forall_mem_cons.mp h
    rw [List.flatMap_cons]
    rcases Component.ofPiece?_eq_none_iff.mp hpiece with rfl | rfl
    · exact .slash (ih hafter)
    · exact .dot (ih hafter)

theorem Slack.pieces {back : List Char} (h : Slack back) {piece : List Char}
    (hpiece : '/' ∉ piece) :
    ∃ after, Path.pieces (piece ++ back) = piece :: after ∧
      ∀ p ∈ after, Component.ofPiece? p = none := by
  induction h generalizing piece with
  | nil => exact ⟨[], by rw [List.append_nil, pieces_of_not_mem hpiece], List.forall_mem_nil _⟩
  | slash _ ih =>
    obtain ⟨after, hpieces, hafter⟩ := ih List.not_mem_nil
    rw [List.nil_append] at hpieces
    exact ⟨[] :: after, by rw [pieces_append_slash hpiece, hpieces],
      List.forall_mem_cons.mpr ⟨rfl, hafter⟩⟩
  | dot _ ih =>
    obtain ⟨after, hpieces, hafter⟩ := ih (by decide : '/' ∉ ['.'])
    rw [List.singleton_append] at hpieces
    exact ⟨['.'] :: after, by rw [pieces_append_slash hpiece, hpieces],
      List.forall_mem_cons.mpr ⟨rfl, hafter⟩⟩

/-- What stands for the first piece is no name, unless it is one like any other. -/
theorem fileName?_eq_some_iff_pieces : p.fileName? = some name ↔
    ((pieces p.spelling.toList).filterMap Component.ofPiece?).getLast? = some (.name name) := by
  have hlast : p.fileName? = some name ↔ p.components.getLast? = some (.name name) := by
    unfold fileName?
    split <;> simp_all
  have hbehind {c : Component} (hc : c ≠ .name name) (l : List Component) :
      (c :: l).getLast? = some (.name name) ↔ l.getLast? = some (.name name) := by
    rw [List.getLast?_cons]
    cases l.getLast? <;> simp [hc]
  rw [hlast]
  unfold components
  split
  · simp_all
  · simp_all [Component.ofPiece?]
  · rename_i hpieces
    rw [hpieces, hbehind (by simp), List.filterMap_cons_none rfl]
  · rename_i hpieces
    rw [hpieces, hbehind (by simp), List.filterMap_cons_none rfl]
  · rfl

theorem LastName.exists_pieces (h : p.LastName name) :
    ∃ before after, pieces p.spelling.toList = before ++ name.toList :: after ∧
      ∀ piece ∈ after, Component.ofPiece? piece = none := by
  obtain ⟨⟨front, back, hspelled, hfront, hback⟩, hname, -⟩ := h
  obtain ⟨after, hpieces, hafter⟩ := hback.pieces hname
  rw [hspelled]
  cases hlast : front.getLast? with
  | none =>
    rw [List.getLast?_eq_none_iff.mp hlast]
    exact ⟨[], after, hpieces, hafter⟩
  | some c =>
    obtain ⟨before, rfl⟩ := List.getLast?_eq_some_iff.mp hlast
    obtain rfl := hfront c hlast
    refine ⟨pieces before, after, ?_, hafter⟩
    rw [List.append_assoc, List.singleton_append, pieces_append, hpieces]

theorem LastName.of_pieces {before after : List (List Char)}
    (h : pieces p.spelling.toList = before ++ name.toList :: after)
    (hafter : ∀ piece ∈ after, Component.ofPiece? piece = none)
    (hproper : name ≠ "" ∧ name ≠ "." ∧ name ≠ "..") : p.LastName name := by
  have hjoined : ['/'].intercalate (pieces p.spelling.toList) = p.spelling.toList := by
    rw [pieces_eq_splitOn, List.intercalate_splitOn]
  rw [h, intercalate_slash] at hjoined
  have hname : name.toList ∈ pieces p.spelling.toList := by simp [h]
  refine ⟨⟨_, _, hjoined.symm, ?_, Slack.flatMap hafter⟩, not_mem_of_mem_pieces hname, hproper⟩
  rcases List.eq_nil_or_concat before with rfl | ⟨first, last, rfl⟩
  · simp
  · simp

theorem fileName?_eq_some_iff : p.fileName? = some name ↔ p.LastName name := by
  rw [fileName?_eq_some_iff_pieces, List.getLast?_filterMap, List.findSome?_eq_some_iff]
  constructor
  · rintro ⟨after, piece, before, hpieces, hpiece, hafter⟩
    obtain ⟨rfl, hproper⟩ := Component.ofPiece?_eq_name_iff.mp hpiece
    rw [List.reverse_eq_iff] at hpieces
    have hsplit : pieces p.spelling.toList = before.reverse ++ name.toList :: after.reverse := by
      simp [hpieces]
    exact .of_pieces hsplit (fun piece h => hafter piece (List.mem_reverse.mp h)) hproper
  · intro h
    obtain ⟨before, after, hpieces, hafter⟩ := h.exists_pieces
    refine ⟨after.reverse, name.toList, before.reverse, by simp [hpieces],
      Component.ofPiece?_eq_name_iff.mpr ⟨rfl, h.proper⟩, ?_⟩
    exact fun piece h => hafter piece (List.mem_reverse.mp h)

/-- What is left of a name without its extension. A dot in first place starts none. -/
inductive Stem : String → String → Prop
  | whole {name : String} (h : '.' ∉ name.toList.tail) : Stem name name
  | cut {stem ext : String} (hsome : stem ≠ "") (hext : '.' ∉ ext.toList) :
      Stem (stem ++ "." ++ ext) stem

theorem dropWhile_extension {ext : List Char} (h : '.' ∉ ext) (rest : List Char) :
    (ext.reverse ++ rest).dropWhile (· ≠ '.') = rest.dropWhile (· ≠ '.') := by
  refine List.dropWhile_append_of_pos fun c hc => ?_
  rw [decide_eq_true_eq]
  rintro rfl
  exact h (List.mem_reverse.mp hc)

theorem stemOf_whole (h : '.' ∉ name.toList.tail) : stemOf name = name := by
  unfold stemOf
  cases hname : name.toList with
  | nil => rfl
  | cons c cs =>
    rw [hname, List.tail_cons] at h
    rw [List.reverse_cons, dropWhile_extension h]
    by_cases hc : c = '.' <;> simp [hc]

theorem stemOf_cut {ext : String} (hsome : stem ≠ "") (hext : '.' ∉ ext.toList) :
    stemOf (stem ++ "." ++ ext) = stem := by
  have hlist : (stem ++ "." ++ ext).toList.reverse =
      ext.toList.reverse ++ '.' :: stem.toList.reverse := by
    simp
  have hdot : ('.' :: stem.toList.reverse).dropWhile (· ≠ '.') = '.' :: stem.toList.reverse := by
    simp
  unfold stemOf
  rw [hlist, dropWhile_extension hext, hdot, List.tail_cons, List.reverse_reverse]
  split
  · rename_i hnil
    exact absurd (String.toList_eq_nil_iff.mp hnil) hsome
  · exact String.ofList_toList

/-- The last dot behind the first character, if there is one, is where the stem ends. -/
theorem stem_stemOf (name : String) : Stem name (stemOf name) := by
  by_cases h : '.' ∈ name.toList.tail
  · obtain ⟨c, cs, hname⟩ := List.exists_cons_of_ne_nil (List.ne_nil_of_tail_ne_nil
      (List.ne_nil_of_mem h))
    rw [hname, List.tail_cons, ← List.mem_reverse] at h
    obtain ⟨ext, front, hcs, hext⟩ := List.eq_append_cons_of_mem h
    have hsome : String.ofList (c :: front.reverse) ≠ "" := by
      simp [← String.toList_inj]
    have hext : '.' ∉ (String.ofList ext.reverse).toList := by
      simpa using hext
    have hsplit : name = String.ofList (c :: front.reverse) ++ "." ++ String.ofList ext.reverse := by
      rw [List.reverse_eq_iff] at hcs
      rw [← String.toList_inj, hname, hcs]
      simp
    rw [hsplit, stemOf_cut hsome hext]
    exact .cut hsome hext
  · rw [stemOf_whole h]
    exact .whole h

theorem Stem.iff_stemOf : Stem name stem ↔ stemOf name = stem := by
  constructor
  · intro h
    cases h with
    | whole h => exact stemOf_whole h
    | cut hsome hext => exact stemOf_cut hsome hext
  · rintro rfl
    exact stem_stemOf name

/-- A stem is some of its name, from the start. -/
theorem Stem.part (h : Stem name stem) (hname : name ≠ "") :
    stem ≠ "" ∧ stem.toList <+: name.toList := by
  cases h with
  | whole h => exact ⟨hname, List.prefix_refl _⟩
  | cut hsome hext => exact ⟨hsome, by simp⟩

theorem stem?_eq_some_iff : p.stem? = some stem ↔ ∃ name, p.LastName name ∧ Stem name stem := by
  simp only [stem?, Option.map_eq_some_iff, fileName?_eq_some_iff, Stem.iff_stemOf]

end Path

end Marginalia
