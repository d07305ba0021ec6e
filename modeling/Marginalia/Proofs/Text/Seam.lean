import Marginalia.Proofs.Text.Lines
import Mathlib.Data.List.Basic

/-! Where two texts meet. The last line of the one runs on into the first line of the other, and all
other lines stay what they are. Only a carriage return that meets a line feed makes one break out of
two. So an edit changes the lines where its ends are and nowhere else (`lines_meet_at_seams`). -/
namespace Marginalia.Text

/-- A carriage return in front of a line feed. -/
def pairAcross (cs ds : List Char) : Bool :=
  cs.getLast? = some '\r' ∧ ds.head? = some '\n'

/-- The lines of two texts, and those of the one text that they make. The flag tells whether a break is
put together from its two characters. -/
inductive Joined : Bool → List Line → List Line → List Line → Prop
  | runsOn (above : List Line) (content next ending : List Char) (below : List Line) :
      Joined false (above ++ [⟨content, []⟩]) (⟨next, ending⟩ :: below)
        (above ++ ⟨content ++ next, ending⟩ :: below)
  | pair (above : List Line) (content : List Char) (below : List Line) :
      Joined true (above ++ [⟨content, ['\r']⟩, ⟨[], []⟩]) (⟨[], ['\n']⟩ :: below)
        (above ++ ⟨content, ['\r', '\n']⟩ :: below)

section Joined

variable {closed : Bool} {ls ms whole : List Line}

theorem Joined.cons (h : Joined closed ls ms whole) (l : Line) :
    Joined closed (l :: ls) ms (l :: whole) := by
  cases h with
  | runsOn above content next ending below => exact .runsOn (l :: above) content next ending below
  | pair above content below => exact .pair (l :: above) content below

theorem Joined.length (h : Joined closed ls ms whole) :
    whole.length + 1 + closed.toNat = ls.length + ms.length := by
  cases h with
  | runsOn =>
    simp only [List.length_append, List.length_cons, List.length_nil, Bool.toNat_false]
    omega
  | pair =>
    simp only [List.length_append, List.length_cons, List.length_nil, Bool.toNat_true]
    omega

end Joined

section Seam

variable {cs ds ending rest : List Char} {ls ms : List Line}

theorem Plain.append (hcs : Plain cs) (hds : Plain ds) : Plain (cs ++ ds) :=
  List.forall_mem_append.mpr ⟨hcs, hds⟩

/-- Whether a pair is cut in two does not depend on what is in front of it. -/
theorem pairAcross_append (before : List Char) (h : cs ≠ []) (ds : List Char) :
    pairAcross (before ++ cs) ds = pairAcross cs ds := by
  rw [pairAcross, List.getLast?_append_of_ne_nil before h, pairAcross]

theorem Plain.not_pairAcross (h : Plain cs) (ds : List Char) : pairAcross cs ds = false := by
  rw [pairAcross, decide_eq_false_iff_not]
  rintro ⟨hreturn, -⟩
  cases h.not_isBreak (List.mem_of_getLast? hreturn)

/-- A break at the seam is the same break in the whole text, unless it takes a line feed along. -/
theorem Break.append (h : Break ending rest) (ds : List Char)
    (hwhole : rest = [] → pairAcross ending ds = false) :
    Break ending (rest ++ ds) ∧ pairAcross (ending ++ rest) ds = pairAcross rest ds := by
  cases rest with
  | cons c rest =>
    refine ⟨?_, pairAcross_append ending (List.cons_ne_nil c rest) ds⟩
    cases h with
    | pair => exact .pair _
    | single breaks whole => exact .single breaks whole
  | nil =>
    have hopen := hwhole rfl
    rw [List.append_nil, List.nil_append]
    refine ⟨?_, hopen⟩
    cases h with
    | pair => exact .pair ds
    | single breaks whole =>
      refine .single breaks fun hreturn hfeed => ?_
      rw [pairAcross, decide_eq_false_iff_not] at hopen
      exact hopen ⟨congrArg some hreturn, hfeed⟩

theorem Break.eq_return (h : Break ending rest) (hpair : pairAcross ending ds = true) :
    ending = ['\r'] := by
  rw [pairAcross, decide_eq_true_iff] at hpair
  cases h with
  | pair => simp at hpair
  | single => exact congrArg ([·]) (Option.some.inj hpair.1)

theorem Cut.exists_of_head (h : Cut ds ms) (hfeed : ds.head? = some '\n') :
    ∃ rest below, ds = '\n' :: rest ∧ ms = ⟨[], ['\n']⟩ :: below ∧ Cut rest below := by
  obtain ⟨l, below, rfl⟩ := h.exists_cons
  obtain rfl := h.starts_iff.mpr hfeed
  cases h with
  | line _ _ hbelow => exact ⟨_, below, rfl, rfl, hbelow⟩

/-- The cut of a whole from the cuts of its parts. -/
theorem Cut.join (hcs : Cut cs ls) (hds : Cut ds ms) :
    ∃ whole, Joined (pairAcross cs ds) ls ms whole ∧ Cut (cs ++ ds) whole := by
  induction hcs with
  | @last content plain =>
    rw [plain.not_pairAcross]
    cases hds with
    | last hnext => exact ⟨_, .runsOn [] content ds [] [], .last (plain.append hnext)⟩
    | @line next ending rest below hnext ends hbelow =>
      refine ⟨_, .runsOn [] content next ending below, ?_⟩
      rw [← List.append_assoc]
      exact .line (plain.append hnext) ends hbelow
  | @line content ending rest ls plain ends below ih =>
    have hsome : ending ++ rest ≠ [] := by
      obtain ⟨c, tail, rfl, -⟩ := ends.exists_cons
      exact List.cons_ne_nil c _
    rw [pairAcross_append content hsome, List.append_assoc, List.append_assoc]
    -- Only a break at the very end of the first text can take a character of the second along.
    by_cases hpair : rest = [] ∧ pairAcross ending ds = true
    · obtain ⟨rfl, hpair⟩ := hpair
      obtain rfl := ends.eq_return hpair
      obtain rfl : [⟨[], []⟩] = ls := below.lines_eq
      have hfeed : ds.head? = some '\n' := (of_decide_eq_true hpair).2
      obtain ⟨rest, tail, rfl, rfl, htail⟩ := hds.exists_of_head hfeed
      rw [List.append_nil, hpair]
      exact ⟨_, .pair [] content tail, .line plain (.pair rest) htail⟩
    · obtain ⟨hends, hsame⟩ := ends.append ds fun hnil =>
        Bool.eq_false_iff.mpr fun h => hpair ⟨hnil, h⟩
      obtain ⟨whole, hjoined, hcut⟩ := ih
      rw [hsame]
      exact ⟨_, hjoined.cons _, .line plain hends hcut⟩

end Seam

variable (a b t : Text)

/-- The lines of two texts meet at the seam alone. -/
theorem joined_lines : Joined (pairAcross a.chars b.chars) a.lines b.lines (a ++ b).lines := by
  obtain ⟨whole, hjoined, hcut⟩ := a.cut_lines.join b.cut_lines
  obtain rfl : (a ++ b).lines = whole := hcut.lines_eq
  exact hjoined

theorem insert_between : (a ++ b).insert a.size t = a ++ t ++ b := by
  unfold insert size
  rw [chars_append, List.take_left, List.drop_left]
  rfl

theorem delete_between : (a ++ t ++ b).delete a.size t.size = a ++ b := by
  have hback := (a ++ b).delete_insert a.size t
  have hplace : a.size ≤ (a ++ b).size := by simp [size]
  rwa [Nat.min_eq_left hplace, insert_between] at hback

/-- An insertion has two seams in the place of one, and its lines are those of the parts, as they were
before it. At a seam two lines become one, and one line more is lost where a carriage return meets a
line feed; nothing else happens to any line. Deleting what was inserted leaves the one seam again. -/
theorem lines_meet_at_seams (h : t.chars ≠ []) :
    ((a ++ b).insert a.size t).lineCount + 2 +
        (pairAcross a.chars t.chars).toNat + (pairAcross t.chars b.chars).toNat =
      a.lineCount + t.lineCount + b.lineCount ∧
    (a ++ b).lineCount + 1 + (pairAcross a.chars b.chars).toNat = a.lineCount + b.lineCount ∧
    Joined (pairAcross a.chars t.chars) a.lines t.lines (a ++ t).lines ∧
    Joined (pairAcross t.chars b.chars) (a ++ t).lines b.lines ((a ++ b).insert a.size t).lines ∧
    Joined (pairAcross a.chars b.chars) a.lines b.lines (a ++ b).lines ∧
    ((a ++ b).insert a.size t).delete a.size t.size = a ++ b := by
  have hupper := a.joined_lines t
  have hlower := (a ++ t).joined_lines b
  have hwhole := a.joined_lines b
  rw [chars_append, pairAcross_append a.chars h] at hlower
  rw [insert_between]
  refine ⟨?_, hwhole.length, hupper, hlower, hwhole, a.delete_between b t⟩
  have hfirst : (a ++ t).lineCount + 1 + (pairAcross a.chars t.chars).toNat =
      a.lineCount + t.lineCount := hupper.length
  have hsecond : (a ++ t ++ b).lineCount + 1 + (pairAcross t.chars b.chars).toNat =
      (a ++ t).lineCount + b.lineCount := hlower.length
  omega

/-- A pair is split, and each half finds another one. -/
theorem lines_meet_at_seams_split :
    let a := ofString "x\r"
    let b := ofString "\ny"
    let t := ofString "\n\r"
    t.chars ≠ [] ∧ (a ++ b).lineCount = 2 ∧ ((a ++ b).insert a.size t).lineCount = 3 := by
  intro a b t
  have hsome : t.chars ≠ [] := by decide
  obtain ⟨hinserted, hbefore, -⟩ := lines_meet_at_seams a b t hsome
  have hlines : a.lineCount = 2 ∧ t.lineCount = 3 ∧ b.lineCount = 2 := by decide
  have hseams : pairAcross a.chars t.chars = true ∧ pairAcross t.chars b.chars = true ∧
      pairAcross a.chars b.chars = true := by decide
  rw [hseams.1, hseams.2.1, Bool.toNat_true] at hinserted
  rw [hseams.2.2, Bool.toNat_true] at hbefore
  exact ⟨hsome, by omega, by omega⟩

end Marginalia.Text
