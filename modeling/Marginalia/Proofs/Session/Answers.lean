import Mathlib.Data.List.Basic
import Marginalia.Proofs.Position
import Marginalia.Proofs.Session.Locality
import Marginalia.Proofs.Session.Query

/-! What a session answers about the reports of a document. All questions go through one gate, and
behind it they ask the same list (`answers_agree`): they follow from the report and the file of
the document, and from nothing that was shown, hidden or greyed out. -/
namespace Marginalia

/-- A report holds for a document as it is: it has no revision, or the live one. -/
def Report.Applies (r : Report) (file : Option OpenFile) : Prop :=
  r.revision = none ∨ ∃ f, file = some f ∧ r.revision = some f.revision

theorem Report.fitsLive_iff {r : Report} {file : Option OpenFile} :
    r.fitsLive (file.map (·.revision)) = true ↔ r.Applies file := by
  unfold fitsLive Applies
  cases file with
  | none => simp
  | some f => simp [fits_iff]

/-- The questions about the reports of a document. -/
structure Answers where
  inSpan : Span → List Diagnostic
  atPlace : Position → List Diagnostic
  has : Diagnostic → Bool
  hasAny : Bool

/-- The answers that belong to a list of diagnostics. -/
def Answers.of (ds : List Diagnostic) (isOpen : Bool) : Answers where
  inSpan span := ds.filter (·.span.overlaps span)
  atPlace p := ds.filter fun x => x.span.start ≤ p ∧ p ≤ x.span.stop
  has x := isOpen && ds.contains x
  hasAny := !ds.isEmpty

/-- Commands that neither report anything nor touch the files. -/
def Command.onlyShows : Command → Bool
  | display _ _ => true
  | hide _ => true
  | disable _ => true
  | restyle _ => true
  | setLayer _ => true
  | subscribe _ => true
  | _ => false

theorem Overlay.reports_respond (o : Overlay) (editor : Editor) {command : Command}
    (h : command.onlyShows = true) : (o.respond editor command).1.reports = o.reports := by
  cases command with
  | display d revision => exact reports_display o editor d revision
  | hide d => exact reports_discard o d
  | disable d =>
    change (o.disable d).1.reports = o.reports
    rw [disable_fst]
  | restyle theme => rfl
  | setLayer layer =>
    change (o.setLayer editor layer).1.reports = o.reports
    unfold setLayer
    split <;> rfl
  | subscribe tag => rfl
  | _ => cases h

namespace Session

variable {s t : Session}

def answers (s : Session) (d : Path) : Answers where
  inSpan := s.overlay.diagnosticsIn s.editor d
  atPlace := s.overlay.diagnosticsAt s.editor d
  has := s.overlay.has s.editor d
  hasAny := s.overlay.hasAny s.editor d

/-- The diagnostics that hold for a document as it is. -/
def holding (s : Session) (d : Path) : List Diagnostic :=
  (s.overlay.current? s.editor d).getD []

theorem answers_eq (hr : Reachable s) (d : Path) :
    s.answers d = .of (s.holding d) (s.files.isOpen d) := by
  have hopen : (s.editor.buffer d).isSome = s.files.isOpen d := by
    rw [hr.buffer_eq, Option.isSome_map]
    rfl
  have hcaret : ∀ p, (fun x : Diagnostic => x.span.overlaps (.caret p)) =
      fun x => decide (x.span.start ≤ p ∧ p ≤ x.span.stop) := by
    intro p
    funext x
    rw [Bool.eq_iff_iff, Span.overlaps_caret_iff, decide_eq_true_iff]
  unfold answers Answers.of Overlay.diagnosticsAt Overlay.diagnosticsIn Overlay.has
  simp only [hopen, hcaret]
  rfl

theorem holding_eq (hr : Reachable s) (d : Path) :
    s.holding d = (((s.overlay.reports.find? d).filter
      (·.fitsLive ((s.files.find? d).map (·.revision)))).map (·.diagnostics)).getD [] := by
  unfold holding Overlay.current? Reports.current?
  rw [hr.revision_eq]

theorem holding_of_applies (hr : Reachable s) {d : Path} {report : Report}
    (hreport : s.overlay.reports.find? d = some report) (h : report.Applies (s.files.find? d)) :
    s.holding d = report.diagnostics := by
  rw [holding_eq hr, hreport, Option.filter_some, if_pos (Report.fitsLive_iff.mpr h)]
  rfl

theorem holding_of_not (hr : Reachable s) {d : Path}
    (h : ∀ report, s.overlay.reports.find? d = some report →
      ¬report.Applies (s.files.find? d)) : s.holding d = [] := by
  rw [holding_eq hr]
  cases hreport : s.overlay.reports.find? d with
  | none => rfl
  | some report =>
    rw [Option.filter_some, if_neg (mt Report.fitsLive_iff.mp (h report hreport))]
    rfl

/-- Nothing else of a session makes a difference to its answers. -/
theorem answers_congr (hs : Reachable s) (ht : Reachable t) {d : Path}
    (hreport : s.overlay.reports.find? d = t.overlay.reports.find? d)
    (hfile : s.files.find? d = t.files.find? d) : s.answers d = t.answers d := by
  have hopen : s.files.isOpen d = t.files.isOpen d := congrArg Option.isSome hfile
  rw [answers_eq hs, answers_eq ht, holding_eq hs, holding_eq ht, hreport, hfile, hopen]

theorem answers_perform (hr : Reachable s) {command : Command} (h : command.onlyShows = true)
    (d : Path) : (s.perform command).session.answers d = s.answers d := by
  have hreports : (s.perform command).session.overlay.reports = s.overlay.reports := by
    rw [(s.perform_follows command).overlay]
    exact Overlay.reports_respond _ _ h
  have hfiles : (s.perform command).session.files = s.files := by
    cases command with
    | display d revision => exact s.files_enact _
    | hide d => exact s.files_enact _
    | disable d => exact s.files_enact _
    | restyle theme => exact s.files_enact _
    | setLayer layer => exact s.files_enact _
    | subscribe tag => rfl
    | _ => cases h
  exact answers_congr (hr.perform command) hr (by rw [hreports]) (by rw [hfiles])

theorem answers_run (hr : Reachable s) {commands : List Command}
    (h : ∀ command ∈ commands, command.onlyShows = true) (d : Path) :
    (s.run commands).answers d = s.answers d := by
  induction commands generalizing s with
  | nil => rfl
  | cons command rest ih =>
    obtain ⟨hcommand, hrest⟩ := List.forall_mem_cons.mp h
    exact (ih (hr.perform command) hrest).trans (answers_perform hr hcommand d)

/-- A report that does not hold for its document answers nothing, and one that does answers what its
list says, in its order. A larger selection loses nothing. -/
theorem answers_agree (hr : Reachable s) (d : Path) :
    let file := s.files.find? d
    let answers := s.answers d
    ((∀ report, s.overlay.reports.find? d = some report → ¬report.Applies file) →
      (∀ span, answers.inSpan span = []) ∧ (∀ p, answers.atPlace p = []) ∧
        (∀ x, answers.has x = false) ∧ answers.hasAny = false) ∧
    (∀ report, s.overlay.reports.find? d = some report → report.Applies file →
      (∀ span, answers.inSpan span = report.diagnostics.filter (·.span.overlaps span)) ∧
        (∀ p, answers.atPlace p =
          report.diagnostics.filter fun x => x.span.start ≤ p ∧ p ≤ x.span.stop) ∧
        (∀ x, answers.has x = true ↔ file.isSome = true ∧ x ∈ report.diagnostics) ∧
        (answers.hasAny = true ↔ report.diagnostics ≠ []) ∧
        (file.isSome = true → ∀ x : Diagnostic, x.span.start ≤ x.span.stop →
          (answers.has x = true ↔ x ∈ answers.inSpan x.span))) ∧
    (∀ small large : Span, small.start < small.stop → large.start ≤ small.start →
      small.stop ≤ large.stop → (answers.inSpan small).Sublist (answers.inSpan large)) ∧
    (∀ t, Reachable t → t.overlay.reports.find? d = s.overlay.reports.find? d →
      t.files.find? d = file → t.answers d = answers) ∧
    ∀ commands, (∀ command ∈ commands, command.onlyShows = true) →
      (s.run commands).answers d = answers := by
  intro file answers
  have hanswers : answers = .of (s.holding d) (s.files.isOpen d) := answers_eq hr d
  have hopen : s.files.isOpen d = file.isSome := rfl
  refine ⟨fun hnot => ?_, fun report hreport happlies => ?_, ?_, ?_, fun commands h => ?_⟩
  · rw [hanswers, holding_of_not hr hnot]
    simp [Answers.of]
  · rw [hanswers, holding_of_applies hr hreport happlies, hopen]
    have hhas (x : Diagnostic) : (Answers.of report.diagnostics file.isSome).has x = true ↔
        file.isSome = true ∧ x ∈ report.diagnostics := by
      simp [Answers.of]
    refine ⟨fun _ => rfl, fun _ => rfl, hhas, by simp [Answers.of], fun hsome x hordered => ?_⟩
    have hself : x.span.overlaps x.span = true := Span.overlaps_self hordered
    rw [hhas]
    simp [Answers.of, hsome, hself]
  · rw [hanswers]
    intro small large hsome hstart hstop
    exact List.monotone_filter_right _ fun x => Span.overlaps_mono hsome hstart hstop
  · exact fun t ht hreport hfile => answers_congr ht hr hreport hfile
  · exact answers_run hr h d

/-- A diagnostic whose range is selected in part and as a whole, and then hidden; and a report for
the text before an edit. -/
theorem answers_agree_reversed :
    let forwards : Diagnostic := ⟨⟨⟨0, 0⟩, ⟨0, 4⟩⟩, some .error, "m"⟩
    let answers := reversed.answers ⟨"/a"⟩
    Reachable reversed ∧ answers.has forwards = true ∧ forwards ∈ answers.inSpan forwards.span ∧
      (answers.inSpan ⟨⟨0, 1⟩, ⟨0, 2⟩⟩).Sublist (answers.inSpan forwards.span) ∧
      (reversed.run [.display ⟨"/a"⟩ default, .hide ⟨"/a"⟩]).answers ⟨"/a"⟩ = answers ∧
      Reachable edited ∧ (edited.answers ⟨"/a"⟩).hasAny = false := by
  intro forwards answers
  obtain ⟨-, hlisted, hlarger, -, hshown⟩ := answers_agree reachable_reversed ⟨"/a"⟩
  obtain ⟨-, -, hhas, -, hself⟩ := hlisted _ reports_reversed (.inl rfl)
  have hfound : answers.has forwards = true := (hhas forwards).mpr (by decide)
  have hin := (hself (by decide) forwards (by decide)).mp hfound
  have hstale : ∀ report, edited.overlay.reports.find? ⟨"/a"⟩ = some report →
      ¬report.Applies (edited.files.find? ⟨"/a"⟩) := by
    intro report hreport
    rw [reports_edited] at hreport
    cases hreport
    rw [find?_edited, ← Report.fitsLive_iff]
    decide
  obtain ⟨hnone, -⟩ := answers_agree reachable_edited ⟨"/a"⟩
  exact ⟨reachable_reversed, hfound, hin, hlarger _ _ (by decide) (by decide) (by decide),
    hshown _ (by decide), reachable_edited, (hnone hstale).2.2.2⟩

end Session

end Marginalia
