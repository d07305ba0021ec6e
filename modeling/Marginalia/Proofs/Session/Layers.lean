import Mathlib.Data.List.Induction
import Marginalia.Proofs.Document.Layers
import Marginalia.Proofs.Session.Locality

/-! Highlights that are never taken away. Nothing is drawn over a document that is not open, but what
was drawn before it was closed is still there when it is opened again. All is well as long as no
layer is left, and no report dropped, while a closed document has highlights (`tidy_run_iff`). -/
namespace Marginalia.Session

variable {s : Session} {d : Path}

/-- Over the open documents, highlights are only on the current layer and only those of a report. -/
def Tidy (s : Session) : Prop :=
  ∀ d layer, s.files.isOpen d → s.screen.highlights d layer ≠ [] →
    layer = s.overlay.layer ∧ (s.overlay.reports.find? d).isSome

/-- A command is to wipe the current layer, but misses highlights over a closed document. -/
structure Forgets (s : Session) (command : Command) (d : Path) : Prop where
  wipes : command.Wipes s.overlay.layer
  closed : s.files.isOpen d = false
  drawn : s.screen.highlights d s.overlay.layer ≠ []

theorem tidy_iff_view : s.Tidy ↔ ∀ d, (s.view d).file.isSome → (s.view d).Tidy :=
  ⟨fun h d hopen layer => h d layer hopen, fun h d layer hopen => h d hopen layer⟩

theorem forgets_iff_view (command : Command) :
    s.Forgets command d ↔ (s.view d).Forgets command := by
  have hclosed : s.files.isOpen d = false ↔ (s.view d).file = none := by
    change (s.files.find? d).isSome = false ↔ s.files.find? d = none
    rw [Option.isSome_eq_false_iff, Option.isNone_iff_eq_none]
  exact ⟨fun h => ⟨h.wipes, hclosed.mp h.closed, h.drawn⟩,
    fun h => ⟨h.wipes, hclosed.mpr h.closed, h.drawn⟩⟩

theorem tidy_perform_iff (hr : Reachable s) (hd : (s.view d).Tidy) (command : Command) :
    ((s.perform command).session.view d).Tidy ↔ ¬s.Forgets command d := by
  rw [view_perform hr.sound.unmasked, forgets_iff_view]
  split
  · exact DocumentView.tidy_act_iff hd command
  · rename_i hother
    refine iff_of_true hd fun h => hother ?_
    have hwipes := h.wipes
    cases command <;> first | rfl | cases hwipes

/-- Along a run, all documents stay tidy until highlights of one are forgotten. -/
theorem tidy_along_iff (hr : Reachable s) (hstart : ∀ d, (s.view d).Tidy)
    (commands : List Command) :
    (∀ before, before <+: commands → ∀ d, ((s.run before).view d).Tidy) ↔
      ∀ before command, before ++ [command] <+: commands →
        ∀ d, ¬(s.run before).Forgets command d := by
  have hstep : ∀ before command d, ((s.run before).view d).Tidy →
      (((s.run (before ++ [command])).view d).Tidy ↔ ¬(s.run before).Forgets command d) := by
    intro before command d hd
    rw [run_append]
    exact tidy_perform_iff (hr.run before) hd command
  constructor
  · intro h before command hprefix d
    have hbefore := h before ((List.prefix_append before [command]).trans hprefix) d
    exact (hstep before command d hbefore).mp (h _ hprefix d)
  · intro h before
    induction before using List.reverseRecOn with
    | nil => exact fun _ => hstart
    | append_singleton before command ih =>
      intro hprefix d
      have hbefore := ih ((List.prefix_append before [command]).trans hprefix) d
      exact (hstep before command d hbefore).mpr (h before command hprefix d)

/-- It takes the opening of a document to see what is left of its highlights. -/
theorem tidy_opened_iff (hr : Reachable s) :
    (s.Tidy ∧ ∀ d text revision, (s.perform (.openFile d text revision)).session.Tidy) ↔
      ∀ d, (s.view d).Tidy := by
  constructor
  · rintro ⟨-, h⟩ d
    have hd := tidy_iff_view.mp (h d (.ofString "") default) d
    rw [view_perform hr.sound.unmasked, if_pos (Command.concerns_of_document? rfl)] at hd
    exact hd rfl
  · refine fun h => ⟨tidy_iff_view.mpr fun d _ => h d, fun d text revision => ?_⟩
    refine tidy_iff_view.mpr fun e _ => ?_
    rw [view_perform hr.sound.unmasked]
    split <;> exact h e

/-- No highlights outlive their layer or their report, whichever document is opened at whichever
time, just if none are ever forgotten. -/
theorem tidy_run_iff (settings : Settings) (theme : Theme) (rule : MarkerRule) (filter : Filter)
    (commands : List Command) :
    let s := fresh settings theme rule filter
    (∀ before, before <+: commands → (s.run before).Tidy ∧
      ∀ d text revision, ((s.run before).perform (.openFile d text revision)).session.Tidy) ↔
    ∀ before command, before ++ [command] <+: commands →
      ∀ d, ¬(s.run before).Forgets command d := by
  intro s
  have hr : Reachable s := reachable_fresh settings theme rule filter
  have hstart : ∀ d, (s.view d).Tidy := fun d layer hdrawn => absurd rfl hdrawn
  rw [← tidy_along_iff hr hstart]
  exact forall₂_congr fun before _ => tidy_opened_iff (hr.run before)

/-- Another layer is chosen while the document is closed. -/
theorem not_always_tidy : ¬∀ s, Reachable s → s.Tidy := by
  intro hall
  let commands : List Command :=
    [.openFile ⟨"/a"⟩ (.ofString "abc") ⟨1, by decide, by decide⟩,
      .publish ⟨"/a"⟩ [⟨⟨⟨0, 0⟩, ⟨0, 1⟩⟩, some .error, "m"⟩] (some ⟨1, by decide, by decide⟩),
      .close ⟨"/a"⟩, .setLayer ⟨2⟩,
      .openFile ⟨"/a"⟩ (.ofString "abc") ⟨1, by decide, by decide⟩]
  have htidy := hall _ ((Reachable.start {}).run commands) ⟨"/a"⟩ ⟨1⟩ (by decide) (by decide)
  exact absurd htidy.1 (by decide)

end Marginalia.Session
