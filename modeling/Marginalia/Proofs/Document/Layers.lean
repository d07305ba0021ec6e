import Marginalia.Proofs.Document.View

/-! On which layers of a document there are highlights. A layer is only left behind after it was
wiped, but nothing is wiped of a document that is not open: highlights that are there at that time
are forgotten (`DocumentView.tidy_act_iff`). -/
namespace Marginalia

/-- A command that is to leave nothing on a layer of any document. -/
def Command.Wipes (layer : Layer) : Command → Prop
  | clear => True
  | setLayer next => next ≠ layer
  | _ => False

namespace DocumentView

/-- Highlights are only on the current layer, and only if there is a report. -/
def Tidy (v : DocumentView) : Prop :=
  ∀ layer, v.highlights layer ≠ [] → layer = v.layer ∧ v.report.isSome

/-- A command passes over highlights that it should take away. -/
structure Forgets (v : DocumentView) (command : Command) : Prop where
  wipes : command.Wipes v.layer
  closed : v.file = none
  drawn : v.highlights v.layer ≠ []

variable {v : DocumentView}

theorem Tidy.draw (hv : v.Tidy) {hs : List Highlight} (h : hs ≠ [] → v.report.isSome) :
    (v.draw hs).Tidy := by
  intro layer hdrawn
  rw [draw_highlights] at hdrawn
  split at hdrawn
  · rename_i hlayer
    exact ⟨hlayer, h hdrawn⟩
  · exact hv layer hdrawn

theorem Tidy.wipe (hv : v.Tidy) : v.wipe.Tidy := by
  unfold DocumentView.wipe
  split
  · exact hv.draw fun hnil => absurd rfl hnil
  · exact hv

theorem Tidy.take (hv : v.Tidy) (document : Path) (ds : List Diagnostic)
    (revision : Option Revision) : (v.take document ds revision).Tidy := by
  intro layer hdrawn
  have hlayer : layer = v.wipe.layer := (hv.wipe layer hdrawn).1
  exact ⟨hlayer, rfl⟩

theorem Tidy.display (hv : v.Tidy) (document : Path) (revision : Revision) :
    (v.display document revision).Tidy := by
  cases hfile : v.file with
  | none =>
    unfold DocumentView.display
    rwa [hfile]
  | some file =>
    have hreported : (v.rendering document file revision).highlights ≠ [] → v.report.isSome := by
      intro hdrawn
      unfold rendering at hdrawn
      split at hdrawn
      · exact absurd rfl hdrawn
      · rename_i hreport
        exact Option.isSome_of_eq_some hreport
    rw [v.display_of_open hfile]
    exact hv.draw hreported

/-- Without a report there is nothing to wipe. -/
theorem Tidy.wiped (hv : v.Tidy) :
    (if v.report.isSome then v.wipe else v).highlights = v.wipe.highlights := by
  split
  · rfl
  · rename_i hnone
    funext layer
    have hblank : v.highlights layer = [] := by
      by_cases hdrawn : v.highlights layer = []
      · exact hdrawn
      · exact absurd (hv layer hdrawn).2 hnone
    rw [v.wipe_highlights, hblank, ite_self]

theorem Tidy.wipe_blank_iff (hv : v.Tidy) :
    (∀ layer, v.wipe.highlights layer = []) ↔ ¬(v.file = none ∧ v.highlights v.layer ≠ []) := by
  constructor
  · rintro hblank ⟨hclosed, hdrawn⟩
    rw [v.wipe_of_closed hclosed] at hblank
    exact hdrawn (hblank v.layer)
  · intro hkept layer
    rw [v.wipe_highlights]
    split
    · rfl
    · rename_i hother
      by_cases hdrawn : v.highlights layer = []
      · exact hdrawn
      · obtain ⟨rfl, -⟩ := hv layer hdrawn
        exact absurd ⟨by simpa using hother, hdrawn⟩ hkept

/-- A document that has left its layer or its report after a wiping is tidy if no highlights were
forgotten. -/
theorem Tidy.left_iff (hv : v.Tidy) {w : DocumentView} {command : Command}
    (hhighlights : w.highlights = v.wipe.highlights)
    (hleft : ¬(w.layer = v.layer ∧ w.report.isSome)) (hwipes : command.Wipes v.layer) :
    w.Tidy ↔ ¬v.Forgets command := by
  have hblank : w.Tidy ↔ ∀ layer, v.wipe.highlights layer = [] := by
    rw [← hhighlights]
    constructor
    · intro hw layer
      by_cases hdrawn : w.highlights layer = []
      · exact hdrawn
      · obtain ⟨hlayer, hreport⟩ := hw layer hdrawn
        rw [hhighlights] at hdrawn
        have hcurrent : layer = v.layer := (hv.wipe layer hdrawn).1.trans v.wipe_layer
        exact absurd ⟨hlayer.symm.trans hcurrent, hreport⟩ hleft
    · exact fun hnone layer hdrawn => absurd (hnone layer) hdrawn
  rw [hblank, hv.wipe_blank_iff]
  exact not_congr ⟨fun h => ⟨hwipes, h.1, h.2⟩, fun h => ⟨h.closed, h.drawn⟩⟩

/-- A command leaves a tidy document tidy, unless it forgets highlights of it. -/
theorem tidy_act_iff (hv : v.Tidy) (command : Command) :
    (v.act command).Tidy ↔ ¬v.Forgets command := by
  have hkeep : ∀ {w : DocumentView}, w.Tidy → ¬command.Wipes v.layer →
      (w.Tidy ↔ ¬v.Forgets command) :=
    fun hw hnot => iff_of_true hw fun h => hnot h.wipes
  cases command with
  -- This one drops the report and the next one the layer, so both have to wipe first.
  | clear =>
    have hhighlights : v.clear.highlights = v.wipe.highlights := by
      rw [← hv.wiped]
      unfold clear
      split <;> rfl
    exact hv.left_iff hhighlights (fun h => Bool.false_ne_true h.2) trivial
  | setLayer layer =>
    change (v.setLayer layer).Tidy ↔ _
    unfold setLayer
    split
    · rename_i hsame
      exact hkeep hv fun hnext => hnext hsame
    · rename_i hnext
      exact hv.left_iff hv.wiped (fun h => hnext h.1) hnext
  | report document ds revision => exact hkeep (hv.take document ds revision) id
  | publish document ds revision =>
    refine hkeep ?_ id
    change (v.publish document ds revision).Tidy
    unfold publish
    split
    · exact hv.take document ds revision
    · exact (hv.take document ds revision).display document _
  | display document revision => exact hkeep (hv.display document revision) id
  | hide document => exact hkeep hv.wipe id
  | _ => exact hkeep hv id

end DocumentView

end Marginalia
