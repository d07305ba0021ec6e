import Marginalia.Proofs.Overlay.Agreement
import Marginalia.Proofs.Overlay.Numbering
import Marginalia.Session

/-! The sessions that an analyser and its host can bring about. A command reaches the overlay with
what the editor shows, and the screen with the calls that the overlay answers (`perform_follows`),
so that the screen mirrors the overlay at all times (`Reachable.sound`). -/
namespace Marginalia

/-- What the overlay does at a command. Those for the files and the subscribers are not for it. -/
def Overlay.respond (o : Overlay) (editor : Editor) : Command → Outcome
  | .report document diagnostics revision => o.report editor document diagnostics revision
  | .publish document diagnostics revision => o.publish editor document diagnostics revision
  | .display document revision => o.display editor document revision
  | .hide document => o.hide editor document
  | .clear => o.clear editor
  | .disable document => o.disable document
  | .restyle theme => o.restyle theme
  | .setLayer layer => o.setLayer editor layer
  | _ => (o, [])

/-- Other parts from the host. Markers that are there stay as they were made. -/
def Overlay.equip (o : Overlay) (theme : Theme) (rule : MarkerRule) (filter : Filter) : Overlay :=
  { o with theme, rule, filter }

theorem Overlay.change_respond (o : Overlay) (editor : Editor) (command : Command) :
    Change o (o.respond editor command) := by
  cases command with
  | report d ds revision => exact change_report o editor d ds revision
  | publish d ds revision => exact change_publish o editor d ds revision
  | display d revision => exact change_display o editor d revision
  | hide d => exact change_hide o editor d
  | clear => exact change_clear o editor
  | disable d => exact .disable o d
  | restyle theme => exact .restyle o theme
  | setLayer layer => exact change_setLayer o editor layer
  | _ => exact .silent o

def Notice.call? : Notice → Option ScreenCall
  | call sent => some sent
  | _ => none

namespace Session

/-- A step does to a session what an operation of its overlay says, and no more to the markers. -/
structure Follows (s : Session) (x : Overlay.Outcome) (step : Step) : Prop where
  overlay : step.session.overlay = x.1
  masks : step.session.masks = s.masks
  screen : step.session.screen = s.screen.applyAll x.calls
  calls : step.notices.filterMap Notice.call? = x.calls
  issued : step.session.issued = (Screen.added x.calls).reverse ++ s.issued

theorem Follows.mem_calls {s : Session} {x : Overlay.Outcome} {step : Step} (hf : Follows s x step)
    {call : ScreenCall} (h : .call call ∈ step.notices) : call ∈ x.calls := by
  rw [← hf.calls]
  exact List.mem_filterMap.mpr ⟨.call call, h, rfl⟩

theorem calls_of_events (subscribers : List Subscriber) (d : Path) (count : Nat) :
    (subscribers.map (Notice.event · d count)).filterMap Notice.call? = [] := by
  simp [Notice.call?]

theorem passAll_follows (s : Session) (effects : List Effect) :
    Follows s (s.overlay, effects)
      { session := (s.passAll effects).1, notices := (s.passAll effects).2 } := by
  induction effects generalizing s with
  | nil => exact ⟨rfl, rfl, rfl, rfl, rfl⟩
  | cons effect effects ih =>
    have hrest := ih (s.pass effect).1
    cases effect with
    | draw call =>
      refine ⟨hrest.overlay, hrest.masks, hrest.screen, congrArg (call :: ·) hrest.calls, ?_⟩
      apply hrest.issued.trans
      cases call with
      | addMarker d h m =>
        change _ = (h :: Screen.added _).reverse ++ s.issued
        rw [List.reverse_cons, List.append_assoc]
        rfl
      | _ => rfl
    | announce d count =>
      refine ⟨hrest.overlay, hrest.masks, hrest.screen, ?_, hrest.issued⟩
      have hevents := calls_of_events (s.pass (.announce d count)).1.subscribers d count
      apply List.filterMap_append.trans
      rw [hrest.calls]
      exact congrArg (· ++ _) hevents
    | log record => exact ⟨hrest.overlay, hrest.masks, hrest.screen, hrest.calls, hrest.issued⟩

theorem enact_follows (s : Session) (x : Overlay.Outcome) : Follows s x (s.enact x) := by
  have h := passAll_follows { s with overlay := x.1 } x.2
  exact ⟨h.overlay, h.masks, h.screen, h.calls, h.issued⟩

theorem store_follows (s : Session) (result : Except OpenFiles.Problem OpenFiles) :
    Follows s (s.overlay, []) (s.store result) := by
  cases result <;> exact ⟨rfl, rfl, rfl, rfl, rfl⟩

theorem storeEdit_follows (s : Session) (result : Except OpenFiles.Problem (OpenFiles × Revision)) :
    Follows s (s.overlay, []) (s.storeEdit result) := by
  cases result <;> exact ⟨rfl, rfl, rfl, rfl, rfl⟩

theorem perform_follows (s : Session) (command : Command) :
    Follows s (s.overlay.respond s.editor command) (s.perform command) := by
  cases command with
  | openFile d text revision => exact s.store_follows _
  | close d => exact s.store_follows _
  | setInProject d inProject => exact s.store_follows _
  | insert d offset new => exact s.storeEdit_follows _
  | delete d start count => exact s.storeEdit_follows _
  | setText d text => exact s.storeEdit_follows _
  | subscribe tag => exact ⟨rfl, rfl, rfl, rfl, rfl⟩
  | _ => exact s.enact_follows _

/-- Sessions of an overlay that sees all files and has the screen to itself. The host can do
anything to the files, and put other parts into the overlay at any time. -/
inductive Reachable : Session → Prop
  | start (settings : Settings) : Reachable (start settings)
  | equip {s : Session} (before : Reachable s) (theme : Theme) (rule : MarkerRule)
      (filter : Filter) : Reachable { s with overlay := s.overlay.equip theme rule filter }
  | perform {s : Session} (before : Reachable s) (command : Command) :
      Reachable (s.perform command).session

theorem Reachable.run {s : Session} (hr : Reachable s) (commands : List Command) :
    Reachable (s.run commands) := by
  induction commands generalizing s with
  | nil => exact hr
  | cons command rest ih => exact ih (hr.perform command)

/-- A report of one error is shown over the first revision of a document, which is then edited. -/
def edited : Session := (start {}).run
  [.openFile ⟨"/a"⟩ (.ofString "abc") ⟨1, by decide, by decide⟩,
    .publish ⟨"/a"⟩ [⟨⟨⟨0, 0⟩, ⟨0, 1⟩⟩, some .error, "m"⟩] (some ⟨1, by decide, by decide⟩),
    .insert ⟨"/a"⟩ 0 (.ofString "x")]

theorem reachable_edited : Reachable edited := (Reachable.start {}).run _

theorem find?_edited : edited.files.find? ⟨"/a"⟩ =
    some { text := .ofString "xabc", revision := ⟨2, by decide, by decide⟩ } := by decide

theorem reports_edited : edited.overlay.reports.find? ⟨"/a"⟩ =
    some ⟨some ⟨1, by decide, by decide⟩, [⟨⟨⟨0, 0⟩, ⟨0, 1⟩⟩, some .error, "m"⟩]⟩ := by decide

/-- What holds of every reachable session. -/
structure Sound (s : Session) : Prop where
  mirrors : Overlay.Mirrors s.screen s.overlay
  unmasked : s.masks = {}
  /-- The next group gets a number that no marker has ever had. -/
  issued : ∀ h ∈ s.issued, h.group < s.overlay.nextGroup

theorem Sound.perform {s : Session} (hs : s.Sound) (command : Command) :
    (s.perform command).session.Sound := by
  have hf := s.perform_follows command
  have hchange := s.overlay.change_respond s.editor command
  refine ⟨?_, hf.masks.trans hs.unmasked, ?_⟩
  · rw [hf.overlay, hf.screen]
    exact (hchange.reflected hs.mirrors).2
  · obtain ⟨sizes, _, hadded, hnext⟩ := hchange.exists_sizes
    rw [hf.issued, hf.overlay, hadded, hnext]
    intro h hh
    rcases List.mem_append.mp hh with hnew | hold
    · exact (Overlay.bounds_of_mem_handlesFrom (List.mem_reverse.mp hnew)).2
    · have hlt := hs.issued h hold
      omega

theorem Reachable.sound {s : Session} (hr : Reachable s) : s.Sound := by
  induction hr with
  | start settings => exact ⟨.start settings, rfl, by simp [Session.start]⟩
  | equip _ theme rule filter ih => exact ⟨ih.mirrors.of_eq rfl rfl rfl, ih.unmasked, ih.issued⟩
  | perform _ command ih => exact ih.perform command

/-- The overlay sees the files as they are. -/
theorem Reachable.editor_eq {s : Session} (hr : Reachable s) : s.editor = s.files.editor := by
  unfold editor
  rw [hr.sound.unmasked]
  rfl

theorem screen_agrees {s : Session} (hr : Reachable s) : s.screen.Agrees s.overlay :=
  hr.sound.mirrors.agrees

/-- The marker is greyed out under another spelling of its document. -/
theorem screen_agrees_edited :
    let s := edited.run [.disable ⟨"//a/."⟩]
    Reachable s ∧ s.screen.Agrees s.overlay ∧
      (s.screen.markers ⟨"/a"⟩).map (·.slot) = [.disabled] := by
  have hr := reachable_edited.run [.disable ⟨"//a/."⟩]
  exact ⟨hr, screen_agrees hr, by decide⟩

end Session

end Marginalia
