import Marginalia.Proofs.Overlay.Announcement
import Marginalia.Proofs.Session.Reachable

/-! What the subscribers of a session hear. Nobody is lost who has subscribed (`tags_run`), and all of
them hear of new markers, after the screen is up to date and at no other time
(`new_markers_are_announced`). -/
namespace Marginalia

def Notice.isEvent : Notice → Bool
  | event _ _ _ => true
  | _ => false

namespace Command

/-- The document whose report is displayed. -/
def displayed? : Command → Option Path
  | publish document _ _ => some document
  | display document _ => some document
  | _ => none

/-- The tag of someone who subscribes. -/
def tag? : Command → Option String
  | subscribe tag => some tag
  | _ => none

end Command

namespace Overlay

theorem idle_respond (o : Overlay) (editor : Editor) {command : Command}
    (h : command.displayed? = none) : (o.respond editor command).Idle := by
  cases command with
  | report d ds revision => exact idle_report o editor d ds revision
  | publish d ds revision => cases h
  | display d revision => cases h
  | hide d => exact idle_hide o editor d
  | clear => exact idle_clear o editor
  | disable d => exact idle_disable o d
  | restyle theme => exact idle_restyle o theme
  | setLayer layer => exact idle_setLayer o editor layer
  | _ => exact .nil o

theorem announces_respond (o : Overlay) (editor : Editor) {command : Command} {d : Path}
    (h : command.displayed? = some d) : Announces d (o.respond editor command) := by
  cases command with
  | publish e ds revision =>
    cases h
    exact announces_publish o editor d ds revision
  | display e revision =>
    cases h
    exact announces_display o editor d revision
  | _ => cases h

end Overlay

namespace Session

/-- Everyone who has subscribed hears one more event. -/
def heard (s : Session) : List Subscriber := s.subscribers.map fun x => { x with seen := x.seen + 1 }

theorem tags_heard (s : Session) : s.heard.map (·.tag) = s.subscribers.map (·.tag) := by
  unfold heard
  rw [List.map_map]
  rfl

theorem passAll_append (s : Session) (first rest : List Effect) :
    s.passAll (first ++ rest) =
      (((s.passAll first).1.passAll rest).1,
        (s.passAll first).2 ++ ((s.passAll first).1.passAll rest).2) := by
  induction first generalizing s with
  | nil => rfl
  | cons effect first ih => simp only [List.cons_append, passAll, ih, List.append_assoc]

/-- Without an announcement nobody hears anything. -/
theorem passAll_quiet (s : Session) {effects : List Effect}
    (h : ∀ effect ∈ effects, effect.isAnnouncement = false) :
    (s.passAll effects).1.subscribers = s.subscribers ∧
      ∀ notice ∈ (s.passAll effects).2, notice.isEvent = false := by
  induction effects generalizing s with
  | nil => exact ⟨rfl, List.forall_mem_nil _⟩
  | cons effect rest ih =>
    obtain ⟨heffect, hrest⟩ := List.forall_mem_cons.mp h
    obtain ⟨hsubscribers, hnotices⟩ := ih (s.pass effect).1 hrest
    cases effect with
    | draw call => exact ⟨hsubscribers, List.forall_mem_cons.mpr ⟨rfl, hnotices⟩⟩
    | announce d count => cases heffect
    | log record => exact ⟨hsubscribers, List.forall_mem_cons.mpr ⟨rfl, hnotices⟩⟩

theorem passAll_announce (s : Session) (d : Path) (count : Nat) :
    s.passAll [.announce d count] =
      ({ s with subscribers := s.heard }, s.heard.map (.event · d count)) := by
  simp [passAll, pass, heard]

theorem tags_passAll (s : Session) (effects : List Effect) :
    (s.passAll effects).1.subscribers.map (·.tag) = s.subscribers.map (·.tag) := by
  induction effects generalizing s with
  | nil => rfl
  | cons effect rest ih =>
    apply (ih (s.pass effect).1).trans
    cases effect with
    | announce d count => exact s.tags_heard
    | _ => rfl

theorem tags_perform (s : Session) (command : Command) :
    (s.perform command).session.subscribers.map (·.tag) =
      s.subscribers.map (·.tag) ++ command.tag?.toList := by
  have hstore : ∀ result, (s.store result).session.subscribers = s.subscribers := by
    intro result
    cases result <;> rfl
  have hedit : ∀ result, (s.storeEdit result).session.subscribers = s.subscribers := by
    intro result
    cases result <;> rfl
  cases command with
  | subscribe tag => exact List.map_append
  | openFile d text revision => simp [perform, hstore, Command.tag?]
  | close d => simp [perform, hstore, Command.tag?]
  | setInProject d inProject => simp [perform, hstore, Command.tag?]
  | insert d offset new => simp [perform, hedit, Command.tag?]
  | delete d start count => simp [perform, hedit, Command.tag?]
  | setText d text => simp [perform, hedit, Command.tag?]
  | _ => exact (tags_passAll _ _).trans (List.append_nil _).symm

/-- Who has subscribed in a run, in that order. -/
theorem tags_run (s : Session) (commands : List Command) :
    (s.run commands).subscribers.map (·.tag) =
      s.subscribers.map (·.tag) ++ commands.filterMap Command.tag? := by
  induction commands generalizing s with
  | nil => simp
  | cons command rest ih =>
    rw [run_cons, ih, tags_perform, List.append_assoc]
    cases command <;> rfl

/-- What a command says is what its operation of the overlay leads to. -/
theorem notices_perform (s : Session) (command : Command) :
    (s.perform command).notices =
      ({ s with overlay := (s.overlay.respond s.editor command).1 }.passAll
        (s.overlay.respond s.editor command).2).2 := by
  have hstore : ∀ result, (s.store result).notices = [] := fun result => by cases result <;> rfl
  have hedit : ∀ result, (s.storeEdit result).notices = [] := fun result => by cases result <;> rfl
  cases command with
  | openFile d text revision => exact hstore _
  | close d => exact hstore _
  | setInProject d inProject => exact hstore _
  | insert d offset new => exact hedit _
  | delete d start count => exact hedit _
  | setText d text => exact hedit _
  | _ => rfl

theorem perform_idle (s : Session) {command : Command} (h : command.displayed? = none) :
    ∀ notice ∈ (s.perform command).notices, notice.isEvent = false := by
  rw [notices_perform]
  apply (passAll_quiet _ _).2
  exact fun effect he => (s.overlay.idle_respond s.editor h effect he).isAnnouncement

/-- The subscribers of a session hear of the markers that an operation adds, after all else. -/
theorem enact_announces (s : Session) {d : Path} {x : Overlay.Outcome}
    (hx : Overlay.Announces d x) :
    (∃ before : List Notice, (∀ notice ∈ before, notice.isEvent = false) ∧
      (s.enact x).notices = before ++ if Screen.added x.calls = [] then []
        else s.heard.map (.event · d (Screen.added x.calls).length)) ∧
    (s.enact x).session.subscribers =
      if Screen.added x.calls = [] then s.subscribers else s.heard := by
  obtain ⟨before, hquiet, heffects⟩ := hx.effects
  obtain ⟨hsubscribers, hnotices⟩ := passAll_quiet { s with overlay := x.1 } hquiet
  -- What comes before the announcement leaves the subscribers as they were.
  have hheard : heard ({ s with overlay := x.1 }.passAll before).1 = s.heard := by
    unfold heard
    rw [hsubscribers]
  unfold enact
  dsimp only
  rw [heffects, passAll_append]
  split
  · exact ⟨⟨_, hnotices, rfl⟩, hsubscribers⟩
  · rw [passAll_announce, hheard]
    exact ⟨⟨_, hnotices, rfl⟩, rfl⟩

/-- Whoever has subscribed hears of new markers once, in the order of subscription, when the screen
shows them already. Only a command that displays a report adds markers, and nothing else is ever
heard. -/
theorem new_markers_are_announced {s : Session} (hr : Reachable s) (commands : List Command)
    (command : Command) :
    let t := s.run commands
    let step := t.perform command
    let added := Screen.added (step.notices.filterMap Notice.call?)
    t.subscribers.map (·.tag) = s.subscribers.map (·.tag) ++ commands.filterMap Command.tag? ∧
    match command.displayed? with
    | none => added = [] ∧ ∀ notice ∈ step.notices, notice.isEvent = false
    | some d =>
      (∃ before : List Notice, (∀ notice ∈ before, notice.isEvent = false) ∧
        step.notices = before ++ (if added = [] then []
          else t.heard.map (.event · d added.length)) ∧
        (t.screen.applyAll (before.filterMap Notice.call?)).Agrees step.session.overlay) ∧
      (added ≠ [] → ∃ g, step.session.overlay.group? d = some g ∧ g.size = added.length) ∧
      step.session.subscribers = if added = [] then t.subscribers else t.heard := by
  intro t step added
  have hf : Follows t (t.overlay.respond t.editor command) step := t.perform_follows command
  have hadded : added = Screen.added (t.overlay.respond t.editor command).calls :=
    congrArg Screen.added hf.calls
  refine ⟨s.tags_run commands, ?_⟩
  cases hshown : command.displayed? with
  | none =>
    rw [hadded]
    exact ⟨(t.overlay.idle_respond t.editor hshown).added, t.perform_idle hshown⟩
  | some d =>
    have hannounces := t.overlay.announces_respond t.editor hshown
    have henact : step = t.enact (t.overlay.respond t.editor command) := by
      cases command <;> first | rfl | cases hshown
    obtain ⟨⟨before, hquiet, hnotices⟩, hsubscribers⟩ := t.enact_announces hannounces
    rw [← henact, ← hadded] at hnotices hsubscribers
    refine ⟨⟨before, hquiet, hnotices, ?_⟩, ?_, hsubscribers⟩
    · have hcalls : before.filterMap Notice.call? = step.notices.filterMap Notice.call? := by
        rw [hnotices, List.filterMap_append]
        split
        · exact (List.append_nil _).symm
        · rw [calls_of_events, List.append_nil]
      rw [hcalls, hf.calls, ← hf.screen]
      exact screen_agrees ((hr.run commands).perform command)
    · rw [hadded, hf.overlay]
      exact hannounces.group

/-- One has subscribed before a clearing and one after it. -/
def awaited : Session := edited.run [.subscribe "first", .clear, .subscribe "second"]

/-- Two markers come in the place of those that are gone. -/
theorem new_markers_are_announced_awaited :
    let step := awaited.perform (.publish ⟨"/a/"⟩
      [⟨⟨⟨0, 0⟩, ⟨0, 1⟩⟩, some .error, "m"⟩, ⟨⟨⟨9, 0⟩, ⟨9, 0⟩⟩, none, "n"⟩] none)
    Reachable edited ∧ ∃ before : List Notice,
      (∀ notice ∈ before, notice.isEvent = false) ∧
      step.notices = before ++
        [.event ⟨"first", 1⟩ ⟨"/a/"⟩ 2, .event ⟨"second", 1⟩ ⟨"/a/"⟩ 2] ∧
      (awaited.screen.applyAll (before.filterMap Notice.call?)).Agrees step.session.overlay := by
  intro step
  have hadded : Screen.added (step.notices.filterMap Notice.call?) = [⟨2, 0⟩, ⟨2, 1⟩] := by decide
  have hheard : awaited.heard = [⟨"first", 1⟩, ⟨"second", 1⟩] := by decide
  obtain ⟨-, ⟨before, hquiet, hnotices, hagrees⟩, -⟩ := new_markers_are_announced reachable_edited
    [.subscribe "first", .clear, .subscribe "second"] (.publish ⟨"/a/"⟩
      [⟨⟨⟨0, 0⟩, ⟨0, 1⟩⟩, some .error, "m"⟩, ⟨⟨⟨9, 0⟩, ⟨9, 0⟩⟩, none, "n"⟩] none)
  refine ⟨reachable_edited, before, hquiet, ?_, hagrees⟩
  refine hnotices.trans ?_
  change before ++ (if Screen.added (step.notices.filterMap Notice.call?) = [] then []
    else awaited.heard.map _) = _
  rw [hadded, hheard]
  rfl

end Session

end Marginalia
