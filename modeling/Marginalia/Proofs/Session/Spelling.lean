import Marginalia.Proofs.Overlay.Spelling
import Marginalia.Proofs.Session.Reachable

/-! Two sessions that perform the same commands, under different spellings of the documents. They go
in lock step (`Session.Alike`), and nobody who asks can tell the one from the other, however the
documents are called in the questions (`spelling_is_not_seen`). -/
namespace Marginalia

/-- Commands that differ in the spelling of their document at most. -/
inductive Command.Alike : Command → Command → Prop
  | openFile {d e : Path} (h : d ≈ e) (text : Text) (revision : Revision) :
    Alike (.openFile d text revision) (.openFile e text revision)
  | close {d e : Path} (h : d ≈ e) : Alike (.close d) (.close e)
  | setInProject {d e : Path} (h : d ≈ e) (inProject : Bool) :
    Alike (.setInProject d inProject) (.setInProject e inProject)
  | insert {d e : Path} (h : d ≈ e) (offset : Nat) (new : Text) :
    Alike (.insert d offset new) (.insert e offset new)
  | delete {d e : Path} (h : d ≈ e) (start count : Nat) :
    Alike (.delete d start count) (.delete e start count)
  | setText {d e : Path} (h : d ≈ e) (text : Text) : Alike (.setText d text) (.setText e text)
  | report {d e : Path} (h : d ≈ e) (ds : List Diagnostic) (revision : Option Revision) :
    Alike (.report d ds revision) (.report e ds revision)
  | publish {d e : Path} (h : d ≈ e) (ds : List Diagnostic) (revision : Option Revision) :
    Alike (.publish d ds revision) (.publish e ds revision)
  | display {d e : Path} (h : d ≈ e) (revision : Revision) :
    Alike (.display d revision) (.display e revision)
  | hide {d e : Path} (h : d ≈ e) : Alike (.hide d) (.hide e)
  | clear : Alike .clear .clear
  | disable {d e : Path} (h : d ≈ e) : Alike (.disable d) (.disable e)
  | restyle (theme : Theme) : Alike (.restyle theme) (.restyle theme)
  | setLayer (layer : Layer) : Alike (.setLayer layer) (.setLayer layer)
  | subscribe (tag : String) : Alike (.subscribe tag) (.subscribe tag)

inductive OpenFiles.Problem.Alike : Problem → Problem → Prop
  | alreadyOpen {d e : Path} (h : d ≈ e) : Alike (.alreadyOpen d) (.alreadyOpen e)
  | notOpen {d e : Path} (h : d ≈ e) : Alike (.notOpen d) (.notOpen e)

inductive Answer.Alike : Answer → Answer → Prop
  | done : Alike .done .done
  | edited (revision : Revision) : Alike (.edited revision) (.edited revision)
  | failed {problem other : OpenFiles.Problem} (h : problem.Alike other) :
    Alike (.failed problem) (.failed other)

inductive Notice.Alike : Notice → Notice → Prop
  | call {sent other : ScreenCall} (h : sent.Alike other) : Alike (.call sent) (.call other)
  | event (x : Subscriber) {d e : Path} (h : d ≈ e) (count : Nat) :
    Alike (.event x d count) (.event x e count)
  | log {record other : LogRecord} (h : record.Alike other) : Alike (.log record) (.log other)

namespace OpenFiles

/-- Files that differ in the spelling of their documents at most. -/
def Alike (f g : OpenFiles) : Prop := f.byDocument.Alike Eq g.byDocument

/-- Results that are related, or problems that differ in the spelling of a document at most. -/
inductive SameResult {α : Type} (R : α → α → Prop) : Except Problem α → Except Problem α → Prop
  | ok {a b : α} (h : R a b) : SameResult R (.ok a) (.ok b)
  | error {problem other : Problem} (h : problem.Alike other) :
    SameResult R (.error problem) (.error other)

variable {f g : OpenFiles} {d e : Path}

theorem Alike.find?_eq (h : f.Alike g) (hde : d ≈ e) : f.find? d = g.find? e :=
  SortedMap.Alike.find?_eq h (Path.compare_eq_iff.mpr hde)

theorem Alike.insert (h : f.Alike g) (hde : d ≈ e) (file : OpenFile) :
    Alike ⟨f.byDocument.insert d file⟩ ⟨g.byDocument.insert e file⟩ :=
  SortedMap.Alike.insert h (Path.compare_eq_iff.mpr hde) rfl

theorem alike_openFile (h : f.Alike g) (hde : d ≈ e) (text : Text) (revision : Revision) :
    SameResult Alike (f.openFile d text revision) (g.openFile e text revision) := by
  unfold openFile
  rw [h.find?_eq hde]
  split
  · exact .error (.alreadyOpen hde)
  · exact .ok (h.insert hde _)

theorem alike_withFile {α : Type} {R : α → α → Prop} (h : f.Alike g) (hde : d ≈ e)
    {use other : OpenFile → α} (huse : ∀ file, R (use file) (other file)) :
    SameResult R (f.withFile d use) (g.withFile e other) := by
  unfold withFile
  rw [h.find?_eq hde]
  split
  · exact .ok (huse _)
  · exact .error (.notOpen hde)

theorem alike_close (h : f.Alike g) (hde : d ≈ e) : SameResult Alike (f.close d) (g.close e) :=
  alike_withFile h hde fun _ => SortedMap.Alike.erase h (Path.compare_eq_iff.mpr hde)

theorem alike_setInProject (h : f.Alike g) (hde : d ≈ e) (inProject : Bool) :
    SameResult Alike (f.setInProject d inProject) (g.setInProject e inProject) :=
  alike_withFile h hde fun _ => h.insert hde _

theorem alike_edit (h : f.Alike g) (hde : d ≈ e) (change : Text → Text) :
    SameResult (fun a b => a.1.Alike b.1 ∧ a.2 = b.2) (f.edit d change) (g.edit e change) :=
  alike_withFile h hde fun _ => ⟨h.insert hde _, rfl⟩

/-- The editor does not look at a spelling. -/
theorem Alike.editor (h : f.Alike g) : f.editor.Alike g.editor where
  buffer := fun hde => congrArg (Option.map _) (h.find?_eq hde)
  revision := fun hde => congrArg (Option.map _) (h.find?_eq hde)
  inProject := fun {d e} hde => by
    change f.inProject d = g.inProject e
    unfold inProject
    rw [h.find?_eq hde]

end OpenFiles

namespace Overlay

theorem Alike.start (settings : Settings) : (start settings).Alike (start settings) where
  settings := rfl
  layer := rfl
  theme := rfl
  rule := fun _ _ _ => rfl
  filter := fun _ => rfl
  reports := .empty
  groups := .empty
  nextGroup := rfl

end Overlay

namespace Session

/-- Sessions that differ in the spelling of their documents at most. -/
structure Alike (s t : Session) : Prop where
  files : s.files.Alike t.files
  unmasked : s.masks = {} ∧ t.masks = {}
  overlay : s.overlay.Alike t.overlay
  screen : s.screen.Alike t.screen
  clipboard : s.clipboard = t.clipboard
  subscribers : s.subscribers = t.subscribers

/-- Steps that differ in the spelling of documents at most. -/
structure StepsAlike (x y : Step) : Prop where
  session : x.session.Alike y.session
  answer : x.answer.Alike y.answer
  notices : List.Forall₂ Notice.Alike x.notices y.notices

variable {s t : Session}

theorem Alike.start (settings : Settings) : (start settings).Alike (start settings) where
  files := .empty
  unmasked := ⟨rfl, rfl⟩
  overlay := .start settings
  screen := ⟨.empty, .empty, rfl⟩
  clipboard := rfl
  subscribers := rfl

theorem Alike.editor (h : s.Alike t) : s.editor.Alike t.editor := by
  unfold Session.editor
  rw [h.unmasked.1, h.unmasked.2]
  exact h.files.editor

theorem alike_pass (h : s.Alike t) {effect other : Effect} (he : effect.Alike other) :
    (s.pass effect).1.Alike (t.pass other).1 ∧
      List.Forall₂ Notice.Alike (s.pass effect).2 (t.pass other).2 := by
  cases he with
  | draw hcall =>
    exact ⟨{ h with screen := Screen.alike_apply h.screen hcall }, .cons (.call hcall) .nil⟩
  | announce hde count =>
    unfold pass
    rw [h.subscribers]
    refine ⟨{ h with subscribers := rfl }, ?_⟩
    rw [List.forall₂_map_left_iff, List.forall₂_map_right_iff, List.forall₂_same]
    exact fun x _ => .event x hde count
  | log hrecord => exact ⟨h, .cons (.log hrecord) .nil⟩

theorem alike_passAll (h : s.Alike t) {effects others : List Effect}
    (he : List.Forall₂ Effect.Alike effects others) :
    (s.passAll effects).1.Alike (t.passAll others).1 ∧
      List.Forall₂ Notice.Alike (s.passAll effects).2 (t.passAll others).2 := by
  induction he generalizing s t with
  | nil => exact ⟨h, .nil⟩
  | cons heffect _ ih =>
    obtain ⟨hfirst, hnotices⟩ := alike_pass h heffect
    obtain ⟨hrest, hmore⟩ := ih hfirst
    exact ⟨hrest, List.rel_append hnotices hmore⟩

theorem alike_enact (h : s.Alike t) {x y : Overlay.Outcome} (hxy : x.Alike y) :
    StepsAlike (s.enact x) (t.enact y) := by
  obtain ⟨hsession, hnotices⟩ := alike_passAll (s := { s with overlay := x.1 })
    (t := { t with overlay := y.1 }) { h with overlay := hxy.overlay } hxy.effects
  exact ⟨hsession, .done, hnotices⟩

theorem alike_store (h : s.Alike t) {result other : Except OpenFiles.Problem OpenFiles}
    (hresult : OpenFiles.SameResult OpenFiles.Alike result other) :
    StepsAlike (s.store result) (t.store other) := by
  cases hresult with
  | ok hfiles => exact ⟨{ h with files := hfiles }, .done, .nil⟩
  | error hproblem => exact ⟨h, .failed hproblem, .nil⟩

theorem alike_storeEdit (h : s.Alike t)
    {result other : Except OpenFiles.Problem (OpenFiles × Revision)}
    (hresult : OpenFiles.SameResult (fun a b => a.1.Alike b.1 ∧ a.2 = b.2) result other) :
    StepsAlike (s.storeEdit result) (t.storeEdit other) := by
  cases hresult with
  | @ok a b hab =>
    obtain ⟨files, revision⟩ := a
    obtain ⟨hfiles, rfl⟩ := hab
    exact ⟨{ h with files := hfiles }, .edited _, .nil⟩
  | error hproblem => exact ⟨h, .failed hproblem, .nil⟩

theorem alike_perform (h : s.Alike t) {command other : Command} (hc : command.Alike other) :
    StepsAlike (s.perform command) (t.perform other) := by
  cases hc with
  | openFile hde text revision => exact alike_store h (OpenFiles.alike_openFile h.files hde _ _)
  | close hde => exact alike_store h (OpenFiles.alike_close h.files hde)
  | setInProject hde inProject =>
    exact alike_store h (OpenFiles.alike_setInProject h.files hde inProject)
  | insert hde offset new => exact alike_storeEdit h (OpenFiles.alike_edit h.files hde _)
  | delete hde start count => exact alike_storeEdit h (OpenFiles.alike_edit h.files hde _)
  | setText hde text => exact alike_storeEdit h (OpenFiles.alike_edit h.files hde _)
  | report hde ds revision =>
    exact alike_enact h (Overlay.alike_report h.overlay h.editor hde ds revision)
  | publish hde ds revision =>
    exact alike_enact h (Overlay.alike_publish h.overlay h.editor hde ds revision)
  | display hde revision =>
    exact alike_enact h (Overlay.alike_display h.overlay h.editor hde revision)
  | hide hde => exact alike_enact h (Overlay.alike_hide h.overlay h.editor hde)
  | clear => exact alike_enact h (Overlay.alike_clear h.overlay h.editor)
  | disable hde => exact alike_enact h (Overlay.alike_disable h.overlay hde)
  | restyle theme => exact alike_enact h (Overlay.alike_restyle h.overlay theme)
  | setLayer layer => exact alike_enact h (Overlay.alike_setLayer h.overlay h.editor layer)
  | subscribe tag =>
    exact ⟨{ h with subscribers := congrArg (· ++ _) h.subscribers }, .done, .nil⟩

theorem alike_run (h : s.Alike t) {commands others : List Command}
    (hc : List.Forall₂ Command.Alike commands others) :
    (s.run commands).Alike (t.run others) := by
  induction hc generalizing s t with
  | nil => exact h
  | cons hcommand _ ih => exact ih (alike_perform h hcommand).session

/-- Two sessions answer every question in the same way, under any two spellings of the document that
it is about. Documents in answers agree up to their spelling. -/
structure SameAnswers (s t : Session) : Prop where
  isOpen : ∀ {d e : Path}, d ≈ e → s.files.isOpen d = t.files.isOpen e
  text : ∀ {d e : Path}, d ≈ e → s.files.text? d = t.files.text? e
  revision : ∀ {d e : Path}, d ≈ e → s.files.revision? d = t.files.revision? e
  inProject : ∀ {d e : Path}, d ≈ e → s.files.inProject d = t.files.inProject e
  size : s.files.size = t.files.size
  report : ∀ {d e : Path}, d ≈ e → s.overlay.reports.find? d = t.overlay.reports.find? e
  documents : List.Forall₂ (· ≈ ·) s.overlay.reports.documents t.overlay.reports.documents
  diagnosticsIn : ∀ {d e : Path}, d ≈ e → ∀ span,
    s.overlay.diagnosticsIn s.editor d span = t.overlay.diagnosticsIn t.editor e span
  diagnosticsAt : ∀ {d e : Path}, d ≈ e → ∀ p,
    s.overlay.diagnosticsAt s.editor d p = t.overlay.diagnosticsAt t.editor e p
  has : ∀ {d e : Path}, d ≈ e → ∀ x, s.overlay.has s.editor d x = t.overlay.has t.editor e x
  hasAny : ∀ {d e : Path}, d ≈ e → s.overlay.hasAny s.editor d = t.overlay.hasAny t.editor e
  /-- With number, handles, markers, and whether it is greyed out. -/
  group : ∀ {d e : Path}, d ≈ e → s.overlay.group? d = t.overlay.group? e
  markers : List.Forall₂ (fun x y => x.1 ≈ y.1 ∧ x.2 = y.2) s.overlay.markers t.overlay.markers
  markerCount : s.overlay.markerCount = t.overlay.markerCount
  layer : s.overlay.layer = t.overlay.layer
  settings : s.overlay.settings = t.overlay.settings
  highlights : ∀ {d e : Path}, d ≈ e → ∀ layer,
    s.screen.highlights d layer = t.screen.highlights e layer
  highlightUpdates : s.screen.highlightUpdates = t.screen.highlightUpdates
  alive : ∀ h, s.screen.marker? h = t.screen.marker? h
  aliveFor : ∀ {d e : Path}, d ≈ e → s.screen.markers d = t.screen.markers e
  aliveCount : s.screen.markerCount = t.screen.markerCount
  /-- With the events that everyone has heard. -/
  subscribers : s.subscribers = t.subscribers
  clipboard : s.clipboard = t.clipboard
  trigger : ∀ {d e : Path}, d ≈ e → ∀ index action,
    (s.trigger d index action).2 = (t.trigger e index action).2 ∧
      (s.trigger d index action).1.clipboard = (t.trigger e index action).1.clipboard

theorem Alike.file_eq (h : s.Alike t) {d e : Path} (hde : d ≈ e) :
    s.files.find? d = t.files.find? e :=
  h.files.find?_eq hde

theorem Alike.report_eq (h : s.Alike t) {d e : Path} (hde : d ≈ e) :
    s.overlay.reports.find? d = t.overlay.reports.find? e :=
  h.overlay.reports.find?_eq (Path.compare_eq_iff.mpr hde)

theorem Alike.group_eq (h : s.Alike t) {d e : Path} (hde : d ≈ e) :
    s.overlay.group? d = t.overlay.group? e :=
  h.overlay.find?_eq hde

theorem Alike.current_eq (h : s.Alike t) {d e : Path} (hde : d ≈ e) :
    s.overlay.current? s.editor d = t.overlay.current? t.editor e := by
  unfold Overlay.current? Reports.current?
  rw [h.report_eq hde, h.editor.revision hde]

theorem Alike.markers (h : s.Alike t) :
    List.Forall₂ (fun x y => x.1 ≈ y.1 ∧ x.2 = y.2) s.overlay.markers t.overlay.markers := by
  refine List.rel_flatMap h.overlay.groups fun a b hab => ?_
  dsimp only
  rw [hab.2, List.forall₂_map_left_iff, List.forall₂_map_right_iff, List.forall₂_same]
  exact fun _ _ => ⟨Path.compare_eq_iff.mp hab.1, rfl⟩

theorem Alike.sameAnswers (h : s.Alike t) : SameAnswers s t where
  isOpen hde := congrArg Option.isSome (h.file_eq hde)
  text hde := congrArg (Option.map _) (h.file_eq hde)
  revision hde := congrArg (Option.map _) (h.file_eq hde)
  inProject := h.files.editor.inProject
  size := h.files.size_eq
  report := h.report_eq
  documents := h.overlay.reports.keys.imp fun _ _ => Path.compare_eq_iff.mp
  diagnosticsIn hde span := by
    unfold Overlay.diagnosticsIn
    rw [h.current_eq hde]
  diagnosticsAt hde p := by
    unfold Overlay.diagnosticsAt Overlay.diagnosticsIn
    rw [h.current_eq hde]
  has hde x := by
    unfold Overlay.has
    rw [h.current_eq hde, h.editor.buffer hde]
  hasAny hde := by
    unfold Overlay.hasAny
    rw [h.current_eq hde]
  group := h.group_eq
  markers := h.markers
  markerCount := by
    have hvalues := h.overlay.groups.values
    rw [List.forall₂_eq_eq_eq] at hvalues
    exact congrArg (List.foldl _ 0) hvalues
  layer := h.overlay.layer
  settings := h.overlay.settings
  highlights := h.screen.highlights_eq
  highlightUpdates := h.screen.highlightUpdates
  alive := h.screen.marker?_eq
  aliveFor := h.screen.markers_eq
  aliveCount := h.screen.byHandle.size_eq
  subscribers := h.subscribers
  clipboard := h.clipboard
  trigger hde index action := by
    unfold trigger
    rw [← h.group_eq hde, h.clipboard]
    split
    · exact ⟨rfl, h.clipboard⟩
    · exact ⟨rfl, rfl⟩

/-- The files, the reports, the groups, the highlights and the markers on the screen tell the same
documents apart. -/
structure TellsApart (s : Session) : Prop where
  files : s.files.byDocument.KeyedBy (· ≈ ·)
  reports : s.overlay.reports.byDocument.KeyedBy (· ≈ ·)
  groups : s.overlay.groups.KeyedBy (· ≈ ·)
  highlights : s.screen.byPlace.KeyedBy fun a b => a.document ≈ b.document ∧ a.layer = b.layer
  aliveFor : ∀ d, s.screen.markers d = ((s.overlay.group? d).map (·.markers)).getD []

theorem Reachable.tellsApart (hr : Reachable s) : s.TellsApart where
  files := .of_compare _ fun _ _ => Path.compare_eq_iff
  reports := .of_compare _ fun _ _ => Path.compare_eq_iff
  groups := .of_compare _ fun _ _ => Path.compare_eq_iff
  highlights := .of_compare _ fun _ _ => Screen.Place.compare_eq_iff
  aliveFor := hr.sound.mirrors.inOrder

/-- Two runs of the same commands with documents spelled differently: all questions are answered in
the same way after them, and one more command is answered and does the same, up to the spelling
that it was given. -/
theorem spelling_is_not_seen (settings : Settings) {commands others : List Command}
    (hruns : List.Forall₂ Command.Alike commands others) {command other : Command}
    (hnext : command.Alike other) :
    let s := (start settings).run commands
    let t := (start settings).run others
    SameAnswers s t ∧ s.TellsApart ∧ (s.perform command).answer.Alike (t.perform other).answer ∧
      List.Forall₂ Notice.Alike (s.perform command).notices (t.perform other).notices ∧
      SameAnswers (s.perform command).session (t.perform other).session := by
  intro s t
  have h : s.Alike t := alike_run (.start settings) hruns
  have hstep := alike_perform h hnext
  refine ⟨h.sameAnswers, ?_, hstep.answer, hstep.notices, hstep.session.sameAnswers⟩
  exact ((Reachable.start settings).run commands).tellsApart

/-- A report of one error, over a text that is then edited. Each command has a spelling of its own. -/
def spelled (first second third : Path) : Session := (start {}).run
  [.openFile first (.ofString "abc") default,
    .publish second [⟨⟨⟨0, 0⟩, ⟨0, 1⟩⟩, some .error, "m"⟩] none,
    .insert third 0 (.ofString "x")]

/-- The screen keeps other spellings, and what it draws and is told is the same. -/
theorem spelling_is_not_seen_spelled :
    let s := spelled ⟨"/a"⟩ ⟨"/a"⟩ ⟨"/a"⟩
    let t := spelled ⟨"//a/."⟩ ⟨"/./a"⟩ ⟨"/a//"⟩
    SameAnswers s t ∧ s.screen.byPlace.keys = [⟨⟨"/a"⟩, .codeWarnings⟩] ∧
      t.screen.byPlace.keys = [⟨⟨"/./a"⟩, .codeWarnings⟩] ∧
      List.Forall₂ Notice.Alike (s.perform (.disable ⟨"/a/."⟩)).notices
        (t.perform (.disable ⟨"///a"⟩)).notices := by
  intro s t
  have hruns : List.Forall₂ Command.Alike
      [.openFile ⟨"/a"⟩ (.ofString "abc") default,
        .publish ⟨"/a"⟩ [⟨⟨⟨0, 0⟩, ⟨0, 1⟩⟩, some .error, "m"⟩] none,
        .insert ⟨"/a"⟩ 0 (.ofString "x")]
      [.openFile ⟨"//a/."⟩ (.ofString "abc") default,
        .publish ⟨"/./a"⟩ [⟨⟨⟨0, 0⟩, ⟨0, 1⟩⟩, some .error, "m"⟩] none,
        .insert ⟨"/a//"⟩ 0 (.ofString "x")] :=
    .cons (.openFile (by decide) _ _) (.cons (.publish (by decide) _ _)
      (.cons (.insert (by decide) _ _) .nil))
  have hnext : Command.Alike (.disable ⟨"/a/."⟩) (.disable ⟨"///a"⟩) := .disable (by decide)
  obtain ⟨hanswers, -, -, hnotices, -⟩ := spelling_is_not_seen {} hruns hnext
  exact ⟨hanswers, by decide, by decide, hnotices⟩

end Session

end Marginalia
