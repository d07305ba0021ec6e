import Marginalia.Proofs.Session.Edit
import Marginalia.Proofs.Text.Splice
import Mathlib.Logic.Function.Basic

/-! The files of a session against a plain table, in which a document is known by its components and by
nothing else. Each file is a machine of its own there (`Command.onFile`), and a command moves the one
that it names. -/
namespace Marginalia

namespace Command

/-- What a command makes of the file of its document, and what it answers. There is no file while the
document is not open. -/
def onFile (file : Option OpenFile) : Command → Option OpenFile × Answer
  | openFile document text revision =>
    match file with
    | none => (some { text, revision, inProject := true }, .done)
    | some _ => (file, .failed (.alreadyOpen document))
  | close document => whenOpen document fun _ => (none, .done)
  | setInProject document inProject =>
    whenOpen document fun file => (some { file with inProject }, .done)
  | insert document offset new =>
    edited document fun t => t.splice (min offset t.size) (min offset t.size) new
  | delete document start count =>
    edited document fun t => t.splice (min start t.size) (min (start + count) t.size) ⟨[]⟩
  | setText document text => edited document fun t => t.splice 0 t.size text
  | _ => (file, .done)
where
  whenOpen (document : Path) (change : OpenFile → Option OpenFile × Answer) :
      Option OpenFile × Answer :=
    match file with
    | some file => change file
    | none => (none, .failed (.notOpen document))
  edited (document : Path) (change : Text → Text) : Option OpenFile × Answer :=
    whenOpen document fun file =>
      let revision := file.revision.next
      (some { file with text := change file.text, revision }, .edited revision)

/-- The document without which a command is refused. -/
def needs? : Command → Option Path
  | close document => some document
  | setInProject document _ => some document
  | insert document _ _ => some document
  | delete document _ _ => some document
  | setText document _ => some document
  | _ => none

def edits (command : Command) (d : Path) : Bool :=
  match command.edit? with
  | some (e, _) => d ≈ e
  | none => false

theorem document?_of_edit? {command : Command} {e : Path} {change : Text → Text}
    (h : command.edit? = some (e, change)) : command.document? = some e := by
  cases command <;> cases h <;> rfl

theorem document?_of_needs? {command : Command} {e : Path} (h : command.needs? = some e) :
    command.document? = some e := by
  cases command <;> cases h <;> rfl

theorem edits_eq {command : Command} {e : Path} (h : command.document? = some e) (d : Path) :
    command.edits d = (decide (d ≈ e) && command.edit?.isSome) := by
  unfold edits
  cases hedit : command.edit? with
  | none => simp
  | some edit =>
    obtain rfl : edit.1 = e := Option.some.inj ((document?_of_edit? hedit).symm.trans h)
    simp

theorem edits_of_all {command : Command} (h : command.document? = none) (d : Path) :
    command.edits d = false := by
  unfold edits
  cases hedit : command.edit? with
  | none => rfl
  | some edit =>
    rw [document?_of_edit? hedit] at h
    cases h

theorem onFile_openFile_iff (file : Option OpenFile) (d : Path) (text : Text) (revision : Revision)
    (problem : OpenFiles.Problem) :
    ((openFile d text revision).onFile file).2 = .failed problem ↔
      file.isSome = true ∧ problem = .alreadyOpen d := by
  cases file <;> simp [onFile, eq_comm]

theorem onFile_needs_iff {command : Command} {d : Path} (h : command.needs? = some d)
    (file : Option OpenFile) (problem : OpenFiles.Problem) :
    (command.onFile file).2 = .failed problem ↔ file.isSome = false ∧ problem = .notOpen d := by
  cases command <;> cases h <;> cases file <;>
    simp [onFile, onFile.edited, onFile.whenOpen, eq_comm]

/-- A file that stays open gets the next revision by an edit, and keeps its own by all else. -/
theorem revision_onFile {command : Command} {file next : OpenFile}
    (h : (command.onFile (some file)).1 = some next) :
    next.revision = if command.edit?.isSome then file.revision.next else file.revision := by
  cases command <;> cases h <;> rfl

end Command

/-- Files by the components of their documents. -/
abbrev FileTable := List Component → Option OpenFile

namespace FileTable

/-- Only the file that a command names can change. -/
def step (m : FileTable) (command : Command) : FileTable × Answer :=
  match command.document? with
  | none => (m, .done)
  | some d =>
    let x := command.onFile (m d.components)
    (Function.update m d.components x.1, x.2)

def run (m : FileTable) (commands : List Command) : FileTable :=
  commands.foldl (fun m command => (m.step command).1) m

end FileTable

namespace Session

/-- A step does to the files what one of them does. -/
structure Moves (s : Session) (e : Path) (x : Option OpenFile × Answer) (step : Step) : Prop where
  answer : step.answer = x.2
  files : ∀ d, step.session.files.find? d = if d ≈ e then x.1 else s.files.find? d

variable {s : Session} {e : Path}

theorem moves_kept {file : Option OpenFile} (hfile : s.files.find? e = file) (step : Step)
    (h : step.session.files = s.files) : Moves s e (file, step.answer) step where
  answer := rfl
  files d := by
    rw [h]
    split
    · rename_i hd
      exact (s.files.find?_congr hd).trans hfile
    · rfl

theorem moves_put (file : OpenFile) (answer : Answer) :
    Moves s e (some file, answer)
      { session := { s with files := ⟨s.files.byDocument.insert e file⟩ }, answer } where
  answer := rfl
  files d := s.files.find?_put d e file

theorem moves_remove (answer : Answer) :
    Moves s e (none, answer)
      { session := { s with files := ⟨s.files.byDocument.erase e⟩ }, answer } where
  answer := rfl
  files d := s.files.find?_remove d e

theorem moves_openFile (text : Text) (revision : Revision) :
    Moves s e ((Command.openFile e text revision).onFile (s.files.find? e))
      (s.store (s.files.openFile e text revision)) := by
  simp only [Command.onFile, OpenFiles.openFile]
  cases hfile : s.files.find? e with
  | none => exact moves_put _ _
  | some file => exact moves_kept hfile (s.store (.error (.alreadyOpen e))) rfl

/-- A command that needs the file of its document is refused without one, and nothing moves. -/
theorem moves_withFile {α : Type} {change : OpenFile → Option OpenFile × Answer}
    {use : OpenFile → α} {keep : Except OpenFiles.Problem α → Step}
    (refused : keep (.error (.notOpen e)) =
      { session := s, answer := .failed (.notOpen e) })
    (moved : ∀ file, Moves s e (change file) (keep (.ok (use file)))) :
    Moves s e (Command.onFile.whenOpen (s.files.find? e) e change)
      (keep (s.files.withFile e use)) := by
  unfold Command.onFile.whenOpen
  cases hfile : s.files.find? e with
  | none =>
    rw [s.files.withFile_of_closed e hfile, refused]
    exact moves_kept hfile { session := s, answer := .failed (.notOpen e) } rfl
  | some file =>
    rw [s.files.withFile_of_open e hfile]
    exact moved file

theorem moves_close :
    Moves s e ((Command.close e).onFile (s.files.find? e)) (s.store (s.files.close e)) :=
  moves_withFile rfl fun _ => moves_remove _

theorem moves_setInProject (inProject : Bool) :
    Moves s e ((Command.setInProject e inProject).onFile (s.files.find? e))
      (s.store (s.files.setInProject e inProject)) :=
  moves_withFile rfl fun _ => moves_put _ _

/-- An edit that is told as a splice. -/
theorem moves_edit {change spliced : Text → Text} (h : ∀ t, change t = spliced t) :
    Moves s e (Command.onFile.edited (s.files.find? e) e spliced)
      (s.storeEdit (s.files.edit e change)) := by
  obtain rfl : change = spliced := funext h
  exact moves_withFile rfl fun _ => moves_put _ _

/-- A command for a document moves its file, and no other. -/
theorem moves_perform (s : Session) {command : Command} {e : Path}
    (h : command.document? = some e) :
    Moves s e (command.onFile (s.files.find? e)) (s.perform command) := by
  cases command <;> cases h
  case openFile text revision => exact moves_openFile text revision
  case close => exact moves_close
  case setInProject inProject => exact moves_setInProject inProject
  case insert offset new => exact moves_edit fun t => t.insert_eq_splice new offset
  case delete start count => exact moves_edit fun t => t.delete_eq_splice start count
  case setText text => exact moves_edit fun t => t.eq_splice_all text
  all_goals exact moves_kept rfl _ (s.files_enact _)

theorem perform_of_all (s : Session) {command : Command} (h : command.document? = none) :
    (s.perform command).session.files = s.files ∧ (s.perform command).answer = .done := by
  cases command <;> cases h
  case subscribe tag => exact ⟨rfl, rfl⟩
  all_goals exact ⟨s.files_enact _, rfl⟩

/-- Every file is that of the table, however its document is spelled. -/
def Shows (s : Session) (m : FileTable) : Prop := ∀ d, s.files.find? d = m d.components

variable {m : FileTable}

theorem Shows.perform (h : s.Shows m) (command : Command) :
    (s.perform command).session.Shows (m.step command).1 ∧
      (s.perform command).answer = (m.step command).2 := by
  unfold FileTable.step
  cases hd : command.document? with
  | none =>
    obtain ⟨hfiles, hanswer⟩ := s.perform_of_all hd
    refine ⟨fun d => ?_, hanswer⟩
    rw [hfiles]
    exact h d
  | some e =>
    have hmoves := s.moves_perform hd
    rw [h e] at hmoves
    refine ⟨fun d => ?_, hmoves.answer⟩
    rw [hmoves.files]
    split
    · rename_i hde
      have hkey : d.components = e.components := hde
      rw [hkey]
      exact (Function.update_self e.components _ m).symm
    · rename_i hde
      rw [h d]
      exact (Function.update_of_ne hde _ _).symm

theorem Shows.run (h : s.Shows m) (commands : List Command) :
    (s.run commands).Shows (m.run commands) := by
  induction commands generalizing s m with
  | nil => exact h
  | cons command rest ih => exact ih (h.perform command).1

section Refusal

variable {problem : OpenFiles.Problem}

theorem session_of_store_failed {result : Except OpenFiles.Problem OpenFiles}
    (h : (s.store result).answer = .failed problem) : (s.store result).session = s := by
  cases result with
  | ok files => cases h
  | error problem => rfl

theorem session_of_storeEdit_failed {result : Except OpenFiles.Problem (OpenFiles × Revision)}
    (h : (s.storeEdit result).answer = .failed problem) : (s.storeEdit result).session = s := by
  cases result with
  | ok x => cases h
  | error problem => rfl

theorem session_of_failed (s : Session) {command : Command}
    (h : (s.perform command).answer = .failed problem) : (s.perform command).session = s := by
  cases command with
  | openFile d text revision => exact session_of_store_failed h
  | close d => exact session_of_store_failed h
  | setInProject d inProject => exact session_of_store_failed h
  | insert d offset new => exact session_of_storeEdit_failed h
  | delete d start count => exact session_of_storeEdit_failed h
  | setText d text => exact session_of_storeEdit_failed h
  | _ => cases h

end Refusal

theorem revision_perform {command : Command} {d : Path} {file next : OpenFile}
    (hfile : s.files.find? d = some file)
    (hnext : (s.perform command).session.files.find? d = some next) :
    next.revision = if command.edits d then file.revision.next else file.revision := by
  cases hd : command.document? with
  | none =>
    rw [(s.perform_of_all hd).1, hfile] at hnext
    cases hnext
    rw [Command.edits_of_all hd]
    rfl
  | some e =>
    rw [(s.moves_perform hd).files] at hnext
    rw [Command.edits_eq hd]
    by_cases hde : d ≈ e
    · rw [if_pos hde, ← s.files.find?_congr hde, hfile] at hnext
      rw [decide_eq_true hde, Bool.true_and]
      exact Command.revision_onFile hnext
    · rw [if_neg hde, hfile] at hnext
      cases hnext
      rw [decide_eq_false hde, Bool.false_and]
      rfl

/-- The revision counts the edits, up to the greatest one. -/
theorem revision_run {d : Path} {file : OpenFile} (hfile : s.files.find? d = some file)
    {rest : List Command}
    (hopen : ∀ before, before <+: rest → (s.run before).files.isOpen d = true) :
    ∃ last, (s.run rest).files.find? d = some last ∧
      last.revision.number = min (file.revision.number + rest.countP (·.edits d)) 2147483647 := by
  induction rest generalizing s file with
  | nil =>
    have hhigh := file.revision.high
    refine ⟨file, hfile, ?_⟩
    rw [List.countP_nil]
    omega
  | cons command rest ih =>
    obtain ⟨next, hnext⟩ := Option.isSome_iff_exists.mp (hopen [command] ⟨rest, rfl⟩)
    obtain ⟨last, hlast, hnumber⟩ := ih hnext fun before hbefore =>
      hopen (command :: before) ((List.prefix_cons_inj command).mpr hbefore)
    refine ⟨last, hlast, ?_⟩
    rw [hnumber, revision_perform hfile hnext, List.countP_cons]
    split
    · simp only [Revision.next]
      omega
    · simp

/-- The files of a session are those of a table, and so are the answers to all that comes next. -/
structure FollowsTable (s : Session) (m : FileTable) : Prop where
  file : ∀ d, s.files.find? d = m d.components
  answer : ∀ command, (s.perform command).answer = (m.step command).2
  opening : ∀ d text revision problem,
    (s.perform (.openFile d text revision)).answer = .failed problem ↔
      s.files.isOpen d = true ∧ problem = .alreadyOpen d
  needing : ∀ command d problem, command.needs? = some d →
    ((s.perform command).answer = .failed problem ↔
      s.files.isOpen d = false ∧ problem = .notOpen d)
  /-- A command that is refused changes nothing at all. -/
  refused : ∀ command problem, (s.perform command).answer = .failed problem →
    (s.perform command).session = s
  others : ∀ command d, (∀ e, command.document? = some e → ¬d ≈ e) →
    (s.perform command).session.files.find? d = s.files.find? d
  /-- Nothing is left of a file that was closed. -/
  reopened : ∀ d e text revision, d ≈ e →
    (s.run [.close d, .openFile e text revision]).files.find? d =
      some { text, revision, inProject := true }
  lasting : ∀ d file rest, s.files.find? d = some file →
    (∀ before, before <+: rest → (s.run before).files.isOpen d = true) →
      ∃ last, (s.run rest).files.find? d = some last ∧
        file.revision.number ≤ last.revision.number ∧
        last.revision.number =
          min (file.revision.number + rest.countP (·.edits d)) 2147483647

theorem Shows.followsTable (h : s.Shows m) : s.FollowsTable m where
  file := h
  answer command := (h.perform command).2
  opening d text revision problem := by
    rw [(s.moves_perform rfl).answer]
    exact Command.onFile_openFile_iff _ d text revision problem
  needing command d problem hneeds := by
    rw [(s.moves_perform (Command.document?_of_needs? hneeds)).answer]
    exact Command.onFile_needs_iff hneeds _ problem
  refused command problem := s.session_of_failed
  others command d hother := by
    cases hd : command.document? with
    | none => rw [(s.perform_of_all hd).1]
    | some e => rw [(s.moves_perform hd).files, if_neg (hother e hd)]
  reopened d e text revision hde := by
    have hclosed : (s.perform (.close d)).session.files.find? e = none := by
      rw [(s.moves_perform rfl).files, if_pos (Setoid.symm hde)]
      cases s.files.find? d <;> rfl
    rw [run_cons, run_cons, run_nil, (moves_perform _ rfl).files, if_pos hde, hclosed]
    rfl
  lasting d file rest hfile hopen := by
    obtain ⟨last, hlast, hnumber⟩ := revision_run hfile hopen
    have hhigh := file.revision.high
    exact ⟨last, hlast, by omega, hnumber⟩

/-- After any run, whatever else is done in between, the files are those of the table. -/
theorem files_follow_table (settings : Settings) (commands : List Command) :
    ((start settings).run commands).FollowsTable (FileTable.run (fun _ => none) commands) := by
  have hempty : (start settings).Shows fun _ => none := fun _ => rfl
  exact (hempty.run commands).followsTable

/-- A cut beyond the end, at a revision that has no next one. -/
example :
    let greatest : Revision := ⟨2147483647, by decide, by decide⟩
    ((start {}).run [.openFile ⟨"/a"⟩ (.ofString "abc") greatest,
      .delete ⟨"//a/."⟩ 1 18446744073709551615]).files.find? ⟨"/a"⟩ =
        some { text := .ofString "a", revision := greatest } := by decide

end Session

end Marginalia
