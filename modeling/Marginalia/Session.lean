import Marginalia.Overlay.Query

/-! An overlay at work: with the open files, the screen on which it draws, a clipboard and those who
want to hear of new markers. What a sequence of commands leads to is `Session.run`. -/
namespace Marginalia

/-- Everyone who subscribes counts the events that reach them. -/
structure Subscriber where
  tag : String
  seen : Nat := 0
deriving DecidableEq, Repr, Inhabited

structure Session where
  files : OpenFiles := {}
  masks : Masks := {}
  overlay : Overlay
  screen : Screen := {}
  clipboard : Option String := none
  subscribers : List Subscriber := []
  /-- Handles of all markers that were ever added to the screen, the last one first. -/
  issued : List Handle := []

/-- What reaches the world outside. -/
inductive Notice where
  | call (call : ScreenCall)
  | event (subscriber : Subscriber) (document : Path) (count : Nat)
  | log (record : LogRecord)
deriving DecidableEq

inductive Command where
  | openFile (document : Path) (text : Text) (revision : Revision)
  | close (document : Path)
  | setInProject (document : Path) (inProject : Bool)
  | insert (document : Path) (offset : Nat) (new : Text)
  | delete (document : Path) (start count : Nat)
  | setText (document : Path) (text : Text)
  | report (document : Path) (diagnostics : List Diagnostic) (revision : Option Revision)
  | publish (document : Path) (diagnostics : List Diagnostic) (revision : Option Revision)
  | display (document : Path) (revision : Revision)
  | hide (document : Path)
  | clear
  | disable (document : Path)
  | restyle (theme : Theme)
  | setLayer (layer : Layer)
  | subscribe (tag : String)

inductive Answer where
  | done
  | edited (revision : Revision)
  | failed (problem : OpenFiles.Problem)
deriving DecidableEq

/-- A session after a step, with what the step said and did. -/
structure Step where
  session : Session
  answer : Answer := .done
  notices : List Notice := []

namespace Session

def start (settings : Settings) : Session where
  overlay := .start settings

def editor (s : Session) : Editor := s.masks.apply s.files.editor

def issue (issued : List Handle) : ScreenCall → List Handle
  | .addMarker _ h _ => h :: issued
  | _ => issued

/-- Pass an effect on to where it belongs. -/
def pass (s : Session) : Effect → Session × List Notice
  | .draw call =>
    ({ s with screen := s.screen.apply call, issued := issue s.issued call }, [.call call])
  | .announce document count =>
    let subscribers := s.subscribers.map fun x => { x with seen := x.seen + 1 }
    ({ s with subscribers }, subscribers.map (.event · document count))
  | .log record => (s, [.log record])

def passAll (s : Session) : List Effect → Session × List Notice
  | [] => (s, [])
  | e :: es =>
    let first := s.pass e
    let rest := first.1.passAll es
    (rest.1, first.2 ++ rest.2)

/-- An operation of the overlay. -/
def enact (s : Session) (x : Overlay.Outcome) : Step :=
  let passed := { s with overlay := x.1 }.passAll x.2
  { session := passed.1, notices := passed.2 }

/-- An operation on the files. -/
def store (s : Session) : Except OpenFiles.Problem OpenFiles → Step
  | .ok files => { session := { s with files } }
  | .error problem => { session := s, answer := .failed problem }

/-- An edit of a file, which is answered with the new revision. -/
def storeEdit (s : Session) : Except OpenFiles.Problem (OpenFiles × Revision) → Step
  | .ok (files, revision) => { session := { s with files }, answer := .edited revision }
  | .error problem => { session := s, answer := .failed problem }

def perform (s : Session) : Command → Step
  | .openFile document text revision => s.store (s.files.openFile document text revision)
  | .close document => s.store (s.files.close document)
  | .setInProject document inProject => s.store (s.files.setInProject document inProject)
  | .insert document offset new => s.storeEdit (s.files.insert document offset new)
  | .delete document start count => s.storeEdit (s.files.delete document start count)
  | .setText document text => s.storeEdit (s.files.setText document text)
  | .report document diagnostics revision =>
    s.enact (s.overlay.report s.editor document diagnostics revision)
  | .publish document diagnostics revision =>
    s.enact (s.overlay.publish s.editor document diagnostics revision)
  | .display document revision => s.enact (s.overlay.display s.editor document revision)
  | .hide document => s.enact (s.overlay.hide s.editor document)
  | .clear => s.enact (s.overlay.clear s.editor)
  | .disable document => s.enact (s.overlay.disable document)
  | .restyle theme => s.enact (s.overlay.restyle theme)
  | .setLayer layer => s.enact (s.overlay.setLayer s.editor layer)
  | .subscribe tag => { session := { s with subscribers := s.subscribers ++ [{ tag }] } }

/-- Perform one command after the other, whether they succeed or not. -/
def run (s : Session) (commands : List Command) : Session :=
  commands.foldl (fun s command => (s.perform command).session) s

@[simp] theorem run_nil (s : Session) : s.run [] = s := rfl

@[simp] theorem run_cons (s : Session) (command : Command) (rest : List Command) :
    s.run (command :: rest) = (s.perform command).session.run rest := rfl

theorem run_append (s : Session) (first rest : List Command) :
    s.run (first ++ rest) = (s.run first).run rest :=
  List.foldl_append

/-- An overlay that ends leaves nothing on the screen. -/
def finish (s : Session) : Step := s.perform .clear

/-- Trigger an action of a marker, by the place of the marker in its document. -/
def trigger (s : Session) (document : Path) (index action : Nat) : Session × Option Bool :=
  match (s.overlay.group? document).bind (·.markers[index]?) with
  | none => (s, none)
  | some m =>
    let triggered := m.trigger action s.clipboard
    ({ s with clipboard := triggered.2 }, some triggered.1)

/-- A call to the screen past the overlay. -/
def draw (s : Session) (call : ScreenCall) : Step :=
  let passed := s.pass (.draw call)
  { session := passed.1, notices := passed.2 }

def knows (s : Session) (h : Handle) : Bool := s.issued.contains h

/-- A marker that is alive, for a call that is to bring it to a known handle. -/
def copyTo? (s : Session) (h source : Handle) : Option Marker :=
  if s.knows h && s.knows source then s.screen.marker? source else none

end Session

end Marginalia
