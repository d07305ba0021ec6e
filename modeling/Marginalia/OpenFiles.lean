import Marginalia.Path
import Marginalia.Revision
import Marginalia.SortedMap
import Marginalia.Text

/-! The documents that are open, with their texts. Every edit raises the revision of its document,
and an operation that fails changes nothing. -/
namespace Marginalia

structure OpenFile where
  text : Text
  revision : Revision
  inProject : Bool := true
deriving DecidableEq, Inhabited

structure OpenFiles where
  byDocument : SortedMap Path OpenFile := {}
deriving Inhabited

namespace OpenFiles

inductive Problem where
  | alreadyOpen (document : Path)
  | notOpen (document : Path)
deriving DecidableEq, Repr, Inhabited

def Problem.message : Problem → String
  | alreadyOpen document => "document already open: " ++ document.spelling
  | notOpen document => "document not open: " ++ document.spelling

def size (f : OpenFiles) : Nat := f.byDocument.size

def isEmpty (f : OpenFiles) : Bool := f.byDocument.isEmpty

def find? (f : OpenFiles) (document : Path) : Option OpenFile := f.byDocument.find? document

def isOpen (f : OpenFiles) (document : Path) : Bool := f.byDocument.contains document

def openFile (f : OpenFiles) (document : Path) (text : Text) (revision : Revision) :
    Except Problem OpenFiles :=
  match f.find? document with
  | some _ => .error (.alreadyOpen document)
  | none => .ok ⟨f.byDocument.insert document { text, revision }⟩

/-- Use the file of a document, which has to be open. -/
def withFile {α : Type} (f : OpenFiles) (document : Path) (use : OpenFile → α) : Except Problem α :=
  match f.find? document with
  | some file => .ok (use file)
  | none => .error (.notOpen document)

def close (f : OpenFiles) (document : Path) : Except Problem OpenFiles :=
  f.withFile document fun _ => ⟨f.byDocument.erase document⟩

def setInProject (f : OpenFiles) (document : Path) (inProject : Bool) : Except Problem OpenFiles :=
  f.withFile document fun file => ⟨f.byDocument.insert document { file with inProject }⟩

/-- Change a text, and give the revision after the change. -/
def edit (f : OpenFiles) (document : Path) (change : Text → Text) :
    Except Problem (OpenFiles × Revision) :=
  f.withFile document fun file =>
    let revision := file.revision.next
    (⟨f.byDocument.insert document { file with text := change file.text, revision }⟩, revision)

def insert (f : OpenFiles) (document : Path) (offset : Nat) (new : Text) :
    Except Problem (OpenFiles × Revision) :=
  f.edit document (·.insert offset new)

def delete (f : OpenFiles) (document : Path) (start count : Nat) :
    Except Problem (OpenFiles × Revision) :=
  f.edit document (·.delete start count)

def setText (f : OpenFiles) (document : Path) (text : Text) :
    Except Problem (OpenFiles × Revision) :=
  f.edit document fun _ => text

def text? (f : OpenFiles) (document : Path) : Option Text := (f.find? document).map (·.text)

def revision? (f : OpenFiles) (document : Path) : Option Revision :=
  (f.find? document).map (·.revision)

/-- A document that is not open is in no project. -/
def inProject (f : OpenFiles) (document : Path) : Bool :=
  match f.find? document with
  | some file => file.inProject
  | none => false

end OpenFiles

end Marginalia
