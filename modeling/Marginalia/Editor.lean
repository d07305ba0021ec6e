import Marginalia.OpenFiles

/-! The editor as the overlay sees it: the buffer, the revision and the project of a document, and no
more. -/
namespace Marginalia

structure Editor where
  buffer : Path → Option Text
  revision : Path → Option Revision
  inProject : Path → Bool
deriving Inhabited

/-- An editor that shows every open file. -/
def OpenFiles.editor (f : OpenFiles) : Editor := ⟨f.text?, f.revision?, f.inProject⟩

/-- How the view of an editor can differ from its files. -/
structure Masks where
  hidden : SortedMap Path Unit := {}
  /-- Revisions told in place of the true ones, `none` for one that is not known. -/
  revisions : SortedMap Path (Option Revision) := {}
  /-- Whether projects are told apart. -/
  projects : Bool := true
deriving Inhabited

namespace Masks

def hide (m : Masks) (document : Path) (on : Bool) : Masks :=
  { m with hidden := if on then m.hidden.insert document () else m.hidden.erase document }

def pretend (m : Masks) (document : Path) (on : Bool) (revision : Option Revision) : Masks :=
  { m with revisions :=
      if on then m.revisions.insert document revision else m.revisions.erase document }

def apply (m : Masks) (e : Editor) : Editor where
  buffer document := if m.hidden.contains document then none else e.buffer document
  revision document := (m.revisions.find? document).getD (e.revision document)
  inProject document := if m.projects then e.inProject document else true

end Masks

end Marginalia
