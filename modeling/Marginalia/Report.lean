import Marginalia.Diagnostic
import Marginalia.Path
import Marginalia.Revision
import Marginalia.SortedMap

/-! What an analyser said about its documents. A document has at most one report, the last one, and
an empty report is not the same as none. -/
namespace Marginalia

/-- Diagnostics in the order in which they came. Without a revision they hold for every one. -/
structure Report where
  revision : Option Revision
  diagnostics : List Diagnostic
deriving DecidableEq, Inhabited

namespace Report

def fits (r : Report) (revision : Revision) : Bool :=
  match r.revision with
  | none => true
  | some own => own = revision

/-- Where the revision of the document is not known, only a report without one fits. -/
def fitsLive (r : Report) : Option Revision → Bool
  | some revision => r.fits revision
  | none => r.revision.isNone

end Report

structure Reports where
  byDocument : SortedMap Path Report := {}
deriving Inhabited

namespace Reports

def size (r : Reports) : Nat := r.byDocument.size

def isEmpty (r : Reports) : Bool := r.byDocument.isEmpty

def find? (r : Reports) (document : Path) : Option Report := r.byDocument.find? document

def replace (r : Reports) (document : Path) (report : Report) : Reports :=
  ⟨r.byDocument.insert document report⟩

/-- Replace a report, and give it back. -/
def exchange (r : Reports) (document : Path) (report : Report) : Reports × Option Report :=
  let x := r.byDocument.exchange document report
  (⟨x.1⟩, x.2)

/-- The diagnostics that hold for a document at its live revision. -/
def current? (r : Reports) (document : Path) (live : Option Revision) : Option (List Diagnostic) :=
  ((r.find? document).filter (·.fitsLive live)).map (·.diagnostics)

def documents (r : Reports) : List Path := r.byDocument.keys

theorem find?_replace (r : Reports) (d : Path) (report : Report) (e : Path) :
    (r.replace d report).find? e = if e ≈ d then some report else r.find? e := by
  simp only [find?, replace, SortedMap.find?_insert, Path.compare_eq_iff]

end Reports

end Marginalia
