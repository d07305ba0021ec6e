import Marginalia.Json.Problem
import Marginalia.Layer
import Marginalia.Path
import Marginalia.Revision

/-! What the overlay tells about its work. -/
namespace Marginalia

inductive LogRecord where
  | stored (document : Path) (revision : Option Revision) (count : Nat)
  | unresolved (document : Path) (line : Nat)
  | stale (document : Path) (stored : Option Revision) (revision : Revision)
  | oversized (document : Path) (bytes : Nat)
  | layerChanged (old new : Layer)
  | leftovers (documents : Nat)
deriving DecidableEq

namespace LogRecord

inductive Level where
  | debug
  | warning
  | error
deriving DecidableEq, Repr

inductive Value where
  | number (n : Int)
  | text (s : String)
deriving DecidableEq, Repr

def level : LogRecord → Level
  | layerChanged _ _ => .warning
  | leftovers _ => .error
  | _ => .debug

def message : LogRecord → String
  | stored _ _ _ => "storing diagnostics"
  | unresolved _ _ => "diagnostic range does not resolve; skipping highlight"
  | stale _ _ _ => "diagnostics are stale; not rendering"
  | oversized _ _ => "document exceeds size threshold; not rendering diagnostics"
  | layerChanged _ _ => "decoration layer changed after diagnostics were stored"
  | leftovers _ => "markers left after clearing diagnostics; discarding"

/-- The text of a revision that may be missing. -/
def revisionText : Option Revision → String
  | none => "None"
  | some r => "Some(" ++ Json.integerText r.number ++ ")"

def fields : LogRecord → List (String × Value)
  | .stored document revision count =>
    [("document", .text document.spelling), ("revision", .text (revisionText revision)),
      ("count", .number count)]
  | .unresolved document line => [("document", .text document.spelling), ("line", .number line)]
  | .stale document own revision =>
    [("document", .text document.spelling), ("stored", .text (revisionText own)),
      ("revision", .number revision.number)]
  | .oversized document bytes => [("document", .text document.spelling), ("bytes", .number bytes)]
  | .layerChanged old new =>
    [("old", .number old.number.toNat), ("new", .number new.number.toNat)]
  | .leftovers documents => [("documents", .number documents)]

end LogRecord

end Marginalia
