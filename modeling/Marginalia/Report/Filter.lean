import Marginalia.Report

/-! What a host keeps of a report before it is stored. -/
namespace Marginalia

/-- What is kept of the diagnostics that are reported for a document. -/
abbrev Filter := Path → List Diagnostic → List Diagnostic

/-- Choices for a filter: drop severities, turn the order, then cut the end off. -/
structure Selection where
  /-- Other documents keep all. -/
  document : Option Path := none
  dropped : List (Option Severity) := []
  reversed : Bool := false
  limit : Option Nat := none
deriving Inhabited

def Selection.select (s : Selection) (ds : List Diagnostic) : List Diagnostic :=
  let kept := ds.filter (·.severity ∉ s.dropped)
  let turned := if s.reversed then kept.reverse else kept
  match s.limit with
  | some n => turned.take n
  | none => turned

def Selection.filter (s : Selection) : Filter := fun document ds =>
  match s.document with
  | some only => if only ≈ document then s.select ds else ds
  | none => s.select ds

end Marginalia
