import Marginalia.Marker

/-! Which markers a report gets. -/
namespace Marginalia

/-- What is known about a document when its markers are made. -/
structure Setting where
  document : Path
  inProject : Bool
  theme : Theme
deriving Inhabited

/-- The marker of a diagnostic, if it is to have one. -/
abbrev MarkerRule := Setting → Diagnostic → Option Marker

namespace MarkerRule

/-- Every diagnostic has a marker from which its message can be copied. -/
def standard (client : Client) : MarkerRule := fun setting d =>
  some ((Marker.ofDiagnostic d client setting.theme).withAction (.copy d.message))

end MarkerRule

/-- Choices for a rule that leaves some diagnostics without marker. -/
structure MarkerChoice where
  clientName : String
  /-- The spelling of the document, if there is none. -/
  clientId : Option String := none
  projectOnly : Bool := false
  skipped : List (Option Severity) := []
  copies : List String := []
deriving Inhabited

def MarkerChoice.rule (choice : MarkerChoice) : MarkerRule := fun setting d =>
  if choice.projectOnly && !setting.inProject then none
  else if choice.skipped.contains d.severity then none
  else
    let client := ⟨choice.clientName, choice.clientId.getD setting.document.spelling⟩
    some (choice.copies.foldl (fun m text => m.withAction (.copy text))
      (Marker.ofDiagnostic d client setting.theme))

end Marginalia
