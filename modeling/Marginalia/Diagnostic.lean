import Marginalia.Position

/-! What an analyser reports: issues, each with a span, a severity and a message. -/
namespace Marginalia

inductive Severity where
  | error
  | warning
  | information
  | hint
deriving DecidableEq, Repr, Inhabited

namespace Severity

/-- Position in the order from the most to the least severe. -/
def rank : Severity → Nat
  | error => 0
  | warning => 1
  | information => 2
  | hint => 3

instance : Ord Severity := ⟨compareOn rank⟩

instance : Std.TransOrd Severity := inferInstanceAs (Std.TransCmp (compareOn rank))

def isError (s : Severity) : Bool := s = error

end Severity

/-- One reported issue. A missing severity stays missing: each reader chooses its own default. -/
structure Diagnostic where
  span : Span
  severity : Option Severity
  message : String
deriving DecidableEq, Repr, Inhabited

end Marginalia
