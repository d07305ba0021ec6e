/-! Revisions, by which a report is matched with the state of its document. They never go down. -/
namespace Marginalia

/-- The count of a document's states. It stops at the greatest one that can be told. -/
structure Revision where
  number : Int
  low : -2147483648 ≤ number
  high : number ≤ 2147483647
deriving DecidableEq

namespace Revision

instance : Inhabited Revision := ⟨⟨0, by decide, by decide⟩⟩

def ofInt? (n : Int) : Option Revision :=
  if h : -2147483648 ≤ n ∧ n ≤ 2147483647 then some ⟨n, h.1, h.2⟩ else none

def next (r : Revision) : Revision where
  number := min (r.number + 1) 2147483647
  low := by have := r.low; omega
  high := by omega

end Revision

end Marginalia
