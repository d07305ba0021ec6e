import Marginalia.Layer
import Marginalia.Path

/-! What the overlay takes from its host's settings. -/
namespace Marginalia

/-- The program that reported a diagnostic, by name and by stable id. -/
structure Client where
  name : String
  id : String
deriving DecidableEq, Repr, Inhabited

structure Settings where
  executable : Option Path := none
  clientName : Option String := none
  clientId : String := "language-client"
  /-- Whether documents above the limit stay without rendering. -/
  sizeLimited : Bool := true
  sizeLimitKb : UInt64 := 1024
  layer : Layer := .codeWarnings
deriving DecidableEq, Repr, Inhabited

namespace Settings

def fallbackName : String := "Language Server"

/-- The configured name, unless it is empty; else the stem of the executable. -/
def displayName (s : Settings) : String :=
  match s.clientName with
  | some name => if name.isEmpty then ofExecutable else name
  | none => ofExecutable
where
  ofExecutable : String := (s.executable.bind Path.stem?).getD fallbackName

def client (s : Settings) : Client := ⟨s.displayName, s.clientId⟩

/-- The limit in bytes, at most the greatest 64-bit count. -/
def byteLimit (s : Settings) : Nat := min (s.sizeLimitKb.toNat * 1024) (UInt64.size - 1)

def allowsSize (s : Settings) (bytes : Nat) : Bool :=
  !s.sizeLimited || bytes ≤ s.byteLimit

/-- A limit of nothing would keep every document without rendering. -/
def isValid (s : Settings) : Bool := !(s.sizeLimited && s.sizeLimitKb == 0)

end Settings

end Marginalia
