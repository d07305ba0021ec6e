import Marginalia.Json.Written
import Marginalia.Settings.Field

/-! Settings as a JSON object: every field in its order, with `null` for a missing one. -/
namespace Marginalia.Settings

open Json

def writeField (s : Settings) : Field → List Char
  | .executable => writeOptionalText (s.executable.map Path.spelling)
  | .clientName => writeOptionalText s.clientName
  | .clientId => writeText s.clientId
  | .sizeLimited => writeBoolean s.sizeLimited
  | .sizeLimitKb => writeNatural s.sizeLimitKb.toNat
  | .layer => writeNatural s.layer.number.toNat

def writeJson (s : Settings) : List Char :=
  writeObject (Field.all.map fun f => (f.name, s.writeField f))

/-- All fields in one line. -/
def toJson (s : Settings) : String := String.ofList s.writeJson

end Marginalia.Settings
