import Marginalia.Settings

/-! The settings by name, in the order in which they are written. -/
namespace Marginalia.Settings

inductive Field where
  | executable
  | clientName
  | clientId
  | sizeLimited
  | sizeLimitKb
  | layer
deriving DecidableEq, Repr, Inhabited

namespace Field

def all : List Field := [executable, clientName, clientId, sizeLimited, sizeLimitKb, layer]

def name : Field → String
  | executable => "executable"
  | clientName => "clientName"
  | clientId => "clientId"
  | sizeLimited => "sizeThresholdEnabled"
  | sizeLimitKb => "sizeThresholdKb"
  | layer => "decorationLayer"

def ofName? (text : String) : Option Field := all.find? (·.name = text)

@[simp] theorem ofName?_name (f : Field) : ofName? f.name = some f := by
  cases f <;> decide

end Field

end Marginalia.Settings
