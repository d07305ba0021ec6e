import Marginalia.Settings
import Marginalia.Text.Quoted
import Marginalia.Theme

/-! Gutter markers: one line-bound note for a diagnostic, with the actions that it offers. -/
namespace Marginalia

/-- What the user can do with a marker: put a text on the clipboard. -/
inductive Action where
  | copy (text : String)
deriving DecidableEq, Repr, Inhabited

namespace Action

def iconName : Action → String
  | copy _ => "edit-copy"

def tooltip : Action → String
  | copy _ => "Copy to Clipboard"

def text : Action → String
  | copy text => text

/-- For logs and for people who look for a fault. -/
def describe : Action → String
  | copy text => "CopyToClipboard \x7b text: " ++ Text.quoted text ++ ", .. \x7d"

end Action

inductive Priority where
  | normal
  | high
deriving DecidableEq, Repr, Inhabited

structure Marker where
  /-- Lines of a gutter count from one. -/
  line : Nat
  severity : Severity
  tooltip : String
  annotation : Option String
  client : Client
  priority : Priority
  slot : Slot
  color : Color
  icon : Icon
  iconName : String
  actions : List Action
deriving DecidableEq, Repr, Inhabited

namespace Marker

/-- The marker of a diagnostic, without actions. A missing severity counts as a hint, and only errors
are set apart. -/
def ofDiagnostic (d : Diagnostic) (client : Client) (theme : Theme) : Marker :=
  let severity := d.severity.getD .hint
  let slot : Slot := if severity.isError then .error else .warning
  let icon : Icon := if severity.isError then .error else .warning
  { line := d.span.start.line + 1
    severity
    tooltip := d.message
    annotation := some d.message
    client
    priority := if severity.isError then .high else .normal
    slot
    color := theme.color slot
    icon
    iconName := theme.iconName icon
    actions := [] }

def withAction (m : Marker) (a : Action) : Marker := { m with actions := m.actions ++ [a] }

def recolor (m : Marker) (slot : Slot) (theme : Theme) : Marker :=
  { m with slot, color := theme.color slot }

/-- Take colour and icon from another theme, for the same slot and the same kind of icon. -/
def restyle (m : Marker) (theme : Theme) : Marker :=
  { m with color := theme.color m.slot, iconName := theme.iconName m.icon }

/-- Run an action on the clipboard and say whether there is one of that number. -/
def trigger (m : Marker) (index : Nat) (clipboard : Option String) : Bool × Option String :=
  match m.actions[index]? with
  | some a => (true, some a.text)
  | none => (false, clipboard)

end Marker

end Marginalia
