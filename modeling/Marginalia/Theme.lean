import Marginalia.Diagnostic

/-! What a diagnostic is to look like. The overlay chooses the treatment: an underline, a colour slot
and an icon. A theme says what the host makes of it. -/
namespace Marginalia

/-- Red, green, blue and opacity, a byte each, from the highest down. -/
structure Color where
  packed : UInt32
deriving DecidableEq, Repr, Inhabited

def Color.rgb (red green blue : UInt8) : Color :=
  ⟨red.toUInt32 <<< 24 ||| green.toUInt32 <<< 16 ||| blue.toUInt32 <<< 8 ||| 0xFF⟩

inductive Underline where
  | error
  | warning
deriving DecidableEq, Repr, Inhabited

/-- Only errors are set apart; a missing severity counts as a warning. -/
def Underline.of : Option Severity → Underline
  | some .error => error
  | _ => warning

inductive Slot where
  | error
  | warning
  | disabled
deriving DecidableEq, Repr, Inhabited

inductive Icon where
  | error
  | warning
deriving DecidableEq, Repr, Inhabited

abbrev StyleId := UInt32

structure Theme where
  underline : Underline → StyleId
  color : Slot → Color
  iconName : Icon → String
deriving Inhabited

namespace Theme

/-- A theme from its values: underlines, colours and icons of errors, of all else, and the colour of
what is disabled. -/
def ofValues (errorLine warningLine : StyleId) (errorColor warningColor disabledColor : Color)
    (errorIcon warningIcon : String) : Theme where
  underline
    | .error => errorLine
    | .warning => warningLine
  color
    | .error => errorColor
    | .warning => warningColor
    | .disabled => disabledColor
  iconName
    | .error => errorIcon
    | .warning => warningIcon

def standard : Theme :=
  ofValues 0x04000001 0x04000002 (.rgb 0xE0 0x3C 0x3C) (.rgb 0xD9 0xA0 0x2A) (.rgb 0x80 0x80 0x80)
    "codemodel-error" "codemodel-warning"

end Theme

end Marginalia
