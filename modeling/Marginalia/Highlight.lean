import Marginalia.Layer
import Marginalia.Text.Resolve
import Marginalia.Theme

/-! How a diagnostic looks inside a text: the range that it resolves to, with the underline of its
severity. -/
namespace Marginalia

/-- An underlined range of a buffer, in characters. -/
structure Highlight where
  start : Nat
  stop : Nat
  underline : Underline
  styleId : StyleId
deriving DecidableEq, Repr, Inhabited

/-- The highlight of a diagnostic, unless the text is too short for it. -/
def Diagnostic.highlight? (d : Diagnostic) (text : Text) (theme : Theme) : Option Highlight :=
  (text.resolveSpan d.span).map fun (start, stop) =>
    let underline := Underline.of d.severity
    ⟨start, stop, underline, theme.underline underline⟩

end Marginalia
