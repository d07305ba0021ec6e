import Marginalia.Position
import Marginalia.Text.Line

/-! From positions to character offsets. A position resolves if its line exists and its column is not
beyond the line, whose end is a column of its own. A column inside a surrogate pair stands for the
one before the pair. -/
namespace Marginalia.Text

/-- UTF-16 code units of a character. -/
def units (c : Char) : Nat := if c.toNat < 0x10000 then 1 else 2

/-- UTF-16 code units of characters in a row. -/
def unitCount : List Char → Nat
  | [] => 0
  | c :: cs => units c + unitCount cs

/-- How many characters of a row fit into so many units. -/
def fitting (left : Nat) : List Char → Nat
  | [] => 0
  | c :: cs => if left < units c then 0 else fitting (left - units c) cs + 1

/-- Whether a line ends with a character, by the character behind it. -/
def endsLine (c : Char) (next : Option Char) : Bool := isBreak c && !(c = '\r' && next = some '\n')

/-- Offset of the line that comes after so many breaks, and the text from there. -/
def seekLine (offset : Nat) : Nat → List Char → Option (Nat × List Char)
  | 0, cs => some (offset, cs)
  | _ + 1, [] => none
  | n + 1, c :: cs =>
    if endsLine c cs.head? then seekLine (offset + 1) n cs else seekLine (offset + 1) (n + 1) cs

/-- The first line of a text, with its break. -/
def firstLine : List Char → List Char
  | [] => []
  | c :: cs => if endsLine c cs.head? then [c] else c :: firstLine cs

def resolve (t : Text) (p : Position) : Option Nat :=
  (seekLine 0 p.line t.chars).bind fun (start, cs) =>
    let content := trim (firstLine cs)
    if unitCount content < p.character then none else some (start + fitting p.character content)

/-- Both ends of a span in ascending order, if both resolve. -/
def resolveSpan (t : Text) (s : Span) : Option (Nat × Nat) :=
  (t.resolve s.start).bind fun a => (t.resolve s.stop).map fun b => (min a b, max a b)

end Marginalia.Text
