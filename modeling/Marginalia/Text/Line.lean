import Marginalia.Text

/-! The lines of a text. Seven characters break a line, and a carriage return with the line feed
behind it is one break. There is a line behind the last break, also when it is empty, so a text
always has a line. -/
namespace Marginalia.Text

def isBreak (c : Char) : Bool :=
  c = '\n' || c = '\r' || c = '\x0b' || c = '\x0c' || c = '\u0085' || c = '\u2028' || c = '\u2029'

/-- The last line of a text has no break. -/
structure Line where
  content : List Char
  ending : List Char
deriving DecidableEq, Repr, Inhabited

def Line.chars (l : Line) : List Char := l.content ++ l.ending

def Line.size (l : Line) : Nat := l.content.length + l.ending.length

/-- Put a character in front of the first line. -/
def cutLine (c : Char) : List Line → List Line
  | [] => []
  | l :: rest =>
    if !isBreak c then ⟨c :: l.content, l.ending⟩ :: rest
    else if c = '\r' ∧ l = ⟨[], ['\n']⟩ then ⟨[], ['\r', '\n']⟩ :: rest
    else ⟨[], [c]⟩ :: l :: rest

def lines (t : Text) : List Line := t.chars.foldr cutLine [⟨[], []⟩]

def lineCount (t : Text) : Nat := t.lines.length

/-- How many characters of a line come before its break. -/
def contentSize (cs : List Char) : Nat :=
  match cs.getLast? with
  | none => 0
  | some last =>
    if last = '\n' ∧ cs.dropLast.getLast? = some '\r' then cs.length - 2
    else if isBreak last then cs.length - 1
    else cs.length

/-- Take the break from the end of a line. -/
def trim (cs : List Char) : List Char := cs.take (contentSize cs)

/-- A line without its break. -/
def line? (t : Text) (i : Nat) : Option String :=
  t.lines[i]?.map fun l => String.ofList (trim l.chars)

end Marginalia.Text
