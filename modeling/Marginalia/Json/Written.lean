import Marginalia.Json.Lexeme

/-! How JSON values are written: without blanks, and with no escape that is not needed. -/
namespace Marginalia.Json

def escapeCharacter (c : Char) : List Char :=
  match c with
  | '"' => ['\\', '"']
  | '\\' => ['\\', '\\']
  | '\x08' => ['\\', 'b']
  | '\x0c' => ['\\', 'f']
  | '\n' => ['\\', 'n']
  | '\r' => ['\\', 'r']
  | '\t' => ['\\', 't']
  | _ =>
    if c < ' ' then
      ['\\', 'u', '0', '0', Nat.digitChar (c.toNat / 16), Nat.digitChar (c.toNat % 16)]
    else [c]

def writeText (s : String) : List Char := '"' :: s.toList.flatMap escapeCharacter ++ ['"']

def writeOptionalText : Option String → List Char
  | none => ['n', 'u', 'l', 'l']
  | some s => writeText s

def writeBoolean : Bool → List Char
  | true => ['t', 'r', 'u', 'e']
  | false => ['f', 'a', 'l', 's', 'e']

def writeNatural (n : Nat) : List Char := Nat.toDigits 10 n

/-- Members in the order in which they are given. -/
def writeMembers : List (String × List Char) → List Char
  | [] => []
  | [(key, value)] => writeText key ++ ':' :: value
  | (key, value) :: rest => writeText key ++ ':' :: value ++ ',' :: writeMembers rest

def writeObject (members : List (String × List Char)) : List Char :=
  '\x7b' :: writeMembers members ++ ['\x7d']

end Marginalia.Json
