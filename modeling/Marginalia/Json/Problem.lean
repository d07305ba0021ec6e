import Marginalia.Binary64.Decimal
import Marginalia.Text.Quoted

/-! What can be wrong with a JSON text: it ends too early, it is not JSON, or it is JSON of the
wrong shape. The first problem in reading order is the one reported. -/
namespace Marginalia.Json

/-- What was being read when the text ended. -/
inductive Unfinished where
  | value
  | list
  | object
  | string
deriving DecidableEq, Repr, Inhabited

inductive Fault where
  | noValue
  | badWord
  | noColon
  | noCommaInObject
  | noCommaInList
  | keyNotString
  | trailingComma
  | trailingCharacters
  | badNumber
  | numberTooLarge
  | badEscape
  | loneSurrogate
  | unpairedEscape
  | controlCharacter
deriving DecidableEq, Repr, Inhabited

/-- A value as far as a complaint about it shows. -/
inductive Found where
  | null
  | boolean (b : Bool)
  | integer (n : Int)
  | float (negative : Bool) (magnitude : Binary64)
  | string (s : String)
  | list
  | object
deriving DecidableEq, Repr, Inhabited

inductive Wanted where
  | settings
  | path
  | string
  | boolean
  | natural64
  | natural32
deriving DecidableEq, Repr, Inhabited

inductive Problem where
  | ended (inside : Unfinished)
  | malformed (fault : Fault)
  | wrongType (found : Found) (wanted : Wanted)
  | outOfRange (n : Int) (wanted : Wanted)
  | duplicate (field : String)
deriving DecidableEq, Repr, Inhabited

inductive Category where
  | eof
  | malformed
  | data
deriving DecidableEq, Repr, Inhabited

def integerText (n : Int) : String :=
  let digits := Nat.toDigits 10 n.natAbs
  String.ofList (if n < 0 then '-' :: digits else digits)

def Unfinished.text : Unfinished → String
  | value => "a value"
  | list => "a list"
  | object => "an object"
  | string => "a string"

def Fault.text : Fault → String
  | noValue => "expected value"
  | badWord => "expected ident"
  | noColon => "expected `:`"
  | noCommaInObject => "expected `,` or `\x7d`"
  | noCommaInList => "expected `,` or `]`"
  | keyNotString => "key must be a string"
  | trailingComma => "trailing comma"
  | trailingCharacters => "trailing characters"
  | badNumber => "invalid number"
  | numberTooLarge => "number out of range"
  | badEscape => "invalid escape"
  | loneSurrogate => "lone leading surrogate in hex escape"
  | unpairedEscape => "unexpected end of hex escape"
  | controlCharacter => "control character (\\u0000-\\u001F) found while parsing a string"

def Found.text : Found → String
  | null => "null"
  | boolean b => "boolean `" ++ (if b then "true" else "false") ++ "`"
  | integer n => "integer `" ++ integerText n ++ "`"
  | float negative magnitude =>
    "floating point `" ++ (if negative then "-" else "") ++ magnitude.toText ++ "`"
  | string s => "string " ++ Text.quoted s
  | list => "sequence"
  | object => "map"

def Wanted.text : Wanted → String
  | settings => "struct OverlayConfig"
  | path => "path string"
  | string => "a string"
  | boolean => "a boolean"
  | natural64 => "u64"
  | natural32 => "u32"

namespace Problem

def category : Problem → Category
  | ended _ => .eof
  | malformed _ => .malformed
  | wrongType _ _ => .data
  | outOfRange _ _ => .data
  | duplicate _ => .data

def message : Problem → String
  | ended inside => "EOF while parsing " ++ inside.text
  | malformed fault => fault.text
  | wrongType found wanted => "invalid type: " ++ found.text ++ ", expected " ++ wanted.text
  | outOfRange n wanted =>
    "invalid value: " ++ (Found.integer n).text ++ ", expected " ++ wanted.text
  | duplicate field => "duplicate field `" ++ field ++ "`"

end Problem

end Marginalia.Json
