import Marginalia.Json.Skip

/-! The texts that are JSON values, told without a reader. A value and the items of a container are
one relation on texts, because each stands inside the other (`Phrase`); what its strings and numbers
mean is left open, so that a string nobody looks at may hold half of a surrogate pair. -/
namespace Marginalia.Json

def Blanks (cs : List Char) : Prop := ∀ c ∈ cs, isBlank c = true

instance (cs : List Char) : Decidable (Blanks cs) :=
  decidable_of_iff (cs.all isBlank = true) List.all_eq_true

/-- Four hexadecimal digits, in either case. -/
inductive Hex : Nat → List Char → Prop
  | digits {a b c d : Char} {i j k l : Nat} (ha : hexValue? a = some i) (hb : hexValue? b = some j)
      (hc : hexValue? c = some k) (hd : hexValue? d = some l) :
      Hex (((i * 16 + j) * 16 + k) * 16 + l) [a, b, c, d]

/-- A character that needs no escape. -/
def Plain (c : Char) : Prop := c ≠ '"' ∧ c ≠ '\\' ∧ ¬c < ' '

instance (c : Char) : Decidable (Plain c) :=
  inferInstanceAs (Decidable (c ≠ '"' ∧ c ≠ '\\' ∧ ¬c < ' '))

/-- The ways to spell a character in a string. One beyond U+FFFF takes a surrogate pair. -/
inductive Spells (c : Char) : List Char → Prop
  | plain (h : Plain c) : Spells c [c]
  | short {e : Char} (h : shortEscape? e = some c) : Spells c ['\\', e]
  | unit {cs : List Char} (h : Hex c.toNat cs) : Spells c ('\\' :: 'u' :: cs)
  | pair {high low : Nat} {cs ds : List Char} (hhigh : isHighSurrogate high = true)
      (hlow : isLowSurrogate low = true) (hcs : Hex high cs) (hds : Hex low ds)
      (h : c.toNat = 0x10000 + (high - 0xD800) * 0x400 + (low - 0xDC00)) :
      Spells c ('\\' :: 'u' :: (cs ++ '\\' :: 'u' :: ds))

/-- What stands between the quotes of a string that is `text`. -/
inductive Spelling : List Char → List Char → Prop
  | nil : Spelling [] []
  | cons {c : Char} {cs text ds : List Char} (hc : Spells c cs) (h : Spelling text ds) :
      Spelling (c :: text) (cs ++ ds)

def Unescaped (text : List Char) : Prop := ∀ c ∈ text, Plain c

instance (text : List Char) : Decidable (Unescaped text) :=
  decidable_of_iff (text.all (Plain ·) = true) (by simp [Unescaped])

theorem Unescaped.spelling {text : List Char} (h : Unescaped text) : Spelling text text := by
  induction text with
  | nil => exact .nil
  | cons c text ih =>
    obtain ⟨hc, htext⟩ := List.forall_mem_cons.mp h
    exact .cons (.plain hc) (ih htext)

theorem Spelling.append {text other cs ds : List Char} (h : Spelling text cs)
    (hother : Spelling other ds) : Spelling (text ++ other) (cs ++ ds) := by
  induction h with
  | nil => exact hother
  | cons hc _ ih =>
    rw [List.cons_append, List.append_assoc]
    exact .cons hc ih

/-- What may stand between the quotes of a string: any unit may be escaped. -/
inductive Inside : List Char → Prop
  | nil : Inside []
  | plain {c : Char} {cs : List Char} (hc : Plain c) (h : Inside cs) : Inside (c :: cs)
  | short {e c : Char} {cs : List Char} (he : shortEscape? e = some c) (h : Inside cs) :
      Inside ('\\' :: e :: cs)
  | unit {n : Nat} {cs ds : List Char} (hcs : Hex n cs) (h : Inside ds) :
      Inside ('\\' :: 'u' :: (cs ++ ds))

def Digits (cs : List Char) : Prop := cs ≠ [] ∧ ∀ c ∈ cs, isDigit c = true

instance (cs : List Char) : Decidable (Digits cs) :=
  decidable_of_iff (cs ≠ [] ∧ cs.all isDigit = true) (and_congr_right' List.all_eq_true)

/-- Only the number zero starts with a zero. -/
inductive Whole : List Char → Prop
  | zero : Whole ['0']
  | digits {d : Char} {ds : List Char} (hzero : d ≠ '0') (h : Digits (d :: ds)) : Whole (d :: ds)

inductive Fraction : List Char → Prop
  | none : Fraction []
  | digits {ds : List Char} (h : Digits ds) : Fraction ('.' :: ds)

inductive Exponent : List Char → Prop
  | none : Exponent []
  | digits {e : Char} {sign ds : List Char} (he : e = 'e' ∨ e = 'E')
      (hsign : sign = [] ∨ sign = ['+'] ∨ sign = ['-']) (h : Digits ds) :
      Exponent (e :: (sign ++ ds))

inductive Numeral : List Char → Prop
  | mk {sign whole fraction exponent : List Char} (hsign : sign = [] ∨ sign = ['-'])
      (hwhole : Whole whole) (hfraction : Fraction fraction) (hexponent : Exponent exponent) :
      Numeral (sign ++ (whole ++ (fraction ++ exponent)))

inductive Scalar : List Char → Prop
  | null : Scalar ['n', 'u', 'l', 'l']
  | true : Scalar ['t', 'r', 'u', 'e']
  | false : Scalar ['f', 'a', 'l', 's', 'e']
  | string {cs : List Char} (h : Inside cs) : Scalar ('"' :: (cs ++ ['"']))
  | number {cs : List Char} (h : Numeral cs) : Scalar cs

def Container.opening : Container → Char
  | list => '['
  | object => '\x7b'

/-- What stands in front of a value in a container: in an object, a key and a colon. -/
inductive Key : Container → List Char → Prop
  | list : Key .list []
  | object {name blanks : List Char} (hname : Inside name) (hblanks : Blanks blanks) :
      Key .object ('"' :: (name ++ '"' :: (blanks ++ [':'])))

inductive Shape where
  | value
  | items (container : Container)

/-- A value without the blanks around it, or the items of a container with theirs. -/
inductive Phrase : Shape → List Char → Prop
  | scalar {cs : List Char} (h : Scalar cs) : Phrase .value cs
  | empty {cs : List Char} (container : Container) (h : Blanks cs) :
      Phrase .value (container.opening :: (cs ++ [container.closing]))
  | full {cs : List Char} {container : Container} (h : Phrase (.items container) cs) :
      Phrase .value (container.opening :: (cs ++ [container.closing]))
  | last {container : Container} {front key middle cs back : List Char} (hfront : Blanks front)
      (hkey : Key container key) (hmiddle : Blanks middle) (h : Phrase .value cs)
      (hback : Blanks back) :
      Phrase (.items container) (front ++ (key ++ (middle ++ (cs ++ back))))
  | more {container : Container} {front key middle cs back ds : List Char} (hfront : Blanks front)
      (hkey : Key container key) (hmiddle : Blanks middle) (h : Phrase .value cs)
      (hback : Blanks back) (hds : Phrase (.items container) ds) :
      Phrase (.items container) (front ++ (key ++ (middle ++ (cs ++ (back ++ ',' :: ds)))))

/-- Items between commas. -/
inductive Separated {α : Type} (P : α → List Char → Prop) : List α → List Char → Prop
  | last {a : α} {cs : List Char} (h : P a cs) : Separated P [a] cs
  | more {a : α} {as : List α} {cs ds : List Char} (h : P a cs) (hds : Separated P as ds) :
      Separated P (a :: as) (cs ++ ',' :: ds)

/-- A container with blanks around it, which holds just these items. -/
inductive Enclosed {α : Type} (container : Container) (P : α → List Char → Prop) :
    List α → List Char → Prop
  | empty {front cs back : List Char} (hfront : Blanks front) (h : Blanks cs)
      (hback : Blanks back) :
      Enclosed container P [] (front ++ container.opening :: (cs ++ container.closing :: back))
  | full {as : List α} {front cs back : List Char} (hfront : Blanks front) (h : Separated P as cs)
      (hback : Blanks back) :
      Enclosed container P as (front ++ container.opening :: (cs ++ container.closing :: back))

end Marginalia.Json
