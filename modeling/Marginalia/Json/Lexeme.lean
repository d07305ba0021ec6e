import Marginalia.Json.Problem

/-! The parts of JSON that have no parts of their own: blanks, words and strings. A reader takes the
text from where it stands and gives what it read with the rest, which is shorter. In a string a
character below U+0020 must be escaped, and four hexadecimal digits are a UTF-16 unit, so that a
character beyond U+FFFF takes two escapes. -/
namespace Marginalia.Json

abbrev Read (α : Type) := Except Problem (α × List Char)

/-- Change what was read and keep the rest. -/
def Read.map {α β : Type} (f : α → β) : Read α → Read β
  | .error p => .error p
  | .ok (a, rest) => .ok (f a, rest)

theorem Read.map_eq_ok {α β : Type} {f : α → β} {r : Read α} {b : β} {rest : List Char}
    (h : Read.map f r = .ok (b, rest)) : ∃ a, r = .ok (a, rest) ∧ f a = b := by
  cases r with
  | error p => cases h
  | ok x =>
    cases h
    exact ⟨x.1, rfl, rfl⟩

def isBlank (c : Char) : Bool := c = ' ' || c = '\t' || c = '\n' || c = '\r'

def skipBlank (cs : List Char) : List Char := cs.dropWhile isBlank

theorem length_skipBlank_le (cs : List Char) : (skipBlank cs).length ≤ cs.length :=
  (List.dropWhile_sublist _).length_le

theorem length_of_skipBlank {cs rest : List Char} {c : Char} (h : skipBlank cs = c :: rest) :
    rest.length < cs.length := by
  have := length_skipBlank_le cs
  rwa [h] at this

/-- The letters of a word after its first. -/
def readWord : List Char → List Char → Except Problem (List Char)
  | [], cs => .ok cs
  | _ :: _, [] => .error (.ended .value)
  | w :: ws, c :: cs => if c = w then readWord ws cs else .error (.malformed .badWord)

theorem length_readWord {ws cs rest : List Char} (h : readWord ws cs = .ok rest) :
    rest.length ≤ cs.length := by
  induction ws generalizing cs with
  | nil =>
    cases h
    exact Nat.le_refl _
  | cons w ws ih =>
    cases cs with
    | nil => cases h
    | cons c cs =>
      simp only [readWord] at h
      split at h
      · exact Nat.le_succ_of_le (ih h)
      · cases h

def hexValue? (c : Char) : Option Nat :=
  if '0' ≤ c ∧ c ≤ '9' then some (c.toNat - '0'.toNat)
  else if 'a' ≤ c ∧ c ≤ 'f' then some (c.toNat - 'a'.toNat + 10)
  else if 'A' ≤ c ∧ c ≤ 'F' then some (c.toNat - 'A'.toNat + 10)
  else none

/-- Four digits. The text has ended if less than four bytes are left, whatever they hold. -/
def readUnit : List Char → Read Nat
  | a :: b :: c :: d :: rest =>
    match hexValue? a, hexValue? b, hexValue? c, hexValue? d with
    | some a, some b, some c, some d => .ok (((a * 16 + b) * 16 + c) * 16 + d, rest)
    | _, _, _, _ => .error (.malformed .badEscape)
  | cs =>
    if cs.foldl (fun n c => n + c.utf8Size) 0 < 4 then .error (.ended .string)
    else .error (.malformed .badEscape)

theorem length_readUnit {cs rest : List Char} {n : Nat} (h : readUnit cs = .ok (n, rest)) :
    rest.length < cs.length := by
  unfold readUnit at h
  split at h
  · split at h
    · cases h
      simp only [List.length_cons]
      omega
    · cases h
  · split at h <;> cases h

def isHighSurrogate (n : Nat) : Bool := 0xD800 ≤ n && n < 0xDC00

def isLowSurrogate (n : Nat) : Bool := 0xDC00 ≤ n && n < 0xE000

/-- The second half of a pair. -/
def readLowSurrogate (high : Nat) : List Char → Read Char
  | [] => .error (.ended .string)
  | ['\\'] => .error (.ended .string)
  | '\\' :: 'u' :: cs =>
    match readUnit cs with
    | .error p => .error p
    | .ok (low, rest) =>
      if isLowSurrogate low then
        .ok (Char.ofNat (0x10000 + (high - 0xD800) * 0x400 + (low - 0xDC00)), rest)
      else .error (.malformed .loneSurrogate)
  | _ => .error (.malformed .unpairedEscape)

theorem length_readLowSurrogate {high : Nat} {cs rest : List Char} {c : Char}
    (h : readLowSurrogate high cs = .ok (c, rest)) : rest.length < cs.length := by
  unfold readLowSurrogate at h
  split at h
  · cases h
  · cases h
  · split at h
    · cases h
    · rename_i hu
      have := length_readUnit hu
      split at h
      · obtain ⟨_, rfl⟩ := Prod.mk.inj (Except.ok.inj h)
        simp only [List.length_cons]
        omega
      · cases h
  · cases h

def shortEscape? : Char → Option Char
  | '"' => some '"'
  | '\\' => some '\\'
  | '/' => some '/'
  | 'b' => some '\x08'
  | 'f' => some '\x0c'
  | 'n' => some '\n'
  | 'r' => some '\r'
  | 't' => some '\t'
  | _ => none

/-- What follows a backslash. Without `paired`, half of a pair is let pass. -/
def readEscape (paired : Bool) : List Char → Read Char
  | [] => .error (.ended .string)
  | 'u' :: cs =>
    match readUnit cs with
    | .error p => .error p
    | .ok (n, rest) =>
      if paired && isLowSurrogate n then .error (.malformed .loneSurrogate)
      else if paired && isHighSurrogate n then readLowSurrogate n rest
      else .ok (Char.ofNat n, rest)
  | c :: cs =>
    match shortEscape? c with
    | some e => .ok (e, cs)
    | none => .error (.malformed .badEscape)

theorem length_readEscape {paired : Bool} {cs rest : List Char} {c : Char}
    (h : readEscape paired cs = .ok (c, rest)) : rest.length < cs.length := by
  unfold readEscape at h
  split at h
  · cases h
  · split at h
    · cases h
    · rename_i hu
      have := length_readUnit hu
      split at h
      · cases h
      · split at h
        · have := length_readLowSurrogate h
          simp only [List.length_cons]
          omega
        · cases h
          simp only [List.length_cons]
          omega
  · split at h
    · cases h
      simp
    · cases h

/-- The characters up to the closing quote, put before `done`, which is in reverse. -/
def readCharacters (paired : Bool) (done : List Char) : List Char → Read (List Char)
  | [] => .error (.ended .string)
  | c :: cs =>
    if c = '"' then .ok (done.reverse, cs)
    else if c = '\\' then
      match _h : readEscape paired cs with
      | .error p => .error p
      | .ok (e, rest) => readCharacters paired (e :: done) rest
    else if c < ' ' then .error (.malformed .controlCharacter)
    else readCharacters paired (c :: done) cs
termination_by cs => cs.length
decreasing_by
  · have := length_readEscape ‹_›
    simp only [List.length_cons]
    omega
  · simp

theorem length_readCharacters {paired : Bool} {done cs s rest : List Char}
    (h : readCharacters paired done cs = .ok (s, rest)) : rest.length < cs.length := by
  fun_induction readCharacters paired done cs with
  | case1 => cases h
  | case2 =>
    cases h
    simp
  | case3 => cases h
  | case4 _ _ _ _ he _ ih =>
    have := length_readEscape he
    have := ih h
    simp only [List.length_cons]
    omega
  | case5 => cases h
  | case6 _ _ _ _ _ _ ih => exact Nat.lt_succ_of_lt (ih h)

/-- A string whose opening quote has been read. -/
def readString (cs : List Char) : Read String :=
  match readCharacters true [] cs with
  | .error p => .error p
  | .ok (s, rest) => .ok (String.ofList s, rest)

theorem length_readString {cs rest : List Char} {s : String} (h : readString cs = .ok (s, rest)) :
    rest.length < cs.length := by
  unfold readString at h
  split at h
  · cases h
  · rename_i hc
    cases h
    exact length_readCharacters hc

/-- Pass over a string whose opening quote has been read. -/
def skipString (cs : List Char) : Except Problem (List Char) :=
  match readCharacters false [] cs with
  | .error p => .error p
  | .ok (_, rest) => .ok rest

theorem length_skipString {cs rest : List Char} (h : skipString cs = .ok rest) :
    rest.length < cs.length := by
  unfold skipString at h
  split at h
  · cases h
  · rename_i hc
    cases h
    exact length_readCharacters hc

end Marginalia.Json
