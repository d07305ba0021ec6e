import Marginalia.Json.Lexeme

/-! Numbers. A number without fraction and exponent is an integer if it is from `-2 ^ 63` to
`2 ^ 64 - 1` and not `-0`; every other number is a float. The significand of a float takes digits as
long as it stays below `2 ^ 64`; a later digit before the point only shifts it, and a later digit
after the point is dropped. Passing over a number only looks at its form. -/
namespace Marginalia.Json

inductive Number where
  | integer (n : Int)
  | float (negative : Bool) (magnitude : Binary64)
deriving DecidableEq, Repr, Inhabited

def Number.found : Number → Found
  | integer n => .integer n
  | float negative magnitude => .float negative magnitude

def isDigit (c : Char) : Bool := '0' ≤ c && c ≤ '9'

def digitValue (c : Char) : Nat := c.toNat - '0'.toNat

def skipDigits (cs : List Char) : List Char := cs.dropWhile isDigit

theorem length_skipDigits_le (cs : List Char) : (skipDigits cs).length ≤ cs.length :=
  (List.dropWhile_sublist _).length_le

/-- Append digits to a significand while it stays below `2 ^ 64`. -/
def takeDigits (significand : Nat) : List Char → Nat × List Char
  | [] => (significand, [])
  | c :: cs =>
    if isDigit c && significand * 10 + digitValue c < UInt64.size then
      takeDigits (significand * 10 + digitValue c) cs
    else (significand, c :: cs)

theorem length_takeDigits_le (significand : Nat) (cs : List Char) :
    (takeDigits significand cs).2.length ≤ cs.length := by
  induction cs generalizing significand with
  | nil => exact Nat.le_refl _
  | cons c cs ih =>
    unfold takeDigits
    split
    · exact Nat.le_succ_of_le (ih _)
    · exact Nat.le_refl _

def readFloat (negative : Bool) (significand : Nat) (places : Int) (rest : List Char) :
    Read Number :=
  match (Binary64.nearest? significand 1).bind (Binary64.scale? · places) with
  | some x => .ok (.float negative x, rest)
  | none => .error (.malformed .numberTooLarge)

theorem readFloat_rest {negative : Bool} {significand : Nat} {places : Int}
    {cs rest : List Char} {n : Number}
    (h : readFloat negative significand places cs = .ok (n, rest)) : rest = cs := by
  unfold readFloat at h
  split at h
  · exact (Prod.mk.inj (Except.ok.inj h)).2.symm
  · cases h

/-- The digits of an exponent. One above `2 ^ 31 - 1` is too large for any number but zero. -/
def readExponentDigits (negative : Bool) (significand : Nat) (places : Int) (down : Bool)
    (cs : List Char) : Read Number :=
  match cs with
  | [] => .error (.ended .value)
  | c :: _ =>
    if isDigit c then
      let exponent := (cs.takeWhile isDigit).foldl (fun n c => n * 10 + digitValue c) 0
      let rest := skipDigits cs
      if exponent < Nat.pow 2 31 then
        readFloat negative significand (if down then places - exponent else places + exponent) rest
      else if significand ≠ 0 ∧ !down then .error (.malformed .numberTooLarge)
      else .ok (.float negative .zero, rest)
    else .error (.malformed .badNumber)

theorem length_readExponentDigits {negative : Bool} {significand : Nat} {places : Int}
    {down : Bool} {cs rest : List Char} {n : Number}
    (h : readExponentDigits negative significand places down cs = .ok (n, rest)) :
    rest.length ≤ cs.length := by
  unfold readExponentDigits at h
  split at h
  · cases h
  · split at h
    · dsimp only at h
      split at h
      · rw [readFloat_rest h]
        exact length_skipDigits_le _
      · split at h
        · cases h
        · rw [← (Prod.mk.inj (Except.ok.inj h)).2]
          exact length_skipDigits_le _
    · cases h

/-- The sign of an exponent, if there is one: whether it is a minus. -/
def readSign : List Char → Bool × List Char
  | '+' :: cs => (false, cs)
  | '-' :: cs => (true, cs)
  | cs => (false, cs)

theorem length_readSign_le (cs : List Char) : (readSign cs).2.length ≤ cs.length := by
  unfold readSign
  split
  · exact Nat.le_succ _
  · exact Nat.le_succ _
  · exact Nat.le_refl _

/-- What follows the `e` of an exponent. -/
def readExponent (negative : Bool) (significand : Nat) (places : Int) (cs : List Char) :
    Read Number :=
  let signed := readSign cs
  readExponentDigits negative significand places signed.1 signed.2

theorem length_readExponent {negative : Bool} {significand : Nat} {places : Int}
    {cs rest : List Char} {n : Number}
    (h : readExponent negative significand places cs = .ok (n, rest)) :
    rest.length ≤ cs.length :=
  Nat.le_trans (length_readExponentDigits h) (length_readSign_le cs)

/-- What follows the digits of a number that is a float. -/
def readFloatEnd (negative : Bool) (significand : Nat) (places : Int) : List Char → Read Number
  | 'e' :: cs => readExponent negative significand places cs
  | 'E' :: cs => readExponent negative significand places cs
  | cs => readFloat negative significand places cs

theorem length_readFloatEnd {negative : Bool} {significand : Nat} {places : Int}
    {cs rest : List Char} {n : Number}
    (h : readFloatEnd negative significand places cs = .ok (n, rest)) :
    rest.length ≤ cs.length := by
  unfold readFloatEnd at h
  split at h
  · exact Nat.le_succ_of_le (length_readExponent h)
  · exact Nat.le_succ_of_le (length_readExponent h)
  · exact Nat.le_of_eq (congrArg List.length (readFloat_rest h))

/-- What follows the point: at least one digit. -/
def readFraction (negative : Bool) (significand : Nat) (places : Int) (cs : List Char) :
    Read Number :=
  match cs with
  | [] => .error (.ended .value)
  | c :: _ =>
    if isDigit c then
      let taken := takeDigits significand cs
      readFloatEnd negative taken.1 (places - (cs.length - taken.2.length : Nat))
        (skipDigits taken.2)
    else .error (.malformed .badNumber)

theorem length_readFraction {negative : Bool} {significand : Nat} {places : Int}
    {cs rest : List Char} {n : Number}
    (h : readFraction negative significand places cs = .ok (n, rest)) :
    rest.length ≤ cs.length := by
  unfold readFraction at h
  split at h
  · cases h
  · split at h
    · exact Nat.le_trans (length_readFloatEnd h)
        (Nat.le_trans (length_skipDigits_le _) (length_takeDigits_le _ _))
    · cases h

/-- What follows the whole part, which left `places` digits out of the significand. -/
def readNumberEnd (negative : Bool) (significand places : Nat) (cs : List Char) : Read Number :=
  match cs with
  | '.' :: rest => readFraction negative significand places rest
  | 'e' :: rest => readExponent negative significand places rest
  | 'E' :: rest => readExponent negative significand places rest
  | _ =>
    if places ≠ 0 then readFloat negative significand places cs
    else if !negative then .ok (.integer significand, cs)
    else if significand = 0 ∨ Nat.pow 2 63 < significand then readFloat true significand 0 cs
    else .ok (.integer (-significand), cs)

theorem length_readNumberEnd {negative : Bool} {significand places : Nat}
    {cs rest : List Char} {n : Number}
    (h : readNumberEnd negative significand places cs = .ok (n, rest)) :
    rest.length ≤ cs.length := by
  unfold readNumberEnd at h
  split at h
  · exact Nat.le_succ_of_le (length_readFraction h)
  · exact Nat.le_succ_of_le (length_readExponent h)
  · exact Nat.le_succ_of_le (length_readExponent h)
  · split at h
    · exact Nat.le_of_eq (congrArg List.length (readFloat_rest h))
    · split at h
      · exact Nat.le_of_eq (congrArg List.length (Prod.mk.inj (Except.ok.inj h)).2.symm)
      · split at h
        · exact Nat.le_of_eq (congrArg List.length (readFloat_rest h))
        · exact Nat.le_of_eq (congrArg List.length (Prod.mk.inj (Except.ok.inj h)).2.symm)

/-- A number after its sign. Only the number zero starts with a zero. -/
def readNumber (negative : Bool) (cs : List Char) : Read Number :=
  match cs with
  | [] => .error (.ended .value)
  | c :: rest =>
    if c = '0' then
      if (rest.head?.map isDigit).getD false then .error (.malformed .badNumber)
      else readNumberEnd negative 0 0 rest
    else if isDigit c then
      let taken := takeDigits 0 cs
      readNumberEnd negative taken.1 (taken.2.takeWhile isDigit).length (skipDigits taken.2)
    else .error (.malformed .badNumber)

theorem length_takeDigits_lt {c : Char} (h : isDigit c) (cs : List Char) :
    (takeDigits 0 (c :: cs)).2.length < (c :: cs).length := by
  have hv : 0 * 10 + digitValue c < UInt64.size := by
    simp only [isDigit, Bool.and_eq_true, decide_eq_true_eq] at h
    have : c.toNat ≤ '9'.toNat := h.2
    have : '9'.toNat = 57 := rfl
    simp only [digitValue, UInt64.size]
    omega
  unfold takeDigits
  simp only [h, hv, decide_true, Bool.and_self, ↓reduceIte]
  exact Nat.lt_succ_of_le (length_takeDigits_le _ _)

theorem length_readNumber {negative : Bool} {cs rest : List Char} {n : Number}
    (h : readNumber negative cs = .ok (n, rest)) : rest.length < cs.length := by
  unfold readNumber at h
  split at h
  · cases h
  · split at h
    · split at h
      · cases h
      · exact Nat.lt_succ_of_le (length_readNumberEnd h)
    · split at h
      · rename_i hd
        exact Nat.lt_of_le_of_lt (Nat.le_trans (length_readNumberEnd h) (length_skipDigits_le _))
          (length_takeDigits_lt hd _)
      · cases h

/-- At least one digit. -/
def skipSomeDigits : List Char → Except Problem (List Char)
  | [] => .error (.malformed .badNumber)
  | c :: cs => if isDigit c then .ok (skipDigits cs) else .error (.malformed .badNumber)

theorem length_skipSomeDigits {cs rest : List Char} (h : skipSomeDigits cs = .ok rest) :
    rest.length < cs.length := by
  unfold skipSomeDigits at h
  split at h
  · cases h
  · split at h
    · cases h
      exact Nat.lt_succ_of_le (length_skipDigits_le _)
    · cases h

def skipExponent (cs : List Char) : Except Problem (List Char) := skipSomeDigits (readSign cs).2

theorem length_skipExponent {cs rest : List Char} (h : skipExponent cs = .ok rest) :
    rest.length < cs.length :=
  Nat.lt_of_lt_of_le (length_skipSomeDigits h) (length_readSign_le cs)

def skipFloatEnd : List Char → Except Problem (List Char)
  | 'e' :: cs => skipExponent cs
  | 'E' :: cs => skipExponent cs
  | cs => .ok cs

theorem length_skipFloatEnd {cs rest : List Char} (h : skipFloatEnd cs = .ok rest) :
    rest.length ≤ cs.length := by
  unfold skipFloatEnd at h
  split at h
  · exact Nat.le_succ_of_le (Nat.le_of_lt (length_skipExponent h))
  · exact Nat.le_succ_of_le (Nat.le_of_lt (length_skipExponent h))
  · cases h
    exact Nat.le_refl _

def skipNumberEnd : List Char → Except Problem (List Char)
  | '.' :: cs =>
    match skipSomeDigits cs with
    | .error p => .error p
    | .ok rest => skipFloatEnd rest
  | cs => skipFloatEnd cs

theorem length_skipNumberEnd {cs rest : List Char} (h : skipNumberEnd cs = .ok rest) :
    rest.length ≤ cs.length := by
  unfold skipNumberEnd at h
  split at h
  · split at h
    · cases h
    · rename_i hd
      have := length_skipSomeDigits hd
      have := length_skipFloatEnd h
      simp only [List.length_cons]
      omega
  · exact length_skipFloatEnd h

/-- Pass over a number after its sign. -/
def skipNumber : List Char → Except Problem (List Char)
  | [] => .error (.malformed .badNumber)
  | c :: cs =>
    if c = '0' then
      if (cs.head?.map isDigit).getD false then .error (.malformed .badNumber)
      else skipNumberEnd cs
    else if isDigit c then skipNumberEnd (skipDigits cs)
    else .error (.malformed .badNumber)

theorem length_skipNumber {cs rest : List Char} (h : skipNumber cs = .ok rest) :
    rest.length < cs.length := by
  unfold skipNumber at h
  split at h
  · cases h
  · split at h
    · split at h
      · cases h
      · exact Nat.lt_succ_of_le (length_skipNumberEnd h)
    · split at h
      · exact Nat.lt_succ_of_le (Nat.le_trans (length_skipNumberEnd h) (length_skipDigits_le _))
      · cases h

end Marginalia.Json
