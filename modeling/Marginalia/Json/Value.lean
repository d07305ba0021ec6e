import Marginalia.Json.Skip

/-! Readers for values of a known type. A value of another type is described as far as its problem
needs; if it is not well formed, that is the problem. -/
namespace Marginalia.Json

/-- The problem with a value that starts with `c` and should have been of another type. -/
def mismatch (wanted : Wanted) (c : Char) (cs : List Char) : Problem :=
  if c = 'n' then
    match readWord ['u', 'l', 'l'] cs with
    | .error p => p
    | .ok _ => .wrongType .null wanted
  else if c = 't' then
    match readWord ['r', 'u', 'e'] cs with
    | .error p => p
    | .ok _ => .wrongType (.boolean true) wanted
  else if c = 'f' then
    match readWord ['a', 'l', 's', 'e'] cs with
    | .error p => p
    | .ok _ => .wrongType (.boolean false) wanted
  else if c = '"' then
    match readString cs with
    | .error p => p
    | .ok (s, _) => .wrongType (.string s) wanted
  else if c = '-' then
    match readNumber true cs with
    | .error p => p
    | .ok (n, _) => .wrongType n.found wanted
  else if isDigit c then
    match readNumber false (c :: cs) with
    | .error p => p
    | .ok (n, _) => .wrongType n.found wanted
  else if c = '[' then .wrongType .list wanted
  else if c = '\x7b' then .wrongType .object wanted
  else .malformed .noValue

def readText (wanted : Wanted) (cs : List Char) : Read String :=
  match skipBlank cs with
  | [] => .error (.ended .value)
  | c :: rest => if c = '"' then readString rest else .error (mismatch wanted c rest)

/-- A string, or `null` for its absence. -/
def readOptionalText (wanted : Wanted) (cs : List Char) : Read (Option String) :=
  match skipBlank cs with
  | [] => .error (.ended .value)
  | c :: rest =>
    if c = 'n' then
      match readWord ['u', 'l', 'l'] rest with
      | .error p => .error p
      | .ok rest => .ok (none, rest)
    else
      match readText wanted (c :: rest) with
      | .error p => .error p
      | .ok (s, rest) => .ok (some s, rest)

def readBoolean (cs : List Char) : Read Bool :=
  match skipBlank cs with
  | [] => .error (.ended .value)
  | c :: rest =>
    if c = 't' then
      match readWord ['r', 'u', 'e'] rest with
      | .error p => .error p
      | .ok rest => .ok (true, rest)
    else if c = 'f' then
      match readWord ['a', 'l', 's', 'e'] rest with
      | .error p => .error p
      | .ok rest => .ok (false, rest)
    else .error (mismatch .boolean c rest)

/-- A whole number below a bound. -/
def naturalOf (wanted : Wanted) (bound : Nat) : Number → Except Problem Nat
  | .integer n => if 0 ≤ n ∧ n < bound then .ok n.toNat else .error (.outOfRange n wanted)
  | .float negative magnitude => .error (.wrongType (.float negative magnitude) wanted)

def readNatural (wanted : Wanted) (bound : Nat) (cs : List Char) : Read Nat :=
  match skipBlank cs with
  | [] => .error (.ended .value)
  | c :: rest =>
    if c = '-' ∨ isDigit c then
      match readNumber (c = '-') (if c = '-' then rest else c :: rest) with
      | .error p => .error p
      | .ok (n, rest) =>
        match naturalOf wanted bound n with
        | .error p => .error p
        | .ok n => .ok (n, rest)
    else .error (mismatch wanted c rest)

theorem length_readText {wanted : Wanted} {cs rest : List Char} {s : String}
    (h : readText wanted cs = .ok (s, rest)) : rest.length ≤ cs.length := by
  unfold readText at h
  split at h
  · cases h
  · rename_i hb
    have := length_of_skipBlank hb
    split at h
    · have := length_readString h
      omega
    · cases h

theorem length_readOptionalText {wanted : Wanted} {cs rest : List Char} {s : Option String}
    (h : readOptionalText wanted cs = .ok (s, rest)) : rest.length ≤ cs.length := by
  unfold readOptionalText at h
  split at h
  · cases h
  · rename_i hb
    have := length_of_skipBlank hb
    split at h
    · split at h
      · cases h
      · rename_i hw
        have := length_readWord hw
        cases h
        omega
    · split at h
      · cases h
      · rename_i ht
        have := length_readText ht
        cases h
        simp only [List.length_cons] at this
        omega

theorem length_readBoolean {cs rest : List Char} {b : Bool}
    (h : readBoolean cs = .ok (b, rest)) : rest.length ≤ cs.length := by
  unfold readBoolean at h
  split at h
  · cases h
  · rename_i hb
    have := length_of_skipBlank hb
    split at h
    · split at h
      · cases h
      · rename_i hw
        have := length_readWord hw
        cases h
        omega
    · split at h
      · split at h
        · cases h
        · rename_i hw
          have := length_readWord hw
          cases h
          omega
      · cases h

theorem length_readNatural {wanted : Wanted} {bound : Nat} {cs rest : List Char} {n : Nat}
    (h : readNatural wanted bound cs = .ok (n, rest)) : rest.length ≤ cs.length := by
  unfold readNatural at h
  split at h
  · cases h
  · rename_i c tail hb
    have := length_of_skipBlank hb
    split at h
    · split at h
      · cases h
      · rename_i hn
        have hl : (if c = '-' then tail else c :: tail).length ≤ tail.length + 1 := by
          split <;> simp
        have := length_readNumber hn
        split at h
        · cases h
        · cases h
          omega
    · cases h

end Marginalia.Json
