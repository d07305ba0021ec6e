import Marginalia.Json.Number

/-! Passing over a value that nobody asked for. Containers may be nested to any depth: those that
are open are kept on a stack. -/
namespace Marginalia.Json

inductive Container where
  | list
  | object
deriving DecidableEq, Repr, Inhabited

namespace Container

def closing : Container → Char
  | list => ']'
  | object => '\x7d'

def unfinished : Container → Unfinished
  | list => .list
  | object => .object

def noComma : Container → Fault
  | list => .noCommaInList
  | object => .noCommaInObject

end Container

/-- A value that is not a container. -/
def skipScalar : List Char → Except Problem (List Char)
  | [] => .error (.ended .value)
  | c :: cs =>
    if c = 'n' then readWord ['u', 'l', 'l'] cs
    else if c = 't' then readWord ['r', 'u', 'e'] cs
    else if c = 'f' then readWord ['a', 'l', 's', 'e'] cs
    else if c = '"' then skipString cs
    else if c = '-' then skipNumber cs
    else if isDigit c then skipNumber (c :: cs)
    else .error (.malformed .noValue)

theorem length_skipScalar {cs rest : List Char} (h : skipScalar cs = .ok rest) :
    rest.length < cs.length := by
  unfold skipScalar at h
  split at h
  · cases h
  · split at h
    · exact Nat.lt_succ_of_le (length_readWord h)
    · split at h
      · exact Nat.lt_succ_of_le (length_readWord h)
      · split at h
        · exact Nat.lt_succ_of_le (length_readWord h)
        · split at h
          · exact Nat.lt_succ_of_lt (length_skipString h)
          · split at h
            · exact Nat.lt_succ_of_lt (length_skipNumber h)
            · split at h
              · exact length_skipNumber h
              · cases h

/-- The colon between a key and its value. -/
def readColon (cs : List Char) : Except Problem (List Char) :=
  match skipBlank cs with
  | [] => .error (.ended .object)
  | c :: rest => if c = ':' then .ok rest else .error (.malformed .noColon)

theorem length_readColon {cs rest : List Char} (h : readColon cs = .ok rest) :
    rest.length < cs.length := by
  unfold readColon at h
  have := length_skipBlank_le cs
  split at h
  · cases h
  · rename_i hb
    split at h
    · cases h
      rw [hb, List.length_cons] at this
      exact this
    · cases h

/-- What stands before the next value of a container: in an object, a key and a colon. -/
def skipKey (container : Container) (cs : List Char) : Except Problem (List Char) :=
  match container with
  | .list => .ok cs
  | .object =>
    match skipBlank cs with
    | [] => .error (.ended .object)
    | c :: cs =>
      if c = '"' then
        match skipString cs with
        | .error p => .error p
        | .ok rest => readColon rest
      else .error (.malformed .keyNotString)

theorem length_skipKey {container : Container} {cs rest : List Char}
    (h : skipKey container cs = .ok rest) : rest.length ≤ cs.length := by
  unfold skipKey at h
  split at h
  · cases h
    exact Nat.le_refl _
  · have := length_skipBlank_le cs
    split at h
    · cases h
    · rename_i hb
      rw [hb, List.length_cons] at this
      split at h
      · split at h
        · cases h
        · rename_i hs
          have := length_skipString hs
          have := length_readColon h
          omega
      · cases h

/-- Where a reader stands: before a value, behind an opening bracket or behind a value. -/
inductive Stage where
  | value
  | opened
  | after
deriving DecidableEq, Repr, Inhabited

/-- Pass over what is left of a value inside the containers that are open, innermost first. -/
def skipFrom (stack : List Container) (stage : Stage) (cs : List Char) :
    Except Problem (List Char) :=
  match stage, stack with
  | .value, stack =>
    match _h : skipBlank cs with
    | [] => .error (.ended .value)
    | c :: rest =>
      if c = '[' then skipFrom (.list :: stack) .opened rest
      else if c = '\x7b' then skipFrom (.object :: stack) .opened rest
      else
        match _h : skipScalar (c :: rest) with
        | .error p => .error p
        | .ok rest => skipFrom stack .after rest
  | .opened, [] => .ok cs
  | .opened, container :: outer =>
    match _h : skipBlank cs with
    | [] => .error (.ended container.unfinished)
    | c :: rest =>
      if c = container.closing then skipFrom outer .after rest
      else
        match _h : skipKey container (c :: rest) with
        | .error p => .error p
        | .ok rest => skipFrom (container :: outer) .value rest
  | .after, [] => .ok cs
  | .after, container :: outer =>
    match _h : skipBlank cs with
    | [] => .error (.ended container.unfinished)
    | c :: rest =>
      if c = ',' then
        match _h : skipKey container rest with
        | .error p => .error p
        | .ok rest => skipFrom (container :: outer) .value rest
      else if c = container.closing then skipFrom outer .after rest
      else .error (.malformed container.noComma)
termination_by 2 * cs.length + (if stage = .opened then 1 else 0)
decreasing_by
  all_goals
    have hb := length_skipBlank_le cs
    simp_all only [List.length_cons, ↓reduceIte]
  · omega
  · omega
  · have := length_skipScalar ‹_›
    simp only [List.length_cons] at this
    omega
  · omega
  · have := length_skipKey ‹_›
    simp only [List.length_cons] at this
    omega
  · have := length_skipKey ‹_›
    omega
  · omega

def skipValue (cs : List Char) : Except Problem (List Char) := skipFrom [] .value cs

theorem length_skipFrom {stack : List Container} {stage : Stage} {cs rest : List Char}
    (h : skipFrom stack stage cs = .ok rest) : rest.length ≤ cs.length := by
  fun_induction skipFrom stack stage cs with
  | case1 | case4 | case7 | case9 | case12 | case13 | case16 => cases h
  | case6 | case11 =>
    cases h
    exact Nat.le_refl _
  | case2 _ _ _ hb ih | case3 _ _ _ hb _ ih | case8 _ _ _ _ hb ih | case15 _ _ _ _ hb _ ih =>
    have := length_of_skipBlank hb
    have := ih h
    omega
  | case5 _ _ _ _ hb _ _ _ hs ih =>
    have := length_of_skipBlank hb
    have := length_skipScalar hs
    have := ih h
    simp only [List.length_cons] at *
    omega
  | case10 _ _ _ _ _ hb _ _ hk ih =>
    have := length_of_skipBlank hb
    have := length_skipKey hk
    have := ih h
    simp only [List.length_cons] at *
    omega
  | case14 _ _ _ _ _ hk hb ih =>
    have := length_of_skipBlank hb
    have := length_skipKey hk
    have := ih h
    omega

theorem length_skipValue {cs rest : List Char} (h : skipValue cs = .ok rest) :
    rest.length ≤ cs.length := length_skipFrom h

end Marginalia.Json
