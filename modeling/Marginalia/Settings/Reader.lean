import Marginalia.Json.Value
import Marginalia.Settings.Field

/-! Settings from JSON. An object names its fields in any order, and members with other names are
passed over; a list gives the fields in order. A field that is not given keeps its default, and none
may be given twice. -/
namespace Marginalia.Settings

open Json

inductive FileFault where
  | missing
  | directory
  | notText
deriving DecidableEq, Repr, Inhabited

inductive LoadProblem where
  | json (problem : Json.Problem)
  | file (fault : FileFault)
  | zeroSizeLimit
deriving DecidableEq, Repr, Inhabited

def FileFault.text : FileFault → String
  | missing => "No such file or directory (os error 2)"
  | directory => "Is a directory (os error 21)"
  | notText => "stream did not contain valid UTF-8"

def LoadProblem.message : LoadProblem → String
  | json problem => "JSON parse error: " ++ problem.message
  | file fault => "I/O error: " ++ fault.text
  | zeroSizeLimit => "size threshold is enabled but set to 0 KiB"

/-- Read the value of a field into the settings. -/
def readField (s : Settings) (f : Field) (cs : List Char) : Read Settings :=
  match f with
  | .executable =>
    Read.map (fun v => { s with executable := v.map Path.mk }) (readOptionalText .path cs)
  | .clientName => Read.map (fun v => { s with clientName := v }) (readOptionalText .string cs)
  | .clientId => Read.map (fun v => { s with clientId := v }) (readText .string cs)
  | .sizeLimited => Read.map (fun v => { s with sizeLimited := v }) (readBoolean cs)
  | .sizeLimitKb =>
    Read.map (fun v => { s with sizeLimitKb := UInt64.ofNat v })
      (readNatural .natural64 UInt64.size cs)
  | .layer =>
    Read.map (fun v => { s with layer := ⟨UInt32.ofNat v⟩ }) (readNatural .natural32 UInt32.size cs)

theorem length_readField {s t : Settings} {f : Field} {cs rest : List Char}
    (h : readField s f cs = .ok (t, rest)) : rest.length ≤ cs.length := by
  cases f <;> obtain ⟨_, h, _⟩ := Read.map_eq_ok h
  · exact length_readOptionalText h
  · exact length_readOptionalText h
  · exact length_readText h
  · exact length_readBoolean h
  · exact length_readNatural h
  · exact length_readNatural h

/-- The value of a member, behind its key. -/
def readMember (seen : List Field) (s : Settings) (key : String) (cs : List Char) :
    Read (List Field × Settings) :=
  match Field.ofName? key with
  | none =>
    match readColon cs with
    | .error p => .error p
    | .ok rest =>
      match skipValue rest with
      | .error p => .error p
      | .ok rest => .ok ((seen, s), rest)
  | some f =>
    if f ∈ seen then .error (.duplicate key)
    else
      match readColon cs with
      | .error p => .error p
      | .ok rest => Read.map (fun s => (f :: seen, s)) (readField s f rest)

theorem length_readMember {seen : List Field} {s : Settings} {key : String}
    {cs rest : List Char} {x : List Field × Settings}
    (h : readMember seen s key cs = .ok (x, rest)) : rest.length < cs.length := by
  unfold readMember at h
  split at h
  · split at h
    · cases h
    · rename_i hc
      have := length_readColon hc
      split at h
      · cases h
      · rename_i hv
        have := length_skipValue hv
        cases h
        omega
  · split at h
    · cases h
    · split at h
      · cases h
      · rename_i hc
        have := length_readColon hc
        obtain ⟨_, hf, _⟩ := Read.map_eq_ok h
        have := length_readField hf
        omega

/-- From the first character behind the last member to the opening quote of the next key. -/
def readKeyStart (first : Bool) (c : Char) (cs : List Char) : Except Problem (List Char) :=
  if first then
    if c = '"' then .ok cs else .error (.malformed .keyNotString)
  else if c = ',' then
    match skipBlank cs with
    | [] => .error (.ended .value)
    | c :: rest =>
      if c = '"' then .ok rest
      else if c = '\x7d' then .error (.malformed .trailingComma)
      else .error (.malformed .keyNotString)
  else .error (.malformed .noCommaInObject)

theorem length_readKeyStart {first : Bool} {c : Char} {cs rest : List Char}
    (h : readKeyStart first c cs = .ok rest) : rest.length ≤ cs.length := by
  unfold readKeyStart at h
  split at h
  · split at h
    · cases h
      exact Nat.le_refl _
    · cases h
  · split at h
    · split at h
      · cases h
      · rename_i hb
        have := length_of_skipBlank hb
        split at h
        · cases h
          omega
        · split at h <;> cases h
    · cases h

/-- The members of an object up to its closing brace. -/
def readMembers (first : Bool) (seen : List Field) (s : Settings) (cs : List Char) :
    Read Settings :=
  match _h : skipBlank cs with
  | [] => .error (.ended .object)
  | c :: rest =>
    if c = '\x7d' then .ok (s, rest)
    else
      match _h : readKeyStart first c rest with
      | .error p => .error p
      | .ok rest =>
        match _h : readString rest with
        | .error p => .error p
        | .ok (key, rest) =>
          match _h : readMember seen s key rest with
          | .error p => .error p
          | .ok ((seen, s), rest) => readMembers false seen s rest
termination_by cs.length
decreasing_by
  have := length_of_skipBlank ‹_›
  have := length_readKeyStart ‹_›
  have := length_readString ‹_›
  have := length_readMember ‹_›
  omega

/-- The elements of a list up to its closing bracket, for the fields that are left. -/
def readElements (first : Bool) (s : Settings) : List Field → List Char → Read Settings
  | [], cs =>
    match skipBlank cs with
    | [] => .error (.ended .list)
    | c :: rest =>
      if c = ']' then .ok (s, rest)
      else if c = ',' then
        match skipBlank rest with
        | ']' :: _ => .error (.malformed .trailingComma)
        | _ => .error (.malformed .trailingCharacters)
      else .error (.malformed .trailingCharacters)
  | f :: fs, cs =>
    match skipBlank cs with
    | [] => .error (.ended .list)
    | c :: rest =>
      if c = ']' then .ok (s, rest)
      else if first then
        match readField s f (c :: rest) with
        | .error p => .error p
        | .ok (s, rest) => readElements false s fs rest
      else if c = ',' then
        match skipBlank rest with
        | [] => .error (.ended .value)
        | c :: rest =>
          if c = ']' then .error (.malformed .trailingComma)
          else
            match readField s f (c :: rest) with
            | .error p => .error p
            | .ok (s, rest) => readElements false s fs rest
      else .error (.malformed .noCommaInList)

/-- Nothing but blanks may follow the settings. -/
def finish : Read Settings → Except Problem Settings
  | .error p => .error p
  | .ok (s, rest) =>
    match skipBlank rest with
    | [] => .ok s
    | _ => .error (.malformed .trailingCharacters)

def readJson (cs : List Char) : Except Problem Settings :=
  match skipBlank cs with
  | [] => .error (.ended .value)
  | c :: rest =>
    if c = '\x7b' then finish (readMembers true [] {} rest)
    else if c = '[' then finish (readElements true {} Field.all rest)
    else .error (mismatch .settings c rest)

def validate (s : Settings) : Except LoadProblem Settings :=
  if s.isValid then .ok s else .error .zeroSizeLimit

/-- The settings that a JSON text gives, if they make sense. -/
def parse (text : String) : Except LoadProblem Settings :=
  match readJson text.toList with
  | .error p => .error (.json p)
  | .ok s => s.validate

/-- What is found under the name of a settings file. -/
inductive File where
  | missing
  | directory
  | bytes (content : ByteArray)
deriving Inhabited

def load : File → Except LoadProblem Settings
  | .missing => .error (.file .missing)
  | .directory => .error (.file .directory)
  | .bytes content =>
    match String.fromUTF8? content with
    | none => .error (.file .notText)
    | some text => parse text

end Marginalia.Settings
