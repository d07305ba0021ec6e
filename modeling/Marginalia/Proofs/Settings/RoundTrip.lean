import Marginalia.Proofs.Json.Written
import Marginalia.Settings.Reader
import Marginalia.Settings.Writer

/-! Settings that are written and read again are the same in every field, also when they are not
valid: whether they make sense is only asked after they are read (`parse_toJson`). -/
namespace Marginalia.Settings

open Json

/-- Take one field over from other settings. -/
def take (s other : Settings) : Field → Settings
  | .executable => { s with executable := other.executable }
  | .clientName => { s with clientName := other.clientName }
  | .clientId => { s with clientId := other.clientId }
  | .sizeLimited => { s with sizeLimited := other.sizeLimited }
  | .sizeLimitKb => { s with sizeLimitKb := other.sizeLimitKb }
  | .layer => { s with layer := other.layer }

/-- Nothing else is in the settings. -/
theorem foldl_take_all (s other : Settings) : Field.all.foldl (·.take other) s = other := rfl

variable {s other : Settings} {seen : List Field} {f : Field} {rest : List Char}

theorem readField_written (s other : Settings) (f : Field) (h : NumberEnds rest) :
    readField s f (other.writeField f ++ rest) = .ok (s.take other f, rest) := by
  cases f with
  | executable =>
    have hpath : (other.executable.map Path.spelling).map Path.mk = other.executable := by
      cases other.executable <;> rfl
    simp only [readField, writeField, readOptionalText_written, Read.map, hpath, take]
  | clientName => simp only [readField, writeField, readOptionalText_written, Read.map, take]
  | clientId => simp only [readField, writeField, readText_written, Read.map, take]
  | sizeLimited => simp only [readField, writeField, readBoolean_written, Read.map, take]
  | sizeLimitKb =>
    have hread := readNatural_written .natural64 other.sizeLimitKb.toNat_lt (Nat.le_refl _) h
    simp only [readField, writeField, hread, Read.map, UInt64.ofNat_toNat, take]
  | layer =>
    have hread := readNatural_written .natural32 other.layer.number.toNat_lt (by decide) h
    simp only [readField, writeField, hread, Read.map, UInt32.ofNat_toNat, take]

/-- A field with its name, as it stands in an object. -/
def writeMember (other : Settings) (f : Field) : List Char :=
  writeText f.name ++ ':' :: other.writeField f

theorem writeMembers_cons (other : Settings) (f : Field) (fs : List Field) :
    writeMembers ((f :: fs).map fun f => (f.name, other.writeField f)) =
      other.writeMember f ++ fs.flatMap fun f => ',' :: other.writeMember f := by
  induction fs generalizing f with
  | nil => simp [writeMembers, writeMember]
  | cons g fs ih =>
    have hrest := ih g
    rw [List.map_cons] at hrest
    rw [List.map_cons, List.map_cons, writeMembers, hrest]
    · simp [writeMember]
    · simp

/-- A member of an object from its key on. -/
theorem readMembers_key {first : Bool} {cs tail keyed valued : List Char} {c : Char} {key : String}
    (hblank : skipBlank cs = c :: tail) (hc : c ≠ '\x7d')
    (hkeyed : readKeyStart first c tail = .ok keyed) (hkey : readString keyed = .ok (key, valued)) :
    readMembers first seen s cs =
      match readMember seen s key valued with
      | .error p => .error p
      | .ok (x, rest) => readMembers false x.1 x.2 rest := by
  rw [readMembers]
  -- every match goes the way that its hypothesis says
  split <;> rename_i h <;> cases hblank.symm.trans h
  rw [if_neg hc]
  split <;> rename_i h <;> cases hkeyed.symm.trans h
  split <;> rename_i h <;> cases hkey.symm.trans h
  split <;> rename_i h <;> rw [h]

/-- One member of an object: a key that is found, and its value. -/
theorem readMembers_step {first : Bool} {cs tail keyed valued : List Char} {c : Char}
    {key : String} {x : List Field × Settings} (hblank : skipBlank cs = c :: tail)
    (hc : c ≠ '\x7d') (hkeyed : readKeyStart first c tail = .ok keyed)
    (hkey : readString keyed = .ok (key, valued))
    (hvalue : readMember seen s key valued = .ok (x, rest)) :
    readMembers first seen s cs = readMembers false x.1 x.2 rest := by
  rw [readMembers_key hblank hc hkeyed hkey, hvalue]

theorem readMember_written (s other : Settings) (hf : f ∉ seen) (h : NumberEnds rest) :
    readMember seen s f.name (':' :: (other.writeField f ++ rest)) =
      .ok ((f :: seen, s.take other f), rest) := by
  have hcolon : readColon (':' :: (other.writeField f ++ rest)) =
      .ok (other.writeField f ++ rest) := rfl
  simp only [readMember, Field.ofName?_name, if_neg hf, hcolon, readField_written s other f h,
    Read.map]

/-- The first member stands behind the brace, every other one behind a comma. -/
theorem readMembers_writeMember (first : Bool) (s other : Settings) (hf : f ∉ seen)
    (h : NumberEnds rest) :
    readMembers first seen s ((if first then [] else [',']) ++ (other.writeMember f ++ rest)) =
      readMembers false (f :: seen) (s.take other f) rest := by
  have hkey := readString_written f.name (':' :: (other.writeField f ++ rest))
  have hvalue := readMember_written s other hf h
  have hmember : other.writeMember f ++ rest =
      '"' :: (f.name.toList.flatMap escapeCharacter ++
        '"' :: ':' :: (other.writeField f ++ rest)) := by
    simp [writeMember, writeText]
  rw [hmember]
  cases first with
  | true => exact readMembers_step rfl (by decide) rfl hkey hvalue
  | false => exact readMembers_step rfl (by decide) rfl hkey hvalue

/-- Behind a member comes a comma or the closing brace. -/
theorem numberEnds_members (other : Settings) (fs : List Field) (rest : List Char) :
    NumberEnds (fs.flatMap (fun f => ',' :: other.writeMember f) ++ '\x7d' :: rest) := by
  cases fs with
  | nil => simp [NumberEnds, isDigit]
  | cons f fs => simp [NumberEnds, isDigit]

theorem readMembers_written (s other : Settings) (fs : List Field) (hfs : (fs ++ seen).Nodup)
    (rest : List Char) :
    readMembers false seen s (fs.flatMap (fun f => ',' :: other.writeMember f) ++ '\x7d' :: rest) =
      .ok (fs.foldl (·.take other) s, rest) := by
  induction fs generalizing seen s with
  | nil =>
    rw [readMembers]
    rfl
  | cons f fs ih =>
    have hnew : f ∉ seen := fun h => (List.nodup_cons.mp hfs).1 (List.mem_append_right fs h)
    have hnext : (fs ++ f :: seen).Nodup := List.perm_middle.nodup_iff.mpr hfs
    have hmember := readMembers_writeMember false s other hnew (numberEnds_members other fs rest)
    rw [List.flatMap_cons, List.append_assoc]
    exact hmember.trans (ih (s.take other f) hnext)

theorem readJson_writeJson (s : Settings) : readJson s.writeJson = .ok s := by
  obtain ⟨f, fs, hall⟩ : ∃ f fs, Field.all = f :: fs := ⟨_, _, rfl⟩
  have hnodup : (fs ++ [f]).Nodup := by
    rw [List.perm_append_comm.nodup_iff, List.singleton_append, ← hall]
    decide
  have hwritten : s.writeJson = '\x7b' :: (s.writeMember f ++
      (fs.flatMap (fun f => ',' :: s.writeMember f) ++ ['\x7d'])) := by
    rw [writeJson, writeObject, hall, writeMembers_cons, List.cons_append, List.append_assoc]
  have htaken : (f :: fs).foldl (·.take s) {} = s := hall ▸ foldl_take_all {} s
  have hnew : f ∉ ([] : List Field) := List.not_mem_nil
  have hfirst := readMembers_writeMember true {} s hnew (numberEnds_members s fs [])
  have hmembers : readMembers true [] {} (s.writeMember f ++
      (fs.flatMap (fun f => ',' :: s.writeMember f) ++ ['\x7d'])) = .ok (s, []) := by
    refine hfirst.trans ?_
    rw [List.foldl_cons] at htaken
    rw [readMembers_written _ s fs hnodup, htaken]
  have hblank : isBlank '\x7b' = false := rfl
  rw [hwritten, readJson, skipBlank_cons hblank]
  dsimp only
  rw [if_pos rfl, hmembers]
  rfl

/-- Settings are read as they were written, and refused just if they limit the size to nothing. -/
theorem parse_toJson (s : Settings) :
    parse s.toJson =
      if s.sizeLimited = true ∧ s.sizeLimitKb = 0 then .error .zeroSizeLimit else .ok s := by
  have hread : readJson s.toJson.toList = .ok s := by
    rw [toJson, String.toList_ofList]
    exact s.readJson_writeJson
  simp only [parse, hread, validate, isValid]
  by_cases h : s.sizeLimited = true ∧ s.sizeLimitKb = 0
  · simp [h]
  · simp [h]

end Marginalia.Settings
