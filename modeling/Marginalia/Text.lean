/-! Text buffers, edited by character offset. An offset beyond the end stands for the end. -/
namespace Marginalia

structure Text where
  chars : List Char
deriving DecidableEq, Repr, Inhabited

namespace Text

def ofString (s : String) : Text := ⟨s.toList⟩

def asString (t : Text) : String := String.ofList t.chars

def size (t : Text) : Nat := t.chars.length

/-- Size in UTF-8. -/
def byteSize (t : Text) : Nat := t.chars.foldl (fun n c => n + c.utf8Size) 0

def insert (t : Text) (offset : Nat) (new : Text) : Text :=
  ⟨t.chars.take offset ++ new.chars ++ t.chars.drop offset⟩

/-- Remove the characters from `start` up to `start + count`. -/
def delete (t : Text) (start count : Nat) : Text :=
  ⟨t.chars.take start ++ t.chars.drop (start + count)⟩

/-- Delete with places and counts of 64 bits. Both ends are brought back into the text in turn, and a
sum that is too large stops at the greatest count. -/
def deleteCounted (t : Text) (start count : UInt64) : Text :=
  let first := min start.toNat t.size
  let last := min (min (first + count.toNat) (UInt64.size - 1)) t.size
  if first < last then ⟨t.chars.take first ++ t.chars.drop last⟩ else t

instance : Append Text := ⟨fun t u => ⟨t.chars ++ u.chars⟩⟩

@[simp] theorem chars_append (t u : Text) : (t ++ u).chars = t.chars ++ u.chars := rfl

@[simp] theorem asString_ofString (s : String) : (ofString s).asString = s := by
  simp [ofString, asString]

/-- The bytes are those of the string. -/
theorem byteSize_eq (t : Text) : t.byteSize = t.asString.utf8ByteSize := by
  have hfold : ∀ n, t.chars.foldl (fun n c => n + c.utf8Size) n =
      n + (String.ofList t.chars).utf8ByteSize := by
    induction t.chars with
    | nil => exact fun n => rfl
    | cons c cs ih =>
      intro n
      rw [List.foldl_cons, ih, String.ofList_cons, String.utf8ByteSize_append,
        String.utf8ByteSize_singleton, Nat.add_assoc]
  exact (hfold 0).trans (Nat.zero_add _)

@[simp] theorem delete_insert (t : Text) (offset : Nat) (new : Text) :
    (t.insert offset new).delete (min offset t.size) new.size = t := by
  have h : (t.chars.take offset).length = min offset t.size := List.length_take
  simp only [insert, delete]
  rw [← h, List.append_assoc, List.take_left, ← List.append_assoc]
  have : (t.chars.take offset).length + new.size = (t.chars.take offset ++ new.chars).length := by
    simp [size]
  rw [this, List.drop_left, List.take_append_drop]

end Text

end Marginalia
