import Marginalia.Text

/-! Edits as splices: characters of a text give way to others, between two places that are in the
text. -/
namespace Marginalia.Text

/-- Put a text in the place of the characters from `start` up to `stop`. -/
def splice (t : Text) (start stop : Nat) (new : Text) : Text :=
  ⟨t.chars.take start ++ new.chars ++ t.chars.drop stop⟩

variable (t new : Text)

theorem take_min_size (n : Nat) : t.chars.take (min n t.size) = t.chars.take n :=
  List.take_eq_take_iff.mpr (by simp [size])

theorem drop_min_size (n : Nat) : t.chars.drop (min n t.size) = t.chars.drop n :=
  List.drop_eq_drop_iff.mpr (by simp [size])

theorem insert_eq_splice (offset : Nat) :
    t.insert offset new = t.splice (min offset t.size) (min offset t.size) new := by
  rw [insert, splice, take_min_size, drop_min_size]

theorem delete_eq_splice (start count : Nat) :
    t.delete start count = t.splice (min start t.size) (min (start + count) t.size) ⟨[]⟩ := by
  rw [delete, splice, take_min_size, drop_min_size, List.append_nil]

theorem eq_splice_all : new = t.splice 0 t.size new := by
  simp [splice, size]

end Marginalia.Text
