import Marginalia.Proofs.Text.Splice
import Marginalia.Text.Resolve

/-! Edits that are taken back. A deletion removes the characters of a range of indices and no other,
wherever the range ends, and what an edit has changed comes back with the opposite edit at the same
place (`edits_undone`). -/
namespace Marginalia.Text

/-- The characters whose index a test picks, in their order. The first one has the index `k`. -/
def pickFrom (k : Nat) (p : Nat → Bool) (cs : List Char) : List Char :=
  ((cs.zipIdx k).filter fun x => p x.2).map (·.1)

def pick (t : Text) (p : Nat → Bool) : Text := ⟨pickFrom 0 p t.chars⟩

/-- A text is the same as another, and so is all that can be asked of it. -/
structure Restores (t old : Text) : Prop where
  text : t = old
  lineCount : t.lineCount = old.lineCount
  size : t.size = old.size
  byteSize : t.byteSize = old.byteSize
  line : ∀ i, t.line? i = old.line? i
  resolve : ∀ p, t.resolve p = old.resolve p

theorem Restores.of_eq {t old : Text} (h : t = old) : t.Restores old := by
  subst h
  exact ⟨rfl, rfl, rfl, rfl, fun _ => rfl, fun _ => rfl⟩

section Pick

variable {k : Nat} {p : Nat → Bool} {cs : List Char}

theorem pickFrom_append (k : Nat) (p : Nat → Bool) (cs ds : List Char) :
    pickFrom k p (cs ++ ds) = pickFrom k p cs ++ pickFrom (k + cs.length) p ds := by
  simp only [pickFrom, List.zipIdx_append, List.filter_append, List.map_append]

/-- A test that is the same for a whole row keeps it or drops it. -/
theorem pickFrom_of_const {kept : Bool} (h : ∀ i, k ≤ i → i < k + cs.length → p i = kept) :
    pickFrom k p cs = if kept then cs else [] := by
  have hrow : ∀ x ∈ cs.zipIdx k, p x.2 = kept := fun x hx =>
    h x.2 (List.le_snd_of_mem_zipIdx hx) (List.snd_lt_add_of_mem_zipIdx hx)
  cases kept with
  | true =>
    rw [pickFrom, List.filter_eq_self.mpr hrow]
    exact List.zipIdx_map_fst k cs
  | false =>
    rw [pickFrom, List.filter_eq_nil_iff.mpr fun x hx => Bool.eq_false_iff.mp (hrow x hx)]
    rfl

end Pick

variable (t : Text) (start count : Nat)

/-- What stands in front of a range of indices, inside it and behind it, for a test that only looks at
the range. -/
theorem pick_eq_parts {p : Nat → Bool} {inside outside : Bool}
    (hinside : ∀ i, start ≤ i ∧ i < start + count → p i = inside)
    (houtside : ∀ i, ¬(start ≤ i ∧ i < start + count) → p i = outside) :
    (t.pick p).chars = (if outside then t.chars.take start else []) ++
      ((if inside then (t.chars.drop start).take count else []) ++
        if outside then t.chars.drop (start + count) else []) := by
  have hparts : t.chars = t.chars.take start ++
      ((t.chars.drop start).take count ++ t.chars.drop (start + count)) := by
    rw [← List.drop_drop, List.take_append_drop, List.take_append_drop]
  unfold pick
  dsimp only
  conv => lhs; rw [hparts]
  rw [pickFrom_append, pickFrom_append, pickFrom_of_const, pickFrom_of_const, pickFrom_of_const]
  all_goals
    intro i
    simp only [List.length_take, List.length_drop]
    intro hlow hhigh
  · exact houtside i (by omega)
  · exact hinside i (by omega)
  · exact houtside i (by omega)

theorem delete_eq_pick :
    t.delete start count = t.pick fun i => ¬(start ≤ i ∧ i < start + count) := by
  have hparts := t.pick_eq_parts start count (fun i h => decide_eq_false (not_not_intro h))
    (fun i h => decide_eq_true h)
  exact congrArg Text.mk hparts.symm

theorem pick_eq_removed :
    (t.pick fun i => start ≤ i ∧ i < start + count) = ⟨(t.chars.drop start).take count⟩ := by
  have hparts := t.pick_eq_parts start count (fun i h => decide_eq_true h)
    (fun i h => decide_eq_false h)
  exact congrArg Text.mk (hparts.trans (List.append_nil _))

theorem deleteCounted_eq (start count : UInt64) (h : t.size < UInt64.size) :
    t.deleteCounted start count = t.delete start.toNat count.toNat := by
  rw [delete_eq_splice, splice, deleteCounted]
  dsimp only
  have hlast : min (min (min start.toNat t.size + count.toNat) (UInt64.size - 1)) t.size =
      min (start.toNat + count.toNat) t.size := by omega
  rw [hlast]
  split
  · rw [List.append_nil]
  · rename_i hempty
    have hsame : min (start.toNat + count.toNat) t.size = min start.toNat t.size := by omega
    rw [hsame, List.append_nil, List.take_append_drop]

/-- What a deletion has removed can be put back where it was. -/
theorem insert_delete :
    (t.delete start count).insert start ⟨(t.chars.drop start).take count⟩ = t := by
  have hback : (t.chars.drop start).take count ++ t.chars.drop (start + count) =
      t.chars.drop start := by
    rw [← List.drop_drop, List.take_append_drop]
  unfold insert delete
  dsimp only
  rcases Nat.le_total start t.size with hle | hge
  · have hlength : (t.chars.take start).length = start := List.length_take_of_le hle
    rw [List.take_append_of_le_length (Nat.le_of_eq hlength.symm), List.take_take, Nat.min_self,
      List.drop_append_of_le_length (Nat.le_of_eq hlength.symm), List.drop_take_self,
      List.nil_append, List.append_assoc, hback, List.take_append_drop]
  · have hnone : ∀ n, start ≤ n → t.chars.drop n = [] := fun n hn =>
      List.drop_eq_nil_of_le (Nat.le_trans hge hn)
    have hall : t.chars.take start = t.chars := List.take_of_length_le hge
    rw [hnone start (Nat.le_refl _), hnone (start + count) (Nat.le_add_right _ _), hall,
      List.append_nil, hall, hnone start (Nat.le_refl _), List.take_nil, List.append_nil,
      List.append_nil]

/-- A deletion removes a range of indices, also where its end is beyond all that 64 bits can count, and
the opposite of an edit brings the text back with all its lines and places. -/
theorem edits_undone (t : Text) :
    (∀ start count, t.delete start count = t.pick fun i => ¬(start ≤ i ∧ i < start + count)) ∧
    (∀ start count : UInt64, t.size < UInt64.size →
      t.deleteCounted start count = t.delete start.toNat count.toNat) ∧
    (∀ offset new, ((t.insert offset new).delete (min offset t.size) new.size).Restores t) ∧
    ∀ start count, ((t.delete start count).insert start
      (t.pick fun i => start ≤ i ∧ i < start + count)).Restores t := by
  refine ⟨t.delete_eq_pick, t.deleteCounted_eq, fun offset new => ?_, fun start count => ?_⟩
  · exact .of_eq (t.delete_insert offset new)
  · rw [pick_eq_removed]
    exact .of_eq (t.insert_delete start count)

/-- A cut through the middle of a break, with an end that is too large to count. -/
example :
    (ofString "a\r\nb").deleteCounted 2 18446744073709551615 = ofString "a\r" ∧
      (ofString "a\r").insert 2 (ofString "\nb") = ofString "a\r\nb" := by decide

end Marginalia.Text
