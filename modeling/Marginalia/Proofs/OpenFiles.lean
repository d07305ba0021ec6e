import Marginalia.OpenFiles

/-! What an operation makes of each of the open files. Only the file that is named can change, and
none does when the operation fails. -/
namespace Marginalia.OpenFiles

/-- The files when an operation is over, whether or not it has succeeded. -/
def after (f : OpenFiles) : Except Problem OpenFiles → OpenFiles
  | .ok changed => changed
  | .error _ => f

variable (f : OpenFiles) (d e : Path)

theorem find?_congr {d e : Path} (h : d ≈ e) : f.find? d = f.find? e :=
  f.byDocument.find?_congr (Path.compare_eq_iff.mpr h)

theorem find?_put (file : OpenFile) :
    find? ⟨f.byDocument.insert e file⟩ d = if d ≈ e then some file else f.find? d := by
  simp only [find?, SortedMap.find?_insert, Path.compare_eq_iff]

theorem find?_remove :
    find? ⟨f.byDocument.erase e⟩ d = if d ≈ e then none else f.find? d := by
  simp only [find?, SortedMap.find?_erase, Path.compare_eq_iff]

theorem find?_openFile (text : Text) (revision : Revision) :
    (f.after (f.openFile e text revision)).find? d =
      if d ≈ e then some ((f.find? d).getD { text, revision }) else f.find? d := by
  unfold openFile
  split
  · rename_i file hfile
    split
    · rename_i h
      have hd : f.find? d = some file := (f.find?_congr h).trans hfile
      rw [hd]
      exact hd
    · rfl
  · rename_i hfile
    refine (f.find?_put d e { text, revision }).trans ?_
    split
    · rename_i h
      rw [f.find?_congr h, hfile]
      rfl
    · rfl

theorem withFile_of_open {α : Type} {file : OpenFile} (h : f.find? e = some file)
    (use : OpenFile → α) : f.withFile e use = .ok (use file) := by
  unfold withFile
  rw [h]

theorem withFile_of_closed {α : Type} (h : f.find? e = none) (use : OpenFile → α) :
    f.withFile e use = .error (.notOpen e) := by
  unfold withFile
  rw [h]

theorem edit_of_open {file : OpenFile} (h : f.find? e = some file) (change : Text → Text) :
    f.edit e change = .ok
      (⟨f.byDocument.insert e
        { file with text := change file.text, revision := file.revision.next }⟩,
        file.revision.next) :=
  f.withFile_of_open e h _

/-- An operation that makes one file of another, or of one none. -/
theorem find?_withFile {use : OpenFile → OpenFiles} {next : OpenFile → Option OpenFile}
    (h : ∀ file, (use file).find? d = if d ≈ e then next file else f.find? d) :
    (f.after (f.withFile e use)).find? d =
      if d ≈ e then (f.find? d).bind next else f.find? d := by
  cases hfile : f.find? e with
  | none =>
    rw [f.withFile_of_closed e hfile, after]
    split
    · rename_i hde
      rw [f.find?_congr hde, hfile, Option.bind_none]
    · rfl
  | some file =>
    rw [f.withFile_of_open e hfile, after, h]
    split
    · rename_i hde
      rw [f.find?_congr hde, hfile, Option.bind_some]
    · rfl

theorem find?_close :
    (f.after (f.close e)).find? d = if d ≈ e then none else f.find? d := by
  have hclose := f.find?_withFile d e fun _ => f.find?_remove d e
  rwa [Option.bind_fun_none] at hclose

theorem find?_setInProject (inProject : Bool) :
    (f.after (f.setInProject e inProject)).find? d =
      if d ≈ e then (f.find? d).map ({ · with inProject }) else f.find? d := by
  rw [Option.map_eq_bind]
  exact f.find?_withFile d e fun file => f.find?_put d e { file with inProject }

theorem find?_edit (change : Text → Text) :
    (f.after ((f.edit e change).map (·.1))).find? d =
      if d ≈ e then
        (f.find? d).map fun file =>
          { file with text := change file.text, revision := file.revision.next }
      else f.find? d := by
  have hfiles : (f.edit e change).map (·.1) = f.withFile e fun file =>
      ⟨f.byDocument.insert e
        { file with text := change file.text, revision := file.revision.next }⟩ := by
    unfold edit withFile
    cases f.find? e <;> rfl
  rw [hfiles, Option.map_eq_bind]
  exact f.find?_withFile d e fun file => f.find?_put d e _

end Marginalia.OpenFiles
