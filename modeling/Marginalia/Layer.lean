/-! Layers of highlights. What one analyser draws stays on its own layer, so that two of them do not
wipe out each other's work. -/
namespace Marginalia

/-- An editor keeps independent sets of highlights for a document, one on each layer. -/
structure Layer where
  number : UInt32
deriving DecidableEq, Repr, Inhabited

namespace Layer

def codeWarnings : Layer := ⟨1⟩

def codeSemantics : Layer := ⟨2⟩

def rank (l : Layer) : Nat := l.number.toNat

instance : Ord Layer := ⟨compareOn rank⟩

instance : Std.TransOrd Layer := inferInstanceAs (Std.TransCmp (compareOn rank))

theorem compare_eq_iff {a b : Layer} : compare a b = .eq ↔ a = b := by
  constructor
  · intro h
    have : a.rank = b.rank := Std.LawfulEqOrd.eq_of_compare h
    cases a
    cases b
    exact congrArg Layer.mk (UInt32.toNat_inj.mp this)
  · rintro rfl
    exact Std.ReflCmp.compare_self

end Layer

end Marginalia
