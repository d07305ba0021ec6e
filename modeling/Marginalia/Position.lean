/-! Places and ranges as an analyser reports them: lines and columns count from zero, and a column
counts UTF-16 code units. A span keeps its ends as they were given, also when they are reversed. -/
namespace Marginalia

structure Position where
  line : Nat
  character : Nat
deriving DecidableEq, Repr, Inhabited

namespace Position

/-- Line first, then column. -/
instance : Ord Position :=
  ⟨compareLex (compareOn line) (compareOn character)⟩

instance : Std.TransOrd Position :=
  inferInstanceAs (Std.TransCmp (compareLex (compareOn line) (compareOn character)))

instance : LT Position where
  lt p q := p.line < q.line ∨ p.line = q.line ∧ p.character < q.character

instance : LE Position where
  le p q := p.line < q.line ∨ p.line = q.line ∧ p.character ≤ q.character

theorem lt_iff (p q : Position) :
    p < q ↔ p.line < q.line ∨ p.line = q.line ∧ p.character < q.character := Iff.rfl

theorem le_iff (p q : Position) :
    p ≤ q ↔ p.line < q.line ∨ p.line = q.line ∧ p.character ≤ q.character := Iff.rfl

instance (p q : Position) : Decidable (p < q) :=
  decidable_of_iff _ (lt_iff p q).symm

instance (p q : Position) : Decidable (p ≤ q) :=
  decidable_of_iff _ (le_iff p q).symm

end Position

structure Span where
  start : Position
  stop : Position
deriving DecidableEq, Repr, Inhabited

namespace Span

/-- A caret: the span without extent at a place. -/
def caret (p : Position) : Span := ⟨p, p⟩

def isEmpty (s : Span) : Bool := s.start = s.stop

/-- Before the other one. Spans that only touch are apart, unless one of them is empty: a caret at
the edge of a span still hits it. -/
def before (a b : Span) : Bool :=
  if a.isEmpty || b.isEmpty then a.stop < b.start else a.stop ≤ b.start

def overlaps (a b : Span) : Bool := !a.before b && !b.before a

@[simp] theorem isEmpty_caret (p : Position) : (caret p).isEmpty = true := by
  simp [caret, isEmpty]

end Span

end Marginalia
