/-! File paths, by which documents are known. A path keeps its spelling, and is compared by its
components: repeated and trailing slashes and every `.` but a leading one have no meaning, and `..`
is a component like any other. Two paths are equivalent (`≈`) when their components agree, and that
is when `compare` says so (`Path.compare_eq_iff`). -/
namespace Marginalia

inductive Component where
  | root
  | current
  | parent
  | name (text : String)
deriving DecidableEq, Repr, Inhabited

namespace Component

def rank : Component → Nat
  | root => 0
  | current => 1
  | parent => 2
  | name _ => 3

def label : Component → String
  | name text => text
  | _ => ""

/-- The root, then `.`, then `..`, then names in the order of their characters. -/
instance : Ord Component := ⟨compareLex (compareOn rank) (compareOn label)⟩

instance : Std.TransOrd Component :=
  inferInstanceAs (Std.TransCmp (compareLex (compareOn rank) (compareOn label)))

theorem eq_of_rank_of_label {a b : Component} (hr : a.rank = b.rank) (hl : a.label = b.label) :
    a = b := by
  cases a <;> cases b <;> simp_all [rank, label]

instance : Std.LawfulEqOrd Component where
  compare_self := Std.ReflCmp.compare_self
  eq_of_compare {a b} h := by
    have h : (compareOn rank a b).then (compareOn label a b) = .eq := h
    rw [Ordering.then_eq_eq] at h
    exact eq_of_rank_of_label (Std.LawfulEqOrd.eq_of_compare h.1) (Std.LawfulEqOrd.eq_of_compare h.2)

/-- What a piece between slashes stands for, when something precedes it. -/
def ofPiece? : List Char → Option Component
  | [] => none
  | ['.'] => none
  | ['.', '.'] => some .parent
  | text => some (.name (String.ofList text))

end Component

structure Path where
  spelling : String
deriving DecidableEq, Repr, Inhabited

namespace Path

/-- Put a character in front: a slash starts a new piece. -/
def cutPiece (c : Char) : List (List Char) → List (List Char)
  | [] => [[c]]
  | piece :: rest => if c = '/' then [] :: piece :: rest else (c :: piece) :: rest

/-- The pieces between slashes. -/
def pieces (cs : List Char) : List (List Char) := cs.foldr cutPiece [[]]

def components (p : Path) : List Component :=
  match pieces p.spelling.toList with
  | [] => []
  | [[]] => []
  | [] :: rest => .root :: rest.filterMap Component.ofPiece?
  | ['.'] :: rest => .current :: rest.filterMap Component.ofPiece?
  | all => all.filterMap Component.ofPiece?

instance : Setoid Path where
  r p q := p.components = q.components
  iseqv := ⟨fun _ => rfl, Eq.symm, Eq.trans⟩

theorem equiv_iff {p q : Path} : p ≈ q ↔ p.components = q.components := Iff.rfl

instance (p q : Path) : Decidable (p ≈ q) := decidable_of_iff _ equiv_iff.symm

instance : Ord Path := ⟨compareOn components⟩

instance : Std.TransOrd Path := inferInstanceAs (Std.TransCmp (compareOn components))

theorem compare_eq_iff {p q : Path} : compare p q = .eq ↔ p ≈ q :=
  Std.LawfulEqOrd.compare_eq_iff_eq (α := List Component)

/-- The last component, if it is a name. -/
def fileName? (p : Path) : Option String :=
  match p.components.getLast? with
  | some (.name text) => some text
  | _ => none

/-- What stands before the last dot of a name, or all of a name that has no dot after its first
character. -/
def stemOf (text : String) : String :=
  match (text.toList.reverse.dropWhile (· ≠ '.')).tail.reverse with
  | [] => text
  | before => String.ofList before

def stem? (p : Path) : Option String := p.fileName?.map stemOf

theorem stem?_congr {p q : Path} (h : p ≈ q) : p.stem? = q.stem? := by
  simp only [stem?, fileName?, equiv_iff.mp h]

/-- Equivalent paths stay in the order in which they were given. -/
def sort (ps : List Path) : List Path := ps.mergeSort fun p q => (compare p q).isLE

/-- Keep the first of every row of equivalent paths. -/
def distinct : List Path → List Path
  | [] => []
  | p :: ps => p :: (distinctAfter p ps)
where
  distinctAfter (last : Path) : List Path → List Path
    | [] => []
    | p :: ps => if last ≈ p then distinctAfter last ps else p :: distinctAfter p ps

end Path

end Marginalia
