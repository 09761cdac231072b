import Clausal.Ty.Basic

/-!
# Type variables of a declaration

A declaration numbers its type variables and names some of them (`TypeScope`).
To use one declaration inside another, its variables are appended to those of
the other (`TypeScope.merge`); the types of the first are renumbered
accordingly (`Shift`), and so share no variable with those of the second
(`shift_fresh`).
-/

namespace Clausal

/-- The type variables of one declaration, in order, each with its name if it
    has one. -/
structure TypeScope where
  names : Array (Option String) := #[]
deriving DecidableEq, Repr, Inhabited

/-- A renumbering of the variables below `count`, in order, from `base` on. -/
structure Shift where
  base : Nat
  count : Nat
deriving DecidableEq, Repr, Inhabited

/-- The variable that stands for `v`. A variable that is not renumbered stands
    for itself. -/
def Shift.apply (r : Shift) (v : TypeVar) : TypeVar :=
  if v.index < r.count then ⟨r.base + v.index⟩ else v

/-- The renumbered variables, each with the one that stands for it. -/
def Shift.pairs (r : Shift) : List (TypeVar × TypeVar) :=
  (List.range r.count).map fun i => (⟨i⟩, ⟨r.base + i⟩)

/-- A type with its variables renumbered. -/
def Ty.shift (r : Shift) (t : Ty) : Ty := t.mapVars fun v => .var (r.apply v)

namespace TypeScope

/-- The scope without variables. -/
def empty : TypeScope := {}

/-- The scope of named variables. -/
def ofNames (names : List String) : TypeScope := ⟨(names.map some).toArray⟩

/-- How many variables there are. -/
def size (s : TypeScope) : Nat := s.names.size

/-- The scope with one more variable, and that variable. -/
def add (s : TypeScope) (name : Option String) : TypeVar × TypeScope :=
  (⟨s.size⟩, ⟨s.names.push name⟩)

/-- The name of a variable, if it has one. -/
def name? (s : TypeScope) (v : TypeVar) : Option String := (s.names[v.index]?).join

/-- What a variable is called in made-up names: its name, or else its
    number. -/
def varName (s : TypeScope) (v : TypeVar) : String := (s.name? v).getD v.render

/-- How the variables of `other` are renumbered to be none of those of `s`. -/
def shiftOf (s other : TypeScope) : Shift := ⟨s.size, other.size⟩

/-- The scope with the variables of `other` appended, and how they were
    renumbered. -/
def merge (s other : TypeScope) : Shift × TypeScope :=
  (s.shiftOf other, ⟨s.names ++ other.names⟩)

@[simp] theorem size_merge (s other : TypeScope) :
    (s.merge other).2.size = s.size + other.size := by
  simp [merge, size]

/-- Renumbered variables are none of those that were there before. -/
theorem shift_fresh (s other : TypeScope) {v : TypeVar} (h : v.index < other.size) :
    s.size ≤ ((s.shiftOf other).apply v).index := by
  simp [shiftOf, Shift.apply, h]

end TypeScope

end Clausal
