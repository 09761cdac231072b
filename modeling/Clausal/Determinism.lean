/-!
# Determinism, purity and modes

What a goal promises of its solutions. A determinism is two promises, whether
the goal can fail and how many solutions it has at most (`Determinism.ofParts`);
the determinisms that commit to their first solution promise the same of it as
those with one solution. The determinism of a compound goal combines those of
its parts: in sequence (`conjoin`), as alternatives that are all tried
(`disjoin`), or as alternatives of which one is taken (`join`).
-/

namespace Clausal

inductive Determinism where
  | det | semidet | multi | nondet | ccMulti | ccNondet | erroneous | failure
deriving DecidableEq, Repr, Inhabited

/-- How many solutions a goal has at most. -/
inductive MaxSolutions where
  | zero | one | many
deriving DecidableEq, Repr, Inhabited

/-- The code generator's view of a determinism. -/
inductive CodeModel where
  | det | semi | non
deriving DecidableEq, Repr, Inhabited

namespace MaxSolutions

/-- The larger of two bounds. -/
def max : MaxSolutions → MaxSolutions → MaxSolutions
  | .many, _ | _, .many => .many
  | .one, _ | _, .one => .one
  | .zero, .zero => .zero

/-- The bound for two goals in sequence. -/
def times : MaxSolutions → MaxSolutions → MaxSolutions
  | .zero, _ | _, .zero => .zero
  | a, b => a.max b

/-- The bound for two alternatives that are both tried. -/
def plus : MaxSolutions → MaxSolutions → MaxSolutions
  | .zero, b => b
  | a, .zero => a
  | _, _ => .many

end MaxSolutions

namespace Determinism

def all : List Determinism :=
  [.det, .semidet, .multi, .nondet, .ccMulti, .ccNondet, .erroneous, .failure]

def render : Determinism → String
  | .det => "det"
  | .semidet => "semidet"
  | .multi => "multi"
  | .nondet => "nondet"
  | .ccMulti => "cc_multi"
  | .ccNondet => "cc_nondet"
  | .erroneous => "erroneous"
  | .failure => "failure"

def canFail : Determinism → Bool
  | .semidet | .nondet | .ccNondet | .failure => true
  | .det | .multi | .ccMulti | .erroneous => false

def maxSolutions : Determinism → MaxSolutions
  | .erroneous | .failure => .zero
  | .det | .semidet | .ccMulti | .ccNondet => .one
  | .multi | .nondet => .many

/-- The determinism with the given promises that does not commit to a
    solution. -/
def ofParts : (canFail : Bool) → MaxSolutions → Determinism
  | false, .zero => .erroneous
  | true, .zero => .failure
  | false, .one => .det
  | true, .one => .semidet
  | false, .many => .multi
  | true, .many => .nondet

/-- The determinism of `a, b`. -/
def conjoin (a b : Determinism) : Determinism :=
  ofParts (a.canFail || b.canFail) (a.maxSolutions.times b.maxSolutions)

/-- The determinism of `a ; b`. -/
def disjoin (a b : Determinism) : Determinism :=
  ofParts (a.canFail && b.canFail) (a.maxSolutions.plus b.maxSolutions)

/-- The determinism of a choice between `a` and `b` of which one is taken. -/
def join (a b : Determinism) : Determinism :=
  ofParts (a.canFail || b.canFail) (a.maxSolutions.max b.maxSolutions)

/-- A goal without solutions can be compiled as one with at most one. -/
def codeModel (d : Determinism) : CodeModel :=
  if d.maxSolutions = .many then .non else if d.canFail then .semi else .det

end Determinism

/-- Whether a goal has, or depends on, effects that are not in its
    arguments. -/
inductive Purity where
  | «pure» | semipure | impure
deriving DecidableEq, Repr, Inhabited

namespace Purity

def render : Purity → String
  | .pure => "pure"
  | .semipure => "semipure"
  | .impure => "impure"

/-- The less pure of two. -/
def worst : Purity → Purity → Purity
  | .impure, _ | _, .impure => .impure
  | .semipure, _ | _, .semipure => .semipure
  | .pure, .pure => .pure

end Purity

/-- The direction in which an argument moves data. -/
inductive Mode where
  | input | output | unused
deriving DecidableEq, Repr, Inhabited

def Mode.render : Mode → String
  | .input => "in"
  | .output => "out"
  | .unused => "unused"

/-- The two kinds of callable. A function is a predicate with its result as
    last argument. -/
inductive CallableKind where
  | predicate | function
deriving DecidableEq, Repr, Inhabited

def CallableKind.render : CallableKind → String
  | .predicate => "predicate"
  | .function => "function"

end Clausal
