import Clausal.Goal.Free

/-!
# Quantification

Which free variables of a goal are visible outside it. For the goals inside a
goal these are the variables that are visible outside the whole, and those
that occur in the goals beside it: a variable of two conjuncts is visible
outside each, and so is one of a condition and its first branch. Quantifiers
hide their variables (`Goal.requantify`).
-/

namespace Clausal

namespace Goal

/-- For each tail of a list of sets, the longest first, the variables of its
    sets. -/
def tailUnions : List VarSet → List VarSet
  | [] => [∅]
  | s :: ss =>
    match tailUnions ss with
    | [] => [s]
    | u :: us => (s ∪ u) :: u :: us

/-- For each set of a list, the variables of the other sets and of `before`. -/
def otherUnions (before : VarSet) : List VarSet → List VarSet → List VarSet
  | s :: ss, u :: us => (before ∪ u) :: otherUnions (before ∪ s) ss us
  | _, _ => []

/-- For each goal of a conjunction, the variables visible outside it: those
    visible outside the conjunction and those that occur in the other
    conjuncts. -/
def conjunctOutsides (outside : VarSet) (gs : List Goal) : List VarSet :=
  let free := gs.map freeVars
  otherUnions outside free (tailUnions free).tail

/-- The variables of a goal that are visible outside it. -/
def quantified (outside : VarSet) (g : Goal) : Goal := g.setNonlocals (g.freeVars ∩ outside)

mutual

/-- The goal with its non-local variables, and those of all goals inside it,
    worked out from the variables that are visible outside it. -/
def requantify (outside : VarSet) : Goal → Goal
  | .conj i k gs =>
    quantified outside (.conj i k (requantifyEach (conjunctOutsides outside gs) gs))
  | .disj i gs => quantified outside (.disj i (requantifyList outside gs))
  | .switch i v f arms =>
    quantified outside (.switch i v f (requantifyArms (outside.insert v) arms))
  | .negation i g => quantified outside (.negation i (requantify outside g))
  | .ite i locals c y n =>
    let inner := outside.eraseMany locals
    quantified outside
      (.ite i locals (requantify (inner ∪ freeVars y) c) (requantify (inner ∪ freeVars c) y)
        (requantify outside n))
  | .scope i r g => quantified outside (.scope i r (requantify (outside.eraseMany r.hidden) g))
  | .lambda i lhs head body k =>
    let captured := capturedVars head body
    quantified outside
      (.lambda i lhs { head with captured := captured.toList }
        (requantify (captured.insertMany head.args) body) k)
  | .call i p n args => quantified outside (.call i p n args)
  | .genericCall i p args ms => quantified outside (.genericCall i p args ms)
  | .foreign i f => quantified outside (.foreign i f)
  | .unify i lhs rhs k => quantified outside (.unify i lhs rhs k)

/-- The goals, each quantified against its own set of visible variables. -/
def requantifyEach : List VarSet → List Goal → List Goal
  | _, [] => []
  | [], g :: gs => g :: requantifyEach [] gs
  | outside :: outsides, g :: gs => requantify outside g :: requantifyEach outsides gs

/-- The goals, all quantified against the same visible variables. -/
def requantifyList (outside : VarSet) : List Goal → List Goal
  | [] => []
  | g :: gs => requantify outside g :: requantifyList outside gs

/-- The arms of a switch, all quantified against the same visible
    variables. -/
def requantifyArms (outside : VarSet) : List (Symbol × Goal) → List (Symbol × Goal)
  | [] => []
  | (s, g) :: arms => (s, requantify outside g) :: requantifyArms outside arms

end

section

-- The equations are proved here, before several proofs ask for them at once.
attribute [local simp] requantify requantifyEach requantifyList requantifyArms

end

end Goal

end Clausal
