import Clausal.Ty.Subst

/-!
# One-way matching

Finding the substitution that turns a general type into a specific one. Only
variables of the general type are bound, each to the type that stands in its
place; the specific type's variables are constants here. Matching fails where
the constructors differ or where one variable would need two types.
-/

namespace Clausal

/-- Why a general type does not match a specific one. -/
inductive MatchError where
  /-- The two types, or what a variable is bound to and the second type in its
      place, differ. -/
  | mismatch (general specific : Ty)
  /-- The lists of types have different lengths. -/
  | lengths (general specific : Nat)
deriving DecidableEq, Repr

namespace Ty

mutual

/-- Extends `s` so that it turns the first type into the second. -/
def matchInto (s : Subst) : Ty → Ty → Except MatchError Subst
  | .var v, u =>
    match s.find? v with
    | some t => if t = u then .ok s else .error (.mismatch t u)
    | none => .ok (s.insert v u)
  | .defined n ts, .defined m us =>
    if n = m ∧ ts.length = us.length then matchArgs s ts us
    else .error (.mismatch (.defined n ts) (.defined m us))
  | .tuple ts, .tuple us =>
    if ts.length = us.length then matchArgs s ts us
    else .error (.mismatch (.tuple ts) (.tuple us))
  | .higherOrder k ts, .higherOrder l us =>
    if k = l ∧ ts.length = us.length then matchArgs s ts us
    else .error (.mismatch (.higherOrder k ts) (.higherOrder l us))
  | t, u => .error (.mismatch t u)

/-- Extends `s` so that it turns each type of the first list into that of the
    second, as far as both lists go. -/
def matchArgs (s : Subst) : List Ty → List Ty → Except MatchError Subst
  | t :: ts, u :: us => do
    let s ← matchInto s t u
    matchArgs s ts us
  | _, _ => .ok s

end

end Ty

/-- The substitution that turns the general types into the specific ones. -/
def Subst.ofMatch (general specific : List Ty) : Except MatchError Subst :=
  if general.length = specific.length then Ty.matchArgs ∅ general specific
  else .error (.lengths general.length specific.length)

end Clausal
