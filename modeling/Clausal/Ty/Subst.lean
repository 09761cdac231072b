import Clausal.Assoc
import Clausal.Ty.Scope

/-!
# Substitutions

A substitution binds type variables to types whose variables it may bind in
turn. Applying it puts in types until no bound variable is left
(`Subst.instantiate?`). That comes to an end unless a binding leads back to its own
variable, in which case there is no result; a variable bound to itself stands
for itself.

A chain of bindings that leads to no variable twice is no longer than the
number of bindings, so `resolve?` allows for one look-up more than that.
-/

namespace Clausal

/-- Bindings of type variables. -/
abbrev Subst := Assoc TypeVar Ty

namespace Ty

mutual

/-- The type with `f v` in the place of each variable `v`, if there is a type
    for each. -/
def mapVars? (f : TypeVar → Option Ty) : Ty → Option Ty
  | .var v => f v
  | .defined n ts => do return .defined n (← mapVarsList? f ts)
  | .tuple ts => do return .tuple (← mapVarsList? f ts)
  | .higherOrder k ts => do return .higherOrder k (← mapVarsList? f ts)

/-- The types with `f v` in the place of each variable `v`, if there is a type
    for each. -/
def mapVarsList? (f : TypeVar → Option Ty) : List Ty → Option (List Ty)
  | [] => some []
  | t :: ts => do
    let t ← mapVars? f t
    let ts ← mapVarsList? f ts
    return t :: ts

end

end Ty

namespace Subst

/-- What a variable stands for, found with at most `fuel` look-ups along each
    chain of bindings. -/
def resolve? (s : Subst) : (fuel : Nat) → TypeVar → Option Ty
  | 0, _ => none
  | fuel + 1, v =>
    match s.find? v with
    | none => some (.var v)
    | some t => if t = .var v then some t else t.mapVars? (s.resolve? fuel)

/-- The type with every bound variable replaced, in the replacements too. -/
def instantiate? (s : Subst) (t : Ty) : Option Ty := t.mapVars? (s.resolve? (s.entries.length + 1))

/-- The types with every bound variable replaced, in the replacements too. -/
def instantiateList? (s : Subst) (ts : List Ty) : Option (List Ty) :=
  Ty.mapVarsList? (s.resolve? (s.entries.length + 1)) ts

end Subst

end Clausal
