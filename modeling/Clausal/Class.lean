import Clausal.Ty.Text

/-!
# Type classes

A class constrains types; a constraint is discharged by a *dictionary*, the
run-time witness that the types are an instance of the class. How to come by
the dictionary of a constraint that is not a parameter is recorded in advance
by a proof: by an instance declaration, or out of the dictionary of a
constraint whose class has this one as a superclass.
-/

namespace Clausal

/-- A class: its name and the number of its parameters. -/
structure ClassId where
  name : SymName
  arity : Nat
deriving DecidableEq, Repr, Inhabited

def ClassId.render (c : ClassId) : String := c.name.render ++ "/" ++ toString c.arity

/-- A class applied to the types it constrains. -/
structure Constraint where
  className : SymName
  args : List Ty
deriving Repr, Inhabited

namespace Constraint

/-- The types are compared first: the constraints met in one place are mostly
    of one class. -/
instance : DecidableEq Constraint := fun c d =>
  decidable_of_iff (c.args = d.args ∧ c.className = d.className) <| by
    cases c; cases d; simp [and_comm]

def classId (c : Constraint) : ClassId := ⟨c.className, c.args.length⟩

/-- The type variables in the order of their first occurrence. -/
def typeVars (c : Constraint) : List TypeVar := Ty.typeVarsList c.args

/-- The type variables of several constraints, in the order of their first
    occurrence. -/
def typeVarsList (cs : List Constraint) : List TypeVar :=
  Ty.typeVarsList (cs.flatMap args)

def shift (r : Shift) (c : Constraint) : Constraint := ⟨c.className, c.args.map (·.shift r)⟩

/-- The constraint with every bound variable replaced (see `Subst.instantiate?`). -/
def subst? (s : Subst) (c : Constraint) : Option Constraint := do
  return ⟨c.className, ← s.instantiateList? c.args⟩

def render (s : TypeScope) (c : Constraint) : String :=
  c.className.name ++ "(" ++ commas (c.args.map s.render) ++ ")"

end Constraint

/-- How a constraint is discharged. -/
inductive ConstraintProof where
  /-- By the instance of its class with this number. -/
  | byInstance (number : Nat)
  /-- Out of the dictionary of a constraint of which it is a superclass
      constraint. -/
  | bySuperclass (sub : Constraint)
deriving DecidableEq, Repr, Inhabited

namespace ConstraintProof

def shift (r : Shift) : ConstraintProof → ConstraintProof
  | .byInstance n => .byInstance n
  | .bySuperclass c => .bySuperclass (c.shift r)

def subst? (s : Subst) : ConstraintProof → Option ConstraintProof
  | .byInstance n => some (.byInstance n)
  | .bySuperclass c => do return .bySuperclass (← c.subst? s)

end ConstraintProof

/-- The recorded proofs, by the constraint they discharge. -/
abbrev ProofMap := Assoc Constraint ConstraintProof

namespace ProofMap

def shift (r : Shift) (m : ProofMap) : ProofMap :=
  Assoc.ofList (m.toList.map fun e => (e.1.shift r, e.2.shift r))

def subst? (s : Subst) (m : ProofMap) : Option ProofMap := do
  let es ← m.toList.mapM fun e => do return (← e.1.subst? s, ← e.2.subst? s)
  return Assoc.ofList es

end ProofMap

/-- The constraints of a declaration: those its callers discharge and those it
    discharges for them. -/
structure ClassContext where
  universal : List Constraint := []
  existential : List Constraint := []
deriving DecidableEq, Repr, Inhabited

/-- The declaration of a class. -/
structure ClassDefn where
  params : List TypeVar
  /-- The superclass constraints. A dictionary of the class holds theirs in
      this order. -/
  supers : List Constraint
  scope : TypeScope
deriving DecidableEq, Repr, Inhabited

/-- The declaration of an instance. -/
structure InstanceDefn where
  /-- The module that declares it. -/
  owner : SymName
  /-- The constraints under which the instance holds. -/
  constraints : List Constraint
  types : List Ty
  scope : TypeScope
  /-- How the superclass constraints of the class are discharged at the types
      of the instance. -/
  proofs : ProofMap
deriving DecidableEq, Inhabited

end Clausal
