import Clausal.Class

/-!
# Faults

Why a pass gives up. A *breach* is a broken promise of an earlier pass: the
program should not have come this far. It names the predicate that was being
worked on. The other faults are references to things that do not exist, and
work that has no end.
-/

namespace Clausal

/-- A broken promise of an earlier pass. Constraints and type variables are
    given with the scope they are to be read in. -/
inductive Breach where
  /-- Discharging the constraint leads back to it. -/
  | cyclicProof (scope : TypeScope) (constraint : Constraint)
  /-- The constraint is neither a parameter nor proved. -/
  | noProof (scope : TypeScope) (constraint : Constraint)
  | noInstance (number : Nat) (cls : ClassId)
  | noClass (cls : ClassId)
  /-- The instance that proves a constraint is one for other types. -/
  | instanceMismatch (number : Nat) (cls : ClassId) (scope : TypeScope) (constraint : Constraint)
      (error : MatchError)
  /-- The constraint is no superclass constraint of the one said to have it
      as such. -/
  | notSuperclass (scope : TypeScope) (constraint sub : Constraint)
  /-- A type variable has its type-info nowhere. -/
  | buriedTypeVar (scope : TypeScope) (v : TypeVar) (constraint : Constraint)
  /-- A tuple is inserted into no relation. -/
  | noRelationState
  /-- A closure of the described predicate is bound to a variable of a type
      without arguments. -/
  | firstOrderClosure (callee varName : String)
  | closureTooLong (callee : String)
  /-- The arguments of a constructor have other types than declared. -/
  | ctorMismatch (name : SymName) (error : MatchError)
  /-- The arguments of a call have other types than the callee declares. -/
  | callMismatch (callee : String) (error : MatchError)
  /-- The head variables have other types than declared. -/
  | headMismatch (error : MatchError)
  /-- The type of a variable has one value, but no constant. -/
  | noDummyConstant (var : ProgVar)
deriving DecidableEq, Repr

/-- What is wrong, for the reader of a message. -/
def Breach.message : Breach → String
  | .cyclicProof s c => "cyclic proof for constraint " ++ c.render s
  | .noProof s c => "no witness or proof for constraint " ++ c.render s
  | .noInstance n cls => "instance " ++ toString n ++ " of " ++ cls.render ++ " does not exist"
  | .noClass cls => "class " ++ cls.render ++ " does not exist"
  | .instanceMismatch n cls s c e =>
    "instance " ++ toString n ++ " of " ++ cls.render ++ " does not match " ++ c.render s ++ ": " ++
      e.message
  | .notSuperclass s c sub => c.render s ++ " is not a superclass of " ++ sub.render s
  | .buriedTypeVar s v c =>
    "type variable " ++ s.varName v ++ " of constraint " ++ c.render s ++
      " occurs only inside a non-variable argument"
  | .noRelationState => "tuple insertion without a relation state"
  | .firstOrderClosure callee var =>
    "closure of " ++ callee ++ " assigned to " ++ var ++ " of a first-order type"
  | .closureTooLong callee => "closure of " ++ callee ++ " has too many arguments"
  | .ctorMismatch n e =>
    "arguments of " ++ n.render ++ " do not match its declaration: " ++ e.message
  | .callMismatch callee e =>
    "call of " ++ callee ++ " does not match its declaration: " ++ e.message
  | .headMismatch e => "head types do not match the declaration: " ++ e.message
  | .noDummyConstant v => "no constant for dummy type of " ++ v.render

/-- Why a pass gives up. -/
inductive Fault where
  /-- A broken promise, found in the described predicate. -/
  | breach (pred : String) (cause : Breach)
  /-- The variable is not in the variable table. -/
  | noVar (var : ProgVar)
  /-- The module has no such procedure. -/
  | noProc (proc : ProcRef)
  /-- The class has no such parameter. -/
  | noClassParam (index : Nat)
  /-- A procedure has fewer arguments than are made use of. -/
  | noArgument (index : Nat)
  /-- Type equivalences, bindings or instances build on each other without
      end. -/
  | endless
deriving DecidableEq, Repr

/-- The message about a breach. The other faults are not put into words. -/
def Fault.message? : Fault → Option String
  | .breach pred cause => some ("internal compiler error in " ++ pred ++ ": " ++ cause.message)
  | _ => none

end Clausal
