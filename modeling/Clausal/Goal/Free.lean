import Clausal.Goal.Basic

/-!
# Free variables

The variables that occur free in a goal: all that it mentions, except where
they are quantified inside it, by an existential scope, as locals of a
conditional or as arguments of a lambda expression.
-/

namespace Clausal

/-- The variables of a unification's right-hand side. -/
def UnifyRhs.vars : UnifyRhs → List ProgVar
  | .var v => [v]
  | .functor _ args => args

/-- The variables that only the kind of a unification mentions: the type-infos
    passed to a unification predicate. -/
def Unification.witnesses : Unification → List ProgVar
  | .complicated _ typeInfos => typeInfos
  | _ => []

/-- The variables that a call without a named callee needs to find its
    callee. -/
def GenericCallee.vars : GenericCallee → List ProgVar
  | .closure v => [v]
  | .insertion _ => []

/-- The variables that a scope hides. -/
def ScopeReason.hidden : ScopeReason → List ProgVar
  | .exist vs => vs
  | .promise _ => []

namespace Goal

mutual

/-- The variables that occur free in a goal. -/
def freeVars : Goal → VarSet
  | .conj _ _ gs | .disj _ gs => freeVarsList gs
  | .switch _ v _ arms => (freeVarsArms arms).insert v
  | .negation _ g => freeVars g
  | .ite _ locals c y n => (freeVars c ∪ freeVars y).eraseMany locals ∪ freeVars n
  | .scope _ r g => (freeVars g).eraseMany r.hidden
  | .call _ _ _ args => VarSet.ofList args
  | .genericCall _ p args _ => VarSet.ofList (p.vars ++ args)
  | .foreign _ f => VarSet.ofList (f.args.map (·.var) ++ f.extraArgs.map (·.var))
  | .unify _ lhs rhs k => VarSet.ofList (lhs :: rhs.vars ++ k.witnesses)
  | .lambda _ lhs head body k =>
    VarSet.ofList (lhs :: k.witnesses) ∪ (freeVars body).eraseMany head.args

/-- The variables that occur free in some goal of a list. -/
def freeVarsList : List Goal → VarSet
  | [] => ∅
  | g :: gs => freeVars g ∪ freeVarsList gs

/-- The variables that occur free in some arm of a switch. -/
def freeVarsArms : List (Symbol × Goal) → VarSet
  | [] => ∅
  | (_, g) :: arms => freeVars g ∪ freeVarsArms arms

end

/-- The variables that a lambda expression captures: those that occur free in
    its body and are not its arguments. -/
def capturedVars (head : LambdaHead) (body : Goal) : VarSet := body.freeVars.eraseMany head.args

theorem mem_freeVarsList {v : ProgVar} {gs : List Goal} :
    v ∈ freeVarsList gs ↔ ∃ g ∈ gs, v ∈ g.freeVars := by
  induction gs with
  | nil => simp [freeVarsList]
  | cons g gs ih => simp [freeVarsList, ih]

theorem mem_freeVarsArms {v : ProgVar} {arms : List (Symbol × Goal)} :
    v ∈ freeVarsArms arms ↔ ∃ arm ∈ arms, v ∈ arm.2.freeVars := by
  induction arms with
  | nil => simp [freeVarsArms]
  | cons arm arms ih => simp [freeVarsArms, ih]

/-- What is known of a goal has no part in which variables occur in it. -/
@[simp] theorem freeVars_setInfo (i : GoalInfo) (g : Goal) :
    (g.setInfo i).freeVars = g.freeVars := by
  cases g <;> simp [setInfo, freeVars]

end Goal

end Clausal
