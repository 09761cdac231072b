import Clausal.Symbol
import Clausal.VarSet

/-!
# Goals

The body of a procedure is a goal. Every goal carries what is known of it
(`GoalInfo`): the variables it shares with the outside, those it binds,
whether it can succeed at all, its determinism and purity, and where it comes
from.

The direct subgoals of a goal are numbered (`Goal.child?`), and a path of such
numbers leads to a goal inside (`Goal.descendant?`). The body of a lambda
expression is not a subgoal.
-/

namespace Clausal

/-- What is known of a goal. -/
structure GoalInfo where
  /-- The variables that are visible outside. -/
  nonlocals : VarSet := ∅
  /-- The variables that are bound when the goal succeeds. -/
  bound : VarSet := ∅
  /-- Whether the goal never succeeds. -/
  unreachable : Bool := false
  determinism : Determinism := .det
  purity : Purity := .pure
  context : Context := {}
deriving DecidableEq, Inhabited

inductive ConjKind where
  | plain | parallel
deriving DecidableEq, Repr, Inhabited

/-- Why a goal is in a scope of its own. -/
inductive ScopeReason where
  /-- Variables are quantified existentially. -/
  | exist (vars : List ProgVar)
  /-- The goal is promised to be of this purity. -/
  | promise (purity : Purity)
deriving DecidableEq, Repr, Inhabited

/-- What a call without a named callee calls. -/
inductive GenericCallee where
  /-- The closure held by a variable. -/
  | closure (var : ProgVar)
  /-- The insertion of a tuple into a relation. The arguments are the values
      of the tuple and then the old and the new state. -/
  | insertion (relation : ProcRef)
deriving DecidableEq, Repr, Inhabited

/-- What foreign code says about being tabled for I/O. -/
inductive IoTabling where
  | notTabled | tabled | unitize | descendant
deriving DecidableEq, Repr, Inhabited

def IoTabling.render : IoTabling → String
  | .notTabled => "not_tabled_for_io"
  | .tabled => "tabled_for_io"
  | .unitize => "tabled_for_io_unitize"
  | .descendant => "tabled_for_descendant_io"

/-- An argument of foreign code. -/
structure ForeignArg where
  var : ProgVar
  /-- What the foreign code calls it. -/
  name : Option String
  mode : Mode
deriving DecidableEq, Repr, Inhabited

/-- A piece of foreign code with its arguments. -/
structure ForeignCode where
  callee : ProcRef
  /-- What the code says about being tabled for I/O, if it says anything. -/
  ioTabling : Option IoTabling := none
  /-- Whether the code may call back. -/
  mayCall : Bool := false
  args : List ForeignArg
  /-- Arguments of the code that are none of the callee's. -/
  extraArgs : List ForeignArg := []
  code : String
deriving DecidableEq, Repr, Inhabited

/-- The right-hand side of a unification. -/
inductive UnifyRhs where
  | var (v : ProgVar)
  | functor (symbol : Symbol) (args : List ProgVar)
deriving DecidableEq, Repr, Inhabited

/-- What a unification does when it is run. -/
inductive Unification where
  /-- Builds a value. -/
  | construct (var : ProgVar) (symbol : Symbol) (args : List ProgVar)
  /-- Takes a value apart. -/
  | deconstruct (var : ProgVar) (symbol : Symbol) (args : List ProgVar) (canFail : Bool)
  | assign (target source : ProgVar)
  /-- Compares two values of an atomic type. -/
  | test (left right : ProgVar)
  /-- Calls the unification predicate of the type, which takes these
      type-infos. -/
  | complicated (canFail : Bool) (typeInfos : List ProgVar)
deriving DecidableEq, Repr, Inhabited

/-- A lambda expression without its body. -/
structure LambdaHead where
  purity : Purity := .pure
  kind : CallableKind := .predicate
  /-- The variables captured from outside. -/
  captured : List ProgVar
  args : List ProgVar
  modes : List Mode
  determinism : Determinism
deriving DecidableEq, Repr, Inhabited

inductive Goal where
  | conj (info : GoalInfo) (kind : ConjKind) (goals : List Goal)
  | disj (info : GoalInfo) (goals : List Goal)
  /-- A choice by the function symbol of a bound variable. -/
  | switch (info : GoalInfo) (var : ProgVar) (canFail : Bool) (arms : List (Symbol × Goal))
  | negation (info : GoalInfo) (goal : Goal)
  /-- A conditional. The local variables are quantified over the condition and
      the first branch. -/
  | ite (info : GoalInfo) (locals : List ProgVar) (cond yes no : Goal)
  | scope (info : GoalInfo) (reason : ScopeReason) (goal : Goal)
  | call (info : GoalInfo) (callee : ProcRef) (name : SymName) (args : List ProgVar)
  | genericCall (info : GoalInfo) (callee : GenericCallee) (args : List ProgVar) (modes : List Mode)
  | foreign (info : GoalInfo) (code : ForeignCode)
  | unify (info : GoalInfo) (lhs : ProgVar) (rhs : UnifyRhs) (kind : Unification)
  /-- The unification of a variable with a lambda expression. -/
  | lambda (info : GoalInfo) (lhs : ProgVar) (head : LambdaHead) (body : Goal) (kind : Unification)
deriving Inhabited

namespace Goal

/-- What is known of a goal. -/
def info : Goal → GoalInfo
  | .conj i _ _ | .disj i _ | .switch i _ _ _ | .negation i _ | .ite i _ _ _ _ | .scope i _ _
  | .call i _ _ _ | .genericCall i _ _ _ | .foreign i _ | .unify i _ _ _ | .lambda i _ _ _ _ => i

/-- The same goal with something else known of it. -/
def setInfo (i : GoalInfo) : Goal → Goal
  | .conj _ k gs => .conj i k gs
  | .disj _ gs => .disj i gs
  | .switch _ v f arms => .switch i v f arms
  | .negation _ g => .negation i g
  | .ite _ l c y n => .ite i l c y n
  | .scope _ r g => .scope i r g
  | .call _ p n as => .call i p n as
  | .genericCall _ p as ms => .genericCall i p as ms
  | .foreign _ f => .foreign i f
  | .unify _ l r k => .unify i l r k
  | .lambda _ l h b k => .lambda i l h b k

/-- The same goal with other non-local variables. -/
def setNonlocals (vars : VarSet) (g : Goal) : Goal := g.setInfo { g.info with nonlocals := vars }

@[simp] theorem info_setInfo (i : GoalInfo) (g : Goal) : (g.setInfo i).info = i := by
  cases g <;> rfl

@[simp] theorem setInfo_info (g : Goal) : g.setInfo g.info = g := by
  cases g <;> rfl

/-- The direct subgoals, in order. -/
def children : Goal → List Goal
  | .conj _ _ gs | .disj _ gs => gs
  | .switch _ _ _ arms => arms.map Prod.snd
  | .negation _ g | .scope _ _ g => [g]
  | .ite _ _ c y n => [c, y, n]
  | .call .. | .genericCall .. | .foreign .. | .unify .. | .lambda .. => []

/-- The direct subgoal with the given number. -/
def child? (g : Goal) (i : Nat) : Option Goal := g.children[i]?

/-- The goal that a path leads to. -/
def descendant? (g : Goal) : List Nat → Option Goal
  | [] => some g
  | i :: path => do (← g.child? i).descendant? path

/-- The goal with another direct subgoal in the place of number `i`. -/
def setChild (g : Goal) (i : Nat) (new : Goal) : Goal :=
  match g with
  | .conj info k gs => .conj info k (gs.set i new)
  | .disj info gs => .disj info (gs.set i new)
  | .switch info v f arms =>
    .switch info v f (arms.zipIdx.map fun (arm, j) => if j = i then (arm.1, new) else arm)
  | .negation info g => .negation info (if i = 0 then new else g)
  | .scope info r g => .scope info r (if i = 0 then new else g)
  | .ite info l c y n =>
    .ite info l (if i = 0 then new else c) (if i = 1 then new else y) (if i = 2 then new else n)
  | g => g

/-- The goal with `f` applied to the goal that a path leads to. -/
def modifyAt? (f : Goal → Option Goal) (g : Goal) : List Nat → Option Goal
  | [] => f g
  | i :: path => do return g.setChild i (← (← g.child? i).modifyAt? f path)

end Goal

end Clausal
