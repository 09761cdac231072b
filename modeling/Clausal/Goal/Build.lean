import Clausal.Goal.Free

/-!
# Building goals

Functions that put goals together and work out what is known of the result:
determinism and purity are combined from the parts, the bound variables are
those that every reachable branch binds, and all free variables count as
visible outside until the procedure is quantified as a whole
(`Goal.requantify`).
-/

namespace Clausal

/-- What the callee of a call promises. -/
structure CallShape where
  determinism : Determinism := .det
  purity : Purity := .pure
deriving DecidableEq, Repr, Inhabited

namespace Goal

/-- The goal with all its free variables visible outside. -/
def exposeFree (g : Goal) : Goal := g.setNonlocals g.freeVars

/-- `true`. -/
def success (context : Context) : Goal := .conj { context } .plain []

/-- `fail`. -/
def failure (context : Context) : Goal :=
  .disj { context, determinism := .failure, unreachable := true } []

/-- What is known of goals that all have to succeed. -/
def sequentialInfo (gs : List Goal) (context : Context) : GoalInfo :=
  { context
    determinism := gs.foldl (fun d g => d.conjoin g.info.determinism) .det
    purity := gs.foldl (fun p g => p.worst g.info.purity) .pure
    bound := VarSet.unions (gs.map (·.info.bound))
    unreachable := gs.any (·.info.unreachable) }

/-- The variables that a branch binds, unless it never succeeds. -/
def branchBound (i : GoalInfo) : Option VarSet := if i.unreachable then none else some i.bound

/-- The variables bound whichever of two branches succeeds, where a branch
    that never succeeds has no say. -/
def commonBound : Option VarSet → Option VarSet → Option VarSet
  | none, s | s, none => s
  | some s, some t => some (s ∩ t)

/-- What is known of a goal that succeeds through one of several branches. -/
def setBranches (i : GoalInfo) (branches : List (Option VarSet)) : GoalInfo :=
  match branches.foldl commonBound none with
  | some s => { i with bound := s, unreachable := false }
  | none => { i with bound := ∅, unreachable := true }

/-- The conjuncts of a goal: those of a plain conjunction, or the goal
    itself. -/
def conjuncts : Goal → List Goal
  | .conj _ .plain gs => gs
  | g => [g]

/-- A conjunction. The conjuncts of conjunctions in the list become conjuncts
    of the result, and a single conjunct is the result itself. -/
def conjoin (gs : List Goal) (context : Context) : Goal :=
  match gs.flatMap conjuncts with
  | [g] => g
  | gs => exposeFree (.conj (sequentialInfo gs context) .plain gs)

/-- A conjunction whose conjuncts run at the same time. -/
def parallel (gs : List Goal) (context : Context) : Goal :=
  exposeFree (.conj (sequentialInfo gs context) .parallel gs)

/-- A disjunction. -/
def disjoin (gs : List Goal) (context : Context) : Goal :=
  if gs.isEmpty then failure context
  else
    let info : GoalInfo :=
      { context
        determinism := gs.foldl (fun d g => d.disjoin g.info.determinism) .failure
        purity := gs.foldl (fun p g => p.worst g.info.purity) .pure }
    exposeFree (.disj (setBranches info (gs.map fun g => branchBound g.info)) gs)

/-- A negation. It binds nothing. -/
def negate (g : Goal) (context : Context) : Goal :=
  exposeFree (.negation { context, determinism := .semidet, purity := g.info.purity } g)

/-- A conditional without local variables. -/
def ifThenElse (cond yes no : Goal) (context : Context) : Goal :=
  let canFail := yes.info.determinism.canFail || no.info.determinism.canFail
  let max := (cond.info.determinism.conjoin yes.info.determinism).maxSolutions.max
    no.info.determinism.maxSolutions
  let info : GoalInfo :=
    { context
      determinism := .ofParts canFail max
      purity := (cond.info.purity.worst yes.info.purity).worst no.info.purity }
  let yesBound := (branchBound yes.info).map (· ∪ cond.info.bound)
  exposeFree (.ite (setBranches info [yesBound, branchBound no.info]) [] cond yes no)

/-- A conditional with other local variables; what is known of it is kept. -/
def setLocals (locals : List ProgVar) : Goal → Goal
  | .ite i _ c y n => .ite i locals c y n
  | g => g

/-- The determinism of a choice between goals of which one is taken, if there
    is one. -/
def joinDeterminism : List Goal → Determinism
  | [] => .failure
  | g :: gs => gs.foldl (fun d g => d.join g.info.determinism) g.info.determinism

/-- A switch on the function symbol of a variable. -/
def switchOn (var : ProgVar) (arms : List (Symbol × Goal)) (canFail : Bool)
    (context : Context) : Goal :=
  let gs := arms.map Prod.snd
  let joined := joinDeterminism gs
  let info : GoalInfo :=
    { context
      determinism := if canFail then .ofParts true joined.maxSolutions else joined
      purity := gs.foldl (fun p g => p.worst g.info.purity) .pure }
  exposeFree
    (.switch (setBranches info (gs.map fun g => branchBound g.info)) var canFail arms)

/-- A goal in a scope of its own. -/
def within (reason : ScopeReason) (g : Goal) (context : Context) : Goal :=
  let purity :=
    match reason with
    | .promise purity => purity
    | .exist _ => g.info.purity
  exposeFree (.scope { g.info with context, purity } reason g)

/-- `var = symbol(args)`, where `var` is built. -/
def construct (var : ProgVar) (symbol : Symbol) (args : List ProgVar) (context : Context) : Goal :=
  exposeFree (.unify { context, bound := .singleton var } var (.functor symbol args)
    (.construct var symbol args))

/-- `var = symbol(args)`, where `var` is taken apart. -/
def deconstruct (var : ProgVar) (symbol : Symbol) (args : List ProgVar) (canFail : Bool)
    (context : Context) : Goal :=
  let determinism : Determinism := if canFail then .semidet else .det
  exposeFree (.unify { context, determinism, bound := .ofList args } var (.functor symbol args)
    (.deconstruct var symbol args canFail))

/-- `var = symbol(args)`, left to the unification predicate of the type. -/
def unifySymbol (var : ProgVar) (symbol : Symbol) (args : List ProgVar) (context : Context) :
    Goal :=
  exposeFree (.unify { context, determinism := .semidet, bound := .ofList args } var
    (.functor symbol args) (.complicated true []))

/-- `target := source`. -/
def assign (target source : ProgVar) (context : Context) : Goal :=
  exposeFree (.unify { context, bound := .singleton target } target (.var source)
    (.assign target source))

/-- `left == right`, of two bound values of an atomic type. -/
def test (left right : ProgVar) (context : Context) : Goal :=
  exposeFree (.unify { context, determinism := .semidet } left (.var right) (.test left right))

/-- `lhs = rhs`, left to the unification predicate of the type. -/
def unifyVars (lhs rhs : ProgVar) (context : Context) : Goal :=
  exposeFree (.unify { context, determinism := .semidet } lhs (.var rhs) (.complicated true []))

/-- `var = value`, of an integer. -/
def intConst (var : ProgVar) (value : Int) (context : Context) : Goal :=
  construct var (.int value) [] context

/-- `var = value`, of a string. -/
def stringConst (var : ProgVar) (value : String) (context : Context) : Goal :=
  construct var (.string value) [] context

/-- The unification of a variable with a lambda expression, whose captured
    variables are held in a tuple. -/
def constructLambda (var : ProgVar) (head : LambdaHead) (body : Goal) (context : Context) : Goal :=
  exposeFree (.lambda { context, bound := .singleton var } var head body
    (.construct var (.tuple head.captured.length) head.captured))

/-- The call of a procedure that binds `outputs`. -/
def callProc (callee : ProcRef) (name : SymName) (args outputs : List ProgVar) (shape : CallShape)
    (context : Context) : Goal :=
  exposeFree (.call
    { context
      determinism := shape.determinism
      purity := shape.purity
      bound := .ofList outputs
      unreachable := shape.determinism.maxSolutions == .zero }
    callee name args)

/-- The variables that are arguments of mode `out`. -/
def outputVars (args : List ProgVar) (modes : List Mode) : List ProgVar :=
  ((args.zip modes).filter (·.2 == .output)).map Prod.fst

/-- The run of a piece of foreign code. -/
def callForeign (code : ForeignCode) (shape : CallShape) (context : Context) : Goal :=
  let outputs := ((code.args ++ code.extraArgs).filter (·.mode == .output)).map (·.var)
  exposeFree (.foreign
    { context
      determinism := shape.determinism
      purity := shape.purity
      bound := .ofList outputs }
    code)

/-- A call without a named callee. -/
def callGeneric (callee : GenericCallee) (args : List ProgVar) (modes : List Mode)
    (shape : CallShape) (context : Context) : Goal :=
  exposeFree (.genericCall
    { context
      determinism := shape.determinism
      purity := shape.purity
      bound := .ofList (outputVars args modes) }
    callee args modes)

/-- A goal with other goals in front of it that set up some of its variables.
    Those are no longer visible outside; what else the other goals need is. -/
def withSetup (setup : List Goal) (g : Goal) : Goal :=
  if setup.isEmpty then g
  else
    let needs := VarSet.unions (setup.map (·.info.nonlocals))
    let bound := VarSet.unions (setup.map (·.info.bound))
    (conjoin (setup ++ [g]) g.info.context).setNonlocals ((g.info.nonlocals ∪ needs) \ bound)

end Goal

end Clausal
