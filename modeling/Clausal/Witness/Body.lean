import Clausal.Witness.Signature

/-!
# Witnesses in bodies

A body is rebuilt goal by goal. Calls, foreign code, tuple insertions and
unifications with constructors that quantify types get witness arguments, with
the goals that bind them in front; a closure of a predicate that takes
witnesses becomes a lambda expression that calls it. A compound goal shares
with the outside those witnesses of the whole body that its parts have come to
refer to (`Synth.absorb`).
-/

namespace Clausal

namespace Synth

/-- The variables together with the witnesses of the whole body that a part of
    the goal shares with its outside. -/
def absorb (vars : VarSet) (part : Goal) : Synth VarSet := do
  let s ← get
  return vars ∪ part.info.nonlocals.filter s.isOuterWitness

/-- What is known of a goal that has come to refer to witnesses and to bind
    some of them. -/
def addWitnesses (info : GoalInfo) (vars outputs : List ProgVar) : GoalInfo :=
  { info with
    nonlocals := info.nonlocals.insertMany vars
    bound := info.bound.insertMany outputs }

/-- A call with its witnesses. -/
def callGoal (env : WitnessEnv) (info : GoalInfo) (callee : ProcRef) (name : SymName)
    (args : List ProgVar) : Synth Goal := do
  let pred ← env.env.pred callee.pred
  if pred.witnessCount = 0 then return .call info callee name args
  let w ← callWitnesses env pred args info.context
  return .withSetup w.setup
    (.call (addWitnesses info w.vars w.outputs) callee name (w.vars ++ args))

/-- A call without a named callee, with its witnesses: closures have theirs
    inside, and the insertion of a tuple takes the type-infos of its values. -/
def genericGoal (env : WitnessEnv) (info : GoalInfo) (callee : GenericCallee)
    (args : List ProgVar) (modes : List Mode) : Synth Goal :=
  match callee with
  | .closure _ => return .genericCall info callee args modes
  | .insertion _ => do
    if args.length < 2 then breach env .noRelationState
    let types ← varTypes (args.take (args.length - 2))
    let (infos, setup) ← typeInfos info.context types
    return .withSetup setup
      (.genericCall (addWitnesses info infos []) callee (infos ++ args)
        (infos.map (fun _ => .input) ++ modes))

/-- Foreign code with its witnesses. -/
def foreignGoal (env : WitnessEnv) (info : GoalInfo) (code : ForeignCode) : Synth Goal := do
  let pred ← env.env.pred code.callee.pred
  if pred.witnessCount = 0 then return .foreign info code
  let w ← callWitnesses env pred (code.args.map (·.var)) info.context
  let args := (w.vars.zip w.foreignNames).map fun (var, name) =>
    ForeignArg.mk var (some name) (if w.outputs.contains var then .output else .input)
  return .withSetup w.setup
    (.foreign (addWitnesses info w.vars w.outputs) { code with args := args ++ code.args })

/-- The lambda expression that a closure of a procedure, with some arguments
    captured, stands for: one that calls the procedure. -/
def closureLambda (env : WitnessEnv) (var : ProgVar) (callee : ProcRef) (captured : List ProgVar) :
    Synth (LambdaHead × List ProgVar × SymName) := do
  let (pred, proc) ← env.env.proc callee
  let vars := (← get).vars
  let .higherOrder kind argTypes ← vars.type var
    | breach env (.firstOrderClosure pred.describe (← vars.name var))
  let args ← argTypes.zipIdx.mapM fun (t, i) => newVar ("LambdaArg" ++ toString (i + 1)) t
  if proc.modes.length < args.length then breach env (.closureTooLong pred.describe)
  let modes := proc.modes.drop (proc.modes.length - args.length)
  return ({ kind, captured, args, modes, determinism := proc.determinism },
    Goal.outputVars args modes, pred.symName)

/-- A lambda expression whose body has got its witnesses: it captures those
    that the body has come to refer to. -/
def lambdaGoal (info : GoalInfo) (lhs : ProgVar) (head : LambdaHead) (body : Goal)
    (kind : Unification) : Synth Goal := do
  let s ← get
  let new := body.freeVars.toList.filter fun v =>
    !head.args.contains v && !head.captured.contains v && s.isOuterWitness v
  let captured := head.captured ++ new
  return .lambda (addWitnesses info captured []) lhs { head with captured } body kind

/-- The witnesses that the construction of a value holds: those of the types
    that its arguments have. -/
def produceCellWitnesses (env : WitnessEnv) (types : List Ty) (constraints : List Constraint)
    (context : Context) : Synth (List ProgVar × List Goal) := do
  let (infos, goals₁) ← typeInfos context types
  let (dicts, goals₂) ← dictionaries env context constraints
  return (infos ++ dicts, goals₁ ++ goals₂)

/-- New variables for the witnesses that a value is found to hold. They are on
    record as the witnesses of the types that the arguments have. -/
def consumeCellWitnesses (env : WitnessEnv) (types : List Ty) (constraints : List Constraint) :
    Synth (List ProgVar) := do
  let infos ← types.mapM fun t => do
    match t with
    | .var v =>
      let var ← newTypeInfo ((← get).scope.varName v)
      addTypeInfo v (.direct var)
      return var
    | _ => newTypeInfo "exist"
  let dicts ← constraints.mapM fun c => do
    let var ← newDictionary c.className.name
    recordDictionary env c var
    return var
  return infos ++ dicts

/-- The unification with more arguments in front of those of its
    constructor. -/
def addCellArgs (extra : List ProgVar) : Unification → Unification
  | .construct v s args => .construct v s (extra ++ args)
  | .deconstruct v s args canFail => .deconstruct v s (extra ++ args) canFail
  | k => k

/-- The unification with a constructor, with the witnesses of the types that
    the constructor quantifies. -/
def consGoal (env : WitnessEnv) (info : GoalInfo) (lhs : ProgVar) (name : SymName) (arity : Nat)
    (args : List ProgVar) (kind : Unification) : Synth Goal := do
  let lhsType ← (← get).vars.type lhs
  let unchanged := Goal.unify info lhs (.functor (.cons name arity) args) kind
  let some (defn, ctor) := env.env.findCtor? lhsType name arity | return unchanged
  if ctor.existVars.isEmpty && ctor.constraints.isEmpty then return unchanged
  let shift ← renameApart defn.scope
  let general := defn.params.map (fun v => Ty.var (shift.apply v)) ++ ctor.args.map (·.shift shift)
  let specific := lhsType.args ++ (← varTypes args)
  let subst ←
    match Subst.ofMatch general specific with
    | .ok subst => pure subst
    | .error e => breach env (.ctorMismatch ctor.name e)
  let constraints ← ofOption (ctor.constraints.mapM fun c => (c.shift shift).subst? subst)
  let constrained := Constraint.typeVarsList ctor.constraints
  let types ← ofOption ((ctor.existVars.filter fun v => !constrained.contains v).mapM fun v =>
    subst.instantiate? (.var (shift.apply v)))
  let (extra, outputs, setup) ←
    match kind with
    | .construct .. => do
      let (extra, setup) ← produceCellWitnesses env types constraints info.context
      pure (extra, [], setup)
    | _ => do
      let extra ← consumeCellWitnesses env types constraints
      pure (extra, extra, [])
  return .withSetup setup
    (.unify (addWitnesses info extra outputs) lhs (.functor (.cons name arity) (extra ++ args))
      (addCellArgs extra kind))

/-- A unification with its witnesses. -/
def unifyGoal (env : WitnessEnv) (info : GoalInfo) (lhs : ProgVar) (rhs : UnifyRhs)
    (kind : Unification) : Synth Goal := do
  match rhs, kind with
  | .var _, .complicated canFail _ =>
    let t ← (← get).vars.type lhs
    let infos ← t.typeVars.mapM typeVarHolder
    return .unify (addWitnesses info infos []) lhs rhs (.complicated canFail infos)
  | .var _, _ => return .unify info lhs rhs kind
  | .functor (.closure callee) args, _ =>
    let pred ← env.env.pred callee.pred
    if pred.witnessCount = 0 then return .unify info lhs rhs kind
    let (head, outputs, name) ← closureLambda env lhs callee args
    let callArgs := args ++ head.args
    let body := Goal.callProc callee name callArgs outputs { determinism := head.determinism }
      info.context
    lambdaGoal info lhs head (← callGoal env body.info callee name callArgs) kind
  | .functor (.cons name arity) args, _ => consGoal env info lhs name arity args kind
  | .functor _ _, _ => return .unify info lhs rhs kind

mutual

/-- A goal with its witnesses. -/
def goal (env : WitnessEnv) : Goal → Synth Goal
  | .conj info kind gs => do
    let (gs, nonlocals) ← goals env info.nonlocals gs
    let gs := if kind = .plain then gs.flatMap Goal.conjuncts else gs
    return .conj { info with nonlocals } kind gs
  | .disj info gs => do
    let (gs, nonlocals) ← goals env info.nonlocals gs
    return .disj { info with nonlocals } gs
  | .switch info v canFail cases => do
    let (cases, nonlocals) ← arms env info.nonlocals cases
    return .switch { info with nonlocals } v canFail cases
  | .negation info g => do
    let g ← goal env g
    return .negation { info with nonlocals := ← absorb info.nonlocals g } g
  | .ite info locals c y n => do
    let c ← goal env c
    let nonlocals ← absorb info.nonlocals c
    let y ← goal env y
    let nonlocals ← absorb nonlocals y
    let n ← goal env n
    return .ite { info with nonlocals := ← absorb nonlocals n } locals c y n
  | .scope info reason g => do
    let g ← goal env g
    return .scope { info with nonlocals := ← absorb info.nonlocals g } reason g
  | .call info callee name args => callGoal env info callee name args
  | .genericCall info callee args modes => genericGoal env info callee args modes
  | .foreign info code => foreignGoal env info code
  | .unify info lhs rhs kind => unifyGoal env info lhs rhs kind
  | .lambda info lhs head body kind => do
    let body ← goal env body
    lambdaGoal info lhs head body kind

/-- Goals with their witnesses, and the variables together with the witnesses
    that the goals share with their outside. -/
def goals (env : WitnessEnv) (vars : VarSet) : List Goal → Synth (List Goal × VarSet)
  | [] => pure ([], vars)
  | g :: gs => do
    let g ← goal env g
    let vars ← absorb vars g
    let (gs, vars) ← goals env vars gs
    return (g :: gs, vars)

/-- The arms of a switch with their witnesses, and the variables together with
    the witnesses that the arms share with their outside. -/
def arms (env : WitnessEnv) (vars : VarSet) :
    List (Symbol × Goal) → Synth (List (Symbol × Goal) × VarSet)
  | [] => pure ([], vars)
  | (s, g) :: rest => do
    let g ← goal env g
    let vars ← absorb vars g
    let (rest, vars) ← arms env vars rest
    return ((s, g) :: rest, vars)

end

section

-- The equations are proved here, before several proofs ask for them at once.
attribute [local simp] goal goals arms

end

end Synth

end Clausal
