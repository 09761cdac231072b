import Clausal.Witness.Dictionary

/-!
# Witnesses in signatures and calls

A procedure takes its witnesses in front of its declared arguments:

* the dictionaries of its universal constraints (inputs),
* the dictionaries of its existential constraints (outputs),
* the type-infos of the universal type variables that no constraint carries
  (inputs),
* and those of the existential ones (outputs).

Declaration and call work out this list independently, both from
`Predicate.bareTypeVars`.
-/

namespace Clausal

namespace Predicate

/-- The type variables of the arguments that no constraint carries a type-info
    for: the universal and the existential ones. -/
def bareTypeVars (p : Predicate) : List TypeVar × List TypeVar :=
  let constrained := Constraint.typeVarsList p.constraints.universal ++
    Constraint.typeVarsList p.constraints.existential
  let bare := (Ty.typeVarsList p.argTypes).filter fun v => !constrained.contains v
  let (existential, universal) := bare.partition fun v => p.existVars.contains v
  (universal, existential)

/-- The number of witnesses that the procedures of a predicate take. -/
def witnessCount (p : Predicate) : Nat :=
  if p.isExempt then 0
  else
    p.constraints.universal.length + p.constraints.existential.length +
      p.bareTypeVars.1.length + p.bareTypeVars.2.length

/-- What foreign code calls the witnesses, in order. -/
def foreignWitnessNames (p : Predicate) : List String :=
  let dictionary (c : Constraint) :=
    String.join (("TypeClassInfo_for_" ++ c.className.name) ::
      c.typeVars.map fun v => "_" ++ p.scope.varName v)
  let typeInfo (v : TypeVar) := "TypeInfo_for_" ++ p.scope.varName v
  (p.constraints.universal ++ p.constraints.existential).map dictionary ++
    (p.bareTypeVars.1 ++ p.bareTypeVars.2).map typeInfo

end Predicate

/-- The head of a procedure with its witnesses. -/
structure WitnessHead where
  head : List ProgVar
  modes : List Mode
  /-- The witnesses that the body has to bind. -/
  existDictionaries : List ProgVar
  existTypeInfos : List ProgVar
  /-- The type variables of those type-infos. -/
  existVars : List TypeVar
deriving DecidableEq, Repr, Inhabited

/-- The witnesses of a call. -/
structure CallWitnesses where
  vars : List ProgVar
  /-- The goals that bind those which the call takes. -/
  setup : List Goal
  /-- Those which the call binds. -/
  outputs : List ProgVar
  /-- What foreign code calls them, in order. -/
  foreignNames : List String
deriving Inhabited

namespace Synth

/-- Every type variable of a constraint on the head has its type-info
    somewhere: dictionaries only carry those of their arguments. -/
def checkLocated (env : WitnessEnv) (cs : List Constraint) : Synth Unit := do
  let s ← get
  for c in cs do
    for v in c.typeVars do
      if !s.witnesses.typeInfos.contains v then breach env (.buriedTypeVar s.scope v c)

/-- Gives the head of a procedure its witnesses. -/
def setupHead (env : WitnessEnv) (pred : Predicate) (proc : Procedure) : Synth WitnessHead := do
  let (univVars, existVars) := pred.bareTypeVars
  let existDictionaries ← pred.constraints.existential.mapM fun c => newDictionary c.className.name
  let univDictionaries ← pred.constraints.universal.mapM fun c => do
    let var ← newDictionary c.className.name
    recordDictionary env c var
    return var
  checkLocated env pred.constraints.universal
  let univTypeInfos ← univVars.mapM fun v => do
    let var ← newTypeInfo ((← get).scope.varName v)
    putTypeInfo v (.direct var)
    return var
  let existTypeInfos ← existVars.mapM fun v => do newTypeInfo ((← get).scope.varName v)
  let witnesses := univDictionaries ++ existDictionaries ++ univTypeInfos ++ existTypeInfos
  modify fun s => { s with headWitnesses := s.headWitnesses.insertMany witnesses }
  let all (mode : Mode) (vs : List ProgVar) := vs.map fun _ => mode
  return {
    head := witnesses ++ proc.head
    modes := all .input univDictionaries ++ all .output existDictionaries ++
      all .input univTypeInfos ++ all .output existTypeInfos ++ proc.modes
    existDictionaries, existTypeInfos, existVars }

/-- The witnesses that a predicate needs when it is called with `args`. What
    the call binds is on record for all that follows. -/
def callWitnesses (env : WitnessEnv) (callee : Predicate) (args : List ProgVar)
    (context : Context) : Synth CallWitnesses := do
  let shift ← renameApart callee.scope
  let actual ← varTypes args
  let subst ←
    match Subst.ofMatch (callee.argTypes.map (·.shift shift)) actual with
    | .ok subst => pure subst
    | .error e => breach env (.callMismatch callee.describe e)
  let instantiate (c : Constraint) : Synth Constraint := ofOption ((c.shift shift).subst? subst)
  let instantiateVar (v : TypeVar) : Synth Ty :=
    ofOption (subst.instantiate? (.var (shift.apply v)))
  let (univVars, existVars) := callee.bareTypeVars
  let (univDictionaries, goals₁) ←
    dictionaries env context (← callee.constraints.universal.mapM instantiate)
  let existConstraints ← callee.constraints.existential.mapM instantiate
  let existDictionaries ← existConstraints.mapM fun c => newDictionary c.className.name
  let (univTypeInfos, goals₂) ← typeInfos context (← univVars.mapM instantiateVar)
  let existTypes ← existVars.mapM instantiateVar
  let existTypeInfos ← existVars.mapM fun v => newTypeInfo (callee.scope.varName v)
  for (c, var) in existConstraints.zip existDictionaries do
    recordDictionary env c var
  for (t, var) in existTypes.zip existTypeInfos do
    match t with
    | .var v => addTypeInfo v (.direct var)
    | _ => pure ()
  return {
    vars := univDictionaries ++ existDictionaries ++ univTypeInfos ++ existTypeInfos
    setup := goals₁ ++ goals₂
    outputs := existDictionaries ++ existTypeInfos
    foreignNames := callee.foreignWitnessNames }

/-- The goals that bind the existential witnesses of a procedure, from the
    types that its body gives to its arguments. They come after the body. -/
def produceExistentials (env : WitnessEnv) (pred : Predicate) (declaredHead : List ProgVar)
    (head : WitnessHead) (context : Context) : Synth (List Goal) := do
  if pred.constraints.existential.isEmpty && head.existVars.isEmpty then return []
  let actual ← varTypes declaredHead
  let subst ←
    match Subst.ofMatch pred.argTypes actual, pred.origin with
    | .ok subst, _ => pure subst
    -- The unification predicate of a name for a type sees what it stands for.
    | .error _, .unification _ => pure (∅ : Subst)
    | .error e, _ => breach env (.headMismatch e)
  let constraints ← ofOption (pred.constraints.existential.mapM (·.subst? subst))
  let (dicts, goals₁) ← dictionaries env context constraints
  let types ← ofOption (head.existVars.mapM fun v => subst.instantiate? (.var v))
  let (infos, goals₂) ← typeInfos context types
  let assigns (targets sources : List ProgVar) :=
    (targets.zip sources).map fun (target, source) => Goal.assign target source context
  return goals₁ ++ assigns head.existDictionaries dicts ++ goals₂ ++
    assigns head.existTypeInfos infos

end Synth

end Clausal
