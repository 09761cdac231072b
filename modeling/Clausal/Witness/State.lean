import Clausal.Module.Declare

/-!
# The state of witness passing

Making the witnesses of one procedure explicit adds variables to its table,
type variables to its scope and entries to its witness map (`WitnessState`);
the module, and the procedure's other properties, are only read
(`WitnessEnv`).

What needs a witness gets the variable that holds it, together with the goals
that bind the variable; the goals are put right before the goal that is in
need (`Goal.withSetup`).
-/

namespace Clausal

/-- What is read while the witnesses of a procedure are made explicit. -/
structure WitnessEnv where
  env : Module
  /-- The predicate that is worked on, described. -/
  pred : String

/-- What changes while the witnesses of a procedure are made explicit. -/
structure WitnessState where
  vars : VarTable
  scope : TypeScope
  witnesses : WitnessMap := {}
  proofs : ProofMap := ∅
  /-- The witnesses that the head of the procedure binds. -/
  headWitnesses : VarSet := ∅

/-- A step in making witnesses explicit. -/
abbrev Synth := StateT WitnessState (Except Fault)

/-- Whether a variable is a witness that the whole body can refer to. -/
def WitnessState.isOuterWitness (s : WitnessState) (v : ProgVar) : Bool :=
  decide (v ∈ s.headWitnesses) || s.witnesses.typeInfos.values.any (·.var == v) ||
    s.witnesses.dictionaries.values.contains v

namespace Synth

/-- Gives up because of a broken promise. -/
def breach {α : Type} (env : WitnessEnv) (cause : Breach) : Synth α :=
  throw (.breach env.pred cause)

/-- What an instantiation without end comes to: a fault. -/
def ofOption {α : Type} : Option α → Synth α
  | some a => pure a
  | none => throw .endless

/-- A new variable. -/
def newVar (name : String) (type : Ty) : Synth ProgVar := do
  let s ← get
  let (v, vars) := s.vars.add (some name) type
  set { s with vars }
  return v

/-- A new variable for a type-info. -/
def newTypeInfo (name : String) : Synth ProgVar := newVar ("TypeInfo_for_" ++ name) .typeInfo

/-- A new variable for a dictionary. -/
def newDictionary (className : String) : Synth ProgVar :=
  newVar ("TypeClassInfo_for_" ++ className) .dictionary

/-- The types of variables. -/
def varTypes (vs : List ProgVar) : Synth (List Ty) := do return ← (← get).vars.types vs

/-- Appends the type variables of another declaration to the scope. -/
def renameApart (other : TypeScope) : Synth Shift :=
  modifyGet fun s => (s.scope.shiftOf other, { s with scope := (s.scope.merge other).2 })

/-- Records where the type-info of a type variable is found, in the place of
    an earlier record. -/
def putTypeInfo (v : TypeVar) (source : TypeInfoSource) : Synth Unit :=
  modify fun s =>
    { s with witnesses := { s.witnesses with typeInfos := s.witnesses.typeInfos.insert v source } }

/-- Records where the type-info of a type variable is found, if there is no
    record of it. -/
def addTypeInfo (v : TypeVar) (source : TypeInfoSource) : Synth Unit :=
  modify fun s =>
    { s with
      witnesses := { s.witnesses with typeInfos := s.witnesses.typeInfos.insertIfNew v source } }

/-- Records the dictionary of a constraint, in the place of an earlier
    record. -/
def putDictionary (c : Constraint) (v : ProgVar) : Synth Unit :=
  modify fun s =>
    { s with
      witnesses := { s.witnesses with dictionaries := s.witnesses.dictionaries.insert c v } }

/-- Records the dictionary of a constraint, if there is no record of it. -/
def addDictionary (c : Constraint) (v : ProgVar) : Synth Unit :=
  modify fun s =>
    { s with
      witnesses := { s.witnesses with dictionaries := s.witnesses.dictionaries.insertIfNew c v } }

/-- The variables that a step gives for the members of a list, in order, and
    all the goals that bind them. -/
def collect {α : Type} (step : α → Synth (ProgVar × List Goal)) :
    List α → Synth (List ProgVar × List Goal)
  | [] => pure ([], [])
  | a :: as => do
    let (v, goals) ← step a
    let (vs, more) ← collect step as
    return (v :: vs, goals ++ more)

/-- The call of a primitive that takes something out of a dictionary. -/
def accessor (p : Primitive) (dictionary slot result : ProgVar) (context : Context) : Goal :=
  .callProc p.proc p.symName [dictionary, slot, result] [result]
    { determinism := p.determinism } context

/-- Takes slot number `slot` out of a dictionary. -/
def takeSlot (p : Primitive) (name : String) (dictionary : ProgVar) (slot : Nat)
    (newResult : Synth ProgVar) (context : Context) : Synth (ProgVar × List Goal) := do
  let slotVar ← newVar ("Slot_for_" ++ name) .int
  let result ← newResult
  return (result,
    [.intConst slotVar slot context, accessor p dictionary slotVar result context])

end Synth

end Clausal
