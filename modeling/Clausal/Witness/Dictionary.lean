import Clausal.Witness.TypeInfo

/-!
# Dictionaries

The dictionary of a constraint is found where the witness map says, or made as
its recorded proof says: by an instance, from the dictionaries of the
instance's constraints, those of the superclasses and the type-infos of the
constrained types; or out of the dictionary of a constraint of which it is a
superclass constraint.

Dictionaries made for one request are shared within it and not beyond
(`Synth.dictionaries`): the goals that bind them stand at one place.
Proofs can lead back to the constraint they start from, which is a breach, and
instances can build on ever larger constraints, which is why the depth of the
search is bounded.
-/

namespace Clausal

/-- The superclass constraints of a class applied to types. The class's own
    variables are numbered from the end of `scope` on, so that binding them
    captures none of its variables. -/
def ClassDefn.supersAt? (cls : ClassDefn) (scope : TypeScope) (args : List Ty) :
    Option (List Constraint) :=
  let shift := scope.shiftOf cls.scope
  let subst : Subst := Assoc.ofList ((cls.params.map shift.apply).zip args)
  cls.supers.mapM fun c => (c.shift shift).subst? subst

namespace Synth

/-- A class that is promised to be declared. -/
def findClass (env : WitnessEnv) (cls : ClassId) : Synth ClassDefn :=
  match env.env.classes.find? cls with
  | some defn => pure defn
  | none => breach env (.noClass cls)

/-- The dictionary that instance number `n` gives for a constraint, where
    `resolve` gives the dictionaries it is built from. -/
def instanceDictionary (env : WitnessEnv) (context : Context)
    (resolve : Constraint → Synth (ProgVar × List Goal)) (c : Constraint) (n : Nat) :
    Synth (ProgVar × List Goal) := do
  let some inst := ((env.env.instances.find? c.classId).getD [])[n]?
    | breach env (.noInstance n c.classId)
  let cls ← findClass env c.classId
  let shift ← renameApart inst.scope
  let subst ←
    match Subst.ofMatch (inst.types.map (·.shift shift)) c.args with
    | .ok subst => pure subst
    | .error e => breach env (.instanceMismatch n c.classId (← get).scope c e)
  let proofs ← ofOption ((ProofMap.shift shift inst.proofs).subst? subst)
  modify fun s => { s with proofs := s.proofs.shadowMany proofs.toList }
  let constraints ← ofOption (inst.constraints.mapM fun d => (d.shift shift).subst? subst)
  let (fromConstraints, goals₁) ← collect resolve constraints
  let supers ← ofOption (cls.supersAt? (← get).scope c.args)
  let (fromSupers, goals₂) ← collect resolve supers
  let (fromTypes, goals₃) ← typeInfos context c.args
  let name := c.className.name
  let base ← newVar ("BaseTypeClassInfo_for_" ++ name) .baseDictionary
  let dictionary ← newDictionary name
  return (dictionary, goals₁ ++ goals₂ ++ goals₃ ++
    [.construct base (.baseDictionary inst.owner c.classId n (Ty.instanceKeys inst.types)) []
        context,
      .construct dictionary .dictionary (base :: fromConstraints ++ fromSupers ++ fromTypes)
        context])

/-- The dictionary of a superclass constraint of `sub`, where `resolve` gives
    the dictionary of `sub`. -/
def superclassDictionary (env : WitnessEnv) (context : Context)
    (resolve : Constraint → Synth (ProgVar × List Goal)) (c sub : Constraint) :
    Synth (ProgVar × List Goal) := do
  let (whole, goals) ← resolve sub
  let cls ← findClass env sub.classId
  let scope := (← get).scope
  let supers ← ofOption (cls.supersAt? scope sub.args)
  let some position := supers.findIdx? (· == c) | breach env (.notSuperclass scope c sub)
  let name := c.className.name
  let (dictionary, more) ←
    takeSlot .superclassFromDictionary name whole (position + 1) (newDictionary name) context
  return (dictionary, goals ++ more)

/-- The dictionary of a constraint, in a search of at most the given depth.
    Those in `pending` are being made. -/
def dictionaryWithin (env : WitnessEnv) (context : Context) :
    (depth : Nat) → (pending : List Constraint) → Constraint → Synth (ProgVar × List Goal)
  | depth, pending, c => do
    let s ← get
    match s.witnesses.dictionaries.find? c with
    | some var => return (var, [])
    | none =>
      if c ∈ pending then breach env (.cyclicProof s.scope c)
      let some proof := s.proofs.find? c | breach env (.noProof s.scope c)
      match depth with
      | 0 => throw .endless
      | depth + 1 =>
        let resolve := dictionaryWithin env context depth (c :: pending)
        let (dictionary, goals) ←
          match proof with
          | .byInstance n => instanceDictionary env context resolve c n
          | .bySuperclass sub => superclassDictionary env context resolve c sub
        putDictionary c dictionary
        return (dictionary, goals)

/-- The dictionaries of constraints, in order, in a search of at most the
    given depth. What the search records of dictionaries and proofs is
    forgotten afterwards. -/
def dictionariesWithin (env : WitnessEnv) (depth : Nat) (context : Context)
    (cs : List Constraint) : Synth (List ProgVar × List Goal) := do
  let before ← get
  let result ← collect (dictionaryWithin env context depth []) cs
  modify fun s =>
    { s with
      proofs := before.proofs
      witnesses := { s.witnesses with dictionaries := before.witnesses.dictionaries } }
  return result

/-- How many proofs the instances of a module bring with them. -/
def instanceProofCount (m : Module) : Nat :=
  m.instances.values.flatten.foldl (fun count inst => count + inst.proofs.entries.length) 0

/-- How much deeper than there are declared proofs a dictionary may be built on
    dictionaries: instances prove a constraint once for all types. -/
def depthLimit : Nat := 20000

/-- The dictionaries of constraints, in order. No constraint is looked for
    while it is being made, so the search is no deeper than there are proofs,
    unless those of instances are used for several types. -/
def dictionaries (env : WitnessEnv) (context : Context) (cs : List Constraint) :
    Synth (List ProgVar × List Goal) := do
  let declared := (← get).proofs.entries.length + instanceProofCount env.env
  dictionariesWithin env (declared + depthLimit) context cs

/-- Records a variable as the dictionary of a constraint, and where in it the
    type-infos of those arguments are that are variables. -/
def recordDictionary (env : WitnessEnv) (c : Constraint) (var : ProgVar) : Synth Unit := do
  let cls ← findClass env c.classId
  addDictionary c var
  for (arg, i) in c.args.zipIdx do
    match arg with
    | .var v => addTypeInfo v (.slot var (cls.supers.length + i + 1))
    | _ => pure ()

end Synth

end Clausal
