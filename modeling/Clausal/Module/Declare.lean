import Clausal.Goal.Build
import Clausal.Module.Basic
import Clausal.Primitive

/-!
# Declaring modules

A module starts out with the built-in types and the primitives
(`Module.start`); types, classes, instances and predicates are then declared
one by one. A predicate can be called once it is declared
(`Module.callGoal`); its own body calls it through its declaration
(`PredDecl.selfCall`).
-/

namespace Clausal

/-- A primitive as a predicate, known by its signature only. -/
def Primitive.toPredicate (p : Primitive) : Predicate :=
  let types := p.declaredTypes
  { home := p.home
    name := p.name
    arity := p.arity
    status := .imported
    context := {}
    scope := p.scope
    argTypes := types
    procs := #[
      { context := {}
        vars := ⟨(types.map fun t => ⟨none, t⟩).toArray⟩
        head := (List.range p.arity).map fun i => ⟨i⟩
        modes := p.modes
        body := .success {}
        determinism := p.determinism }] }

/-- The predicates that are never given witness arguments: the primitives and
    the relations. -/
def Predicate.isExempt (p : Predicate) : Bool :=
  Primitive.isExempt p.home p.name p.arity || p.hasMarker .aditi

/-- The built-in types, those of the tabling runtime included. -/
def builtinTypes : Assoc TypeCtor TypeDefn :=
  let abstracts :=
    [Ty.int, .char, .string, .float, .void, .typeInfo, .typeCtorInfo, .dictionary,
      .baseDictionary] ++ Handle.all.map Handle.type
  let statuses := StatusType.all.map fun s =>
    (TypeCtor.ofName tableModule s.typeName 0,
      TypeDefn.enumeration tableModule (s.statuses.map Status.name))
  .ofList (
    (abstracts.filterMap Ty.ctor?).map (fun c => (c, { body := .abstract })) ++
    [(.ofName "io" "state" 0, .enumeration "io" ["state"])] ++ statuses)

/-- An argument of a predicate declaration. -/
structure ArgDecl where
  name : Option String
  type : Ty
  mode : Mode
  /-- The type of the argument in the body, where it is another one, as for
      outputs of existential type. -/
  bodyType : Option Ty := none
deriving DecidableEq, Repr, Inhabited

/-- The declaration of a predicate with one procedure, apart from its body. -/
structure PredDecl where
  name : String
  /-- The module that declares it, if it is another one. -/
  home : Option String := none
  kind : CallableKind := .predicate
  scope : TypeScope := {}
  args : List ArgDecl := []
  /-- The variables of the body that are no arguments. -/
  locals : List VarEntry := []
  constraints : ClassContext := {}
  existVars : List TypeVar := []
  proofs : ProofMap := ∅
  determinism : Determinism := .det
  method : EvalMethod := .normal
  markers : List PredMarker := []
  status : ImportStatus := .local
  origin : PredOrigin := .user
deriving Inhabited

namespace PredDecl

/-- The head variables: the first ones. -/
def head (d : PredDecl) : List ProgVar := (List.range d.args.length).map fun i => ⟨i⟩

def modes (d : PredDecl) : List Mode := d.args.map (·.mode)

/-- The variables: the arguments and then the others. -/
def vars (d : PredDecl) : VarTable :=
  ⟨(d.args.map (fun a => VarEntry.mk a.name (a.bodyType.getD a.type)) ++ d.locals).toArray⟩

/-- What foreign code calls an argument. -/
def foreignName (a : ArgDecl) : String := a.name.getD "?"

end PredDecl

namespace Module

/-- A module without declarations of its own. -/
def start (name : String) (options : Options := {}) : Module :=
  { name, options, types := builtinTypes, preds := (Primitive.all.map (·.toPredicate)).toArray }

/-- A line of the module's source. -/
def context (m : Module) (line : Nat) : Context := ⟨m.name ++ ".m", line⟩

/-- A name that the module declares. -/
def qualify (m : Module) (name : String) : SymName := .qualified m.name name

/-- Declares a type. -/
def addType (m : Module) (name : String) (defn : TypeDefn) : Module :=
  { m with types := m.types.insert ⟨m.qualify name, defn.params.length⟩ defn }

/-- Declares a class. A superclass is given by its name and the numbers of the
    parameters that it is applied to. -/
def addClass (m : Module) (name : String) (params : List String)
    (supers : List (String × List Nat)) : Except Fault Module := do
  let vars : List TypeVar := (List.range params.length).map fun i => ⟨i⟩
  let supers ← supers.mapM fun (cls, args) => do
    let args ← args.mapM fun i =>
      match vars[i]? with
      | some v => .ok (.var v)
      | none => .error (.noClassParam i)
    return ⟨m.qualify cls, args⟩
  let defn : ClassDefn := { params := vars, supers, scope := .ofNames params }
  return { m with classes := m.classes.insert ⟨m.qualify name, params.length⟩ defn }

/-- Declares an instance of a class. Its number is how many the class had. -/
def addInstance (m : Module) (cls : ClassId) (types : List Ty) (scope : TypeScope)
    (constraints : List Constraint := []) (proofs : ProofMap := ∅) : Module :=
  let inst : InstanceDefn := { owner := .unqualified m.name, constraints, types, scope, proofs }
  { m with instances := m.instances.insert cls ((m.instances.find? cls).getD [] ++ [inst]) }

/-- The call of a declared procedure, which is taken to be pure. -/
def callGoal (m : Module) (callee : ProcRef) (args : List ProgVar) (context : Context) :
    Except Fault Goal := do
  let (pred, proc) ← m.proc callee
  return .callProc callee pred.symName args (Goal.outputVars args proc.modes)
    { determinism := proc.determinism } context

/-- The name of a predicate that is being declared. -/
def declName (m : Module) (d : PredDecl) : SymName := .qualified (d.home.getD m.name) d.name

/-- The call of the predicate that is being declared. -/
def selfCall (m : Module) (d : PredDecl) (args : List ProgVar) (context : Context) : Goal :=
  .callProc ⟨m.nextPred, ⟨0⟩⟩ (m.declName d) args (Goal.outputVars args d.modes)
    { determinism := d.determinism } context

/-- The body of a predicate that is being declared, as foreign code that works
    on its arguments. -/
def foreignBody (m : Module) (d : PredDecl) (ioTabling : Option IoTabling) (mayCall : Bool)
    (code : String) (purity : Purity) (context : Context) : Goal :=
  let args := (d.head.zip d.args).map fun (var, a) => ⟨var, some (PredDecl.foreignName a), a.mode⟩
  .callForeign { callee := ⟨m.nextPred, ⟨0⟩⟩, ioTabling, mayCall, args, code }
    { determinism := d.determinism, purity } context

/-- The predicate that is declared with a body. What the body shares with the
    outside are head variables. -/
def declared (m : Module) (d : PredDecl) (body : Goal) : Predicate :=
  let context := m.context 1
  { home := d.home.getD m.name
    name := d.name
    arity := d.args.length
    kind := d.kind
    origin := d.origin
    status := d.status
    markers := d.markers
    context
    scope := d.scope
    argTypes := d.args.map (·.type)
    existVars := d.existVars
    constraints := d.constraints
    proofs := d.proofs
    procs := #[
      { context
        vars := d.vars
        head := d.head
        modes := d.modes
        body := body.setNonlocals (body.info.nonlocals ∩ .ofList d.head)
        determinism := d.determinism
        method := d.method }] }

/-- Declares a predicate. -/
def declare (m : Module) (d : PredDecl) (body : Goal) : Module := m.addPred (m.declared d body)

/-- Marks a conjunction as worth running in parallel. -/
def addCandidate (m : Module) (c : ParallelCandidate) : Module :=
  { m with candidates := m.candidates ++ [c] }

end Module

end Clausal
