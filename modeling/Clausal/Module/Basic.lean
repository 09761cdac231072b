import Clausal.Diagnostic
import Clausal.Fault
import Clausal.Goal.Basic
import Clausal.Options
import Clausal.Tabling.Method

/-!
# Modules

A module declares types, classes, instances and predicates. A predicate has
one procedure for each of its modes; a procedure has a table of its variables,
a head and a body, and knows where the witnesses of its type variables and
constraints are found (`WitnessMap`).

Reference by number to something that does not exist is a `Fault`.
-/

namespace Clausal

/-- A variable of a procedure. -/
structure VarEntry where
  name : Option String
  type : Ty
deriving DecidableEq, Repr, Inhabited

/-- The variables of a procedure, in order. -/
structure VarTable where
  entries : Array VarEntry := #[]
deriving DecidableEq, Repr, Inhabited

namespace VarTable

/-- How many variables there are. -/
def size (t : VarTable) : Nat := t.entries.size

/-- The table with one more variable, and that variable. -/
def add (t : VarTable) (name : Option String) (type : Ty) : ProgVar × VarTable :=
  (⟨t.size⟩, ⟨t.entries.push ⟨name, type⟩⟩)

/-- What the table says of a variable. -/
def find? (t : VarTable) (v : ProgVar) : Option VarEntry := t.entries[v.index]?

/-- What the table says of a variable. -/
def get (t : VarTable) (v : ProgVar) : Except Fault VarEntry :=
  match t.find? v with
  | some e => .ok e
  | none => .error (.noVar v)

/-- The type of a variable. -/
def type (t : VarTable) (v : ProgVar) : Except Fault Ty := do return (← t.get v).type

/-- The types of variables. -/
def types (t : VarTable) (vs : List ProgVar) : Except Fault (List Ty) := vs.mapM t.type

/-- What the variable with the given entry is called: by its name and number,
    or by its number alone. -/
def label (v : ProgVar) (e : VarEntry) : String :=
  match e.name with
  | some n => n ++ "_" ++ toString v.index
  | none => v.render

/-- What a variable is called. -/
def name (t : VarTable) (v : ProgVar) : Except Fault String := do return label v (← t.get v)

end VarTable

/-- Where the type-info of a type variable is found. -/
inductive TypeInfoSource where
  | direct (var : ProgVar)
  /-- In a slot of a dictionary. -/
  | slot (dictionary : ProgVar) (slot : Nat)
deriving DecidableEq, Repr, Inhabited

/-- The variable in or through which a type-info is found. -/
def TypeInfoSource.var : TypeInfoSource → ProgVar
  | .direct v | .slot v _ => v

/-- Where the witnesses of a procedure are found. -/
structure WitnessMap where
  typeInfos : Assoc TypeVar TypeInfoSource := ∅
  dictionaries : Assoc Constraint ProgVar := ∅
deriving DecidableEq, Inhabited

/-- One mode of a predicate. -/
structure Procedure where
  context : Context
  vars : VarTable
  head : List ProgVar
  modes : List Mode
  body : Goal
  determinism : Determinism
  method : EvalMethod := .normal
  witnesses : WitnessMap := {}
  table : Option TableLayout := none
  /-- The variable that holds the place of the current call in the table. -/
  tableTip : Option ProgVar := none
deriving Inhabited

inductive ImportStatus where
  | local | exported | imported
deriving DecidableEq, Repr, Inhabited

def ImportStatus.render : ImportStatus → String
  | .local => "local"
  | .exported => "exported"
  | .imported => "imported"

/-- Where a predicate comes from. -/
inductive PredOrigin where
  | user
  /-- The unification predicate of a type. -/
  | unification (ctor : TypeCtor)
  /-- Made in order to table another predicate. -/
  | tabling
deriving DecidableEq, Repr, Inhabited

inductive PredMarker where
  /-- A relation, which is kept monomorphic. -/
  | aditi
  | noInline
  /-- The body has parallel conjunctions of its own. -/
  | parallelConjunctions
deriving DecidableEq, Repr, Inhabited

def PredMarker.render : PredMarker → String
  | .aditi => "aditi"
  | .noInline => "no_inline"
  | .parallelConjunctions => "parallel_conjunctions"

/-- A predicate or function. -/
structure Predicate where
  /-- The module that declares it. -/
  home : String
  name : String
  /-- The declared number of arguments, without witnesses. -/
  arity : Nat
  kind : CallableKind := .predicate
  origin : PredOrigin := .user
  status : ImportStatus := .local
  markers : List PredMarker := []
  context : Context
  scope : TypeScope
  argTypes : List Ty
  /-- The existentially quantified type variables. -/
  existVars : List TypeVar := []
  constraints : ClassContext := {}
  proofs : ProofMap := ∅
  procs : Array Procedure
deriving Inhabited

namespace Predicate

def symName (p : Predicate) : SymName := .qualified p.home p.name

/-- The predicate as messages describe it. -/
def describe (p : Predicate) : String :=
  p.kind.render ++ " `" ++ p.symName.render ++ "/" ++ toString p.arity ++ "`"

def hasMarker (p : Predicate) (m : PredMarker) : Bool := p.markers.contains m

/-- The predicate with another procedure in the place of one of its own. -/
def setProc (p : Predicate) (i : ProcId) (proc : Procedure) : Predicate :=
  { p with procs := p.procs.setIfInBounds i.index proc }

end Predicate

/-- A constructor of a type. -/
structure CtorDefn where
  name : SymName
  /-- The type variables that the constructor quantifies itself. -/
  existVars : List TypeVar := []
  constraints : List Constraint := []
  args : List Ty := []
deriving DecidableEq, Repr, Inhabited

inductive TypeBody where
  /-- One of several constructors. -/
  | union (ctors : List CtorDefn)
  /-- Another name for a type. -/
  | equivalence (type : Ty)
  /-- Known by name only. -/
  | abstract
deriving DecidableEq, Repr, Inhabited

/-- The declaration of a type. -/
structure TypeDefn where
  scope : TypeScope := {}
  params : List TypeVar := []
  body : TypeBody
deriving DecidableEq, Repr, Inhabited

/-- The declaration of a type whose values are the given constants. -/
def TypeDefn.enumeration (home : String) (constants : List String) : TypeDefn :=
  { body := .union (constants.map fun c => { name := .qualified home c }) }

/-- A conjunction that was found worth running in parallel: the procedure, and
    the path from its body. -/
structure ParallelCandidate where
  proc : ProcRef
  path : List Nat
deriving DecidableEq, Repr, Inhabited

structure Module where
  name : String
  options : Options := {}
  preds : Array Predicate := #[]
  types : Assoc TypeCtor TypeDefn := ∅
  classes : Assoc ClassId ClassDefn := ∅
  /-- The instances of each class, in the order of their numbers. -/
  instances : Assoc ClassId (List InstanceDefn) := ∅
  diagnostics : List Diagnostic := []
  candidates : List ParallelCandidate := []
deriving Inhabited

namespace Module

def findPred? (m : Module) (p : PredId) : Option Predicate := m.preds[p.index]?

/-- The predicate and the procedure that a reference names. -/
def findProc? (m : Module) (r : ProcRef) : Option (Predicate × Procedure) := do
  let pred ← m.findPred? r.pred
  let proc ← pred.procs[r.proc.index]?
  return (pred, proc)

def pred (m : Module) (p : PredId) : Except Fault Predicate :=
  match m.findPred? p with
  | some pred => .ok pred
  | none => .error (.noProc ⟨p, ⟨0⟩⟩)

/-- The predicate and the procedure that a reference names. -/
def proc (m : Module) (r : ProcRef) : Except Fault (Predicate × Procedure) :=
  match m.findProc? r with
  | some found => .ok found
  | none => .error (.noProc r)

/-- The number of the predicate that is declared next. -/
def nextPred (m : Module) : PredId := ⟨m.preds.size⟩

/-- The module with one more predicate. -/
def addPred (m : Module) (p : Predicate) : Module := { m with preds := m.preds.push p }

/-- The module with another predicate in the place of one of its own. -/
def setPred (m : Module) (i : PredId) (p : Predicate) : Module :=
  { m with preds := m.preds.setIfInBounds i.index p }

/-- The module with the procedure that a reference names changed by `f`. -/
def modifyProc (m : Module) (r : ProcRef) (f : Procedure → Procedure) : Module :=
  match m.findProc? r with
  | some (pred, proc) => m.setPred r.pred (pred.setProc r.proc (f proc))
  | none => m

/-- All procedures, by predicate and then by mode. -/
def allProcs (m : Module) : List ProcRef :=
  m.preds.toList.zipIdx.flatMap fun (pred, i) =>
    (List.range pred.procs.size).map fun j => ⟨⟨i⟩, ⟨j⟩⟩

/-- The module with one more diagnostic. -/
def report (m : Module) (d : Diagnostic) : Module := { m with diagnostics := m.diagnostics ++ [d] }

/-- How many errors have been reported. -/
def errorCount (m : Module) : Nat := Clausal.errorCount m.diagnostics

/-- Whether a predicate of the module itself has this name. -/
def isPredName (m : Module) (name : String) : Bool :=
  m.preds.any fun p => p.home == m.name && p.name == name

/-- The constructor of a type with the given name and number of arguments, and
    the declaration of the type. Names are compared without qualifiers. -/
def findCtor? (m : Module) (t : Ty) (name : SymName) (arity : Nat) :
    Option (TypeDefn × CtorDefn) := do
  let defn ← m.types.find? (← t.ctor?)
  match defn.body with
  | .union ctors =>
    let ctor ← ctors.find? fun c => c.name.name == name.name && c.args.length == arity
    return (defn, ctor)
  | .equivalence _ | .abstract => none

end Module

end Clausal
