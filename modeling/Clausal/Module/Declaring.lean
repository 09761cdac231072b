import Clausal.Module.Declare

/-!
# Declaring a module step by step

A module is written down as a series of declarations, each of which may refer
to what the ones before it declare.
-/

namespace Clausal

/-- A step in the declaration of a module. -/
abbrev Declaring := StateT Module (Except Fault)

/-- An input argument. -/
def ArgDecl.input (name : String) (type : Ty) : ArgDecl :=
  { name := some name, type, mode := .input }

/-- An output argument. -/
def ArgDecl.output (name : String) (type : Ty) : ArgDecl :=
  { name := some name, type, mode := .output }

/-- A named variable. -/
def VarEntry.named (name : String) (type : Ty) : VarEntry := ⟨some name, type⟩

namespace Declaring

/-- A line of the module's source. -/
def line (n : Nat) : Declaring Context := return (← get).context n

/-- Declares a type without parameters. -/
def type (name : String) (defn : TypeDefn) : Declaring Ty := do
  modify (·.addType name defn)
  return .defined ((← get).qualify name) []

/-- Declares a class with one parameter. Its superclasses constrain the same
    type. -/
def typeclass (name : String) (supers : List String := []) : Declaring SymName := do
  set (← (← get).addClass name ["T"] (supers.map (·, [0])))
  return (← get).qualify name

/-- Declares that a type is an instance of a class, and numbers the
    instance. -/
def instanceOf (className : SymName) (type : Ty) (scope : TypeScope := {})
    (constraints : List Constraint := []) : Declaring ConstraintProof := do
  let cls : ClassId := ⟨className, 1⟩
  let number := (((← get).instances.find? cls).getD []).length
  modify (·.addInstance cls [type] scope constraints)
  return .byInstance number

/-- The call of a predicate that is declared already. -/
def call (callee : ProcRef) (args : List ProgVar) (context : Context) : Declaring Goal := do
  return ← (← get).callGoal callee args context

/-- Declares a predicate. -/
def pred (d : PredDecl) (body : Declaring Goal) : Declaring ProcRef := do
  let body ← body
  let m ← get
  set (m.declare d body)
  return ⟨m.nextPred, ⟨0⟩⟩

/-- Declares a predicate that may call itself. -/
def recPred (d : PredDecl) (body : (List ProgVar → Context → Goal) → Declaring Goal) :
    Declaring ProcRef := do
  let m ← get
  pred d (body (m.selfCall d))

end Declaring

end Clausal
