import Clausal.Sample.Actions
import Clausal.Sample.Classes
import Clausal.Sample.HigherOrder
import Clausal.Sample.Tables

/-!
# Scenarios

The modules that the compiler can be shown at work on. Each is known by a
name.
-/

namespace Clausal

/-- A module to compile for demonstration. -/
inductive Scenario where
  /-- Forwarding and building typeclass-infos at call sites. -/
  | constraintForwarding
  /-- An instance whose own constraint needs another instance. -/
  | instanceChain
  /-- Typeclass-infos extracted through superclasses. -/
  | superclassChain
  /-- Existentially typed predicates and constructors. -/
  | existential
  /-- Closures, complicated unifications and tuple insertion. -/
  | higherOrder
  /-- Every call-table evaluation method. -/
  | tabling
  /-- Per-argument table strictness over an equivalence type. -/
  | tableStrictness
  /-- I/O tabling of foreign primitives. -/
  | ioTabling
  /-- Automatic parallelisation candidates. -/
  | parallel
deriving DecidableEq, Repr, Inhabited

namespace Scenario

def all : List Scenario :=
  [.constraintForwarding, .instanceChain, .superclassChain, .existential, .higherOrder, .tabling,
   .tableStrictness, .ioTabling, .parallel]

def name : Scenario → String
  | .constraintForwarding => "constraint-forwarding"
  | .instanceChain => "instance-chain"
  | .superclassChain => "superclass-chain"
  | .existential => "existential"
  | .higherOrder => "higher-order"
  | .tabling => "tabling"
  | .tableStrictness => "table-strictness"
  | .ioTabling => "io-tabling"
  | .parallel => "parallel"

/-- The scenario with the given name. -/
def ofName? (name : String) : Option Scenario := all.find? (·.name == name)

/-- The name of the module. -/
def moduleName : Scenario → String
  | .constraintForwarding => "forwarding"
  | .instanceChain => "chain"
  | .superclassChain => "supers"
  | .existential => "exist"
  | .higherOrder => "ho"
  | .tabling => "tabled"
  | .tableStrictness => "strict"
  | .ioTabling => "io_prims"
  | .parallel => "par"

/-- How deep a chain is unless it is said. -/
def defaultDepth : Scenario → Nat
  | .superclassChain => 3
  | _ => 1

/-- The declarations of the module. Chains have the given depth. -/
def declarations (depth : Nat) : Scenario → Declaring Unit
  | .constraintForwarding => Sample.constraintForwarding
  | .instanceChain => Sample.instanceChain depth
  | .superclassChain => Sample.superclassChain depth
  | .existential => Sample.existential
  | .higherOrder => Sample.higherOrder
  | .tabling => Sample.tabling
  | .tableStrictness => Sample.tableStrictness
  | .ioTabling => Sample.ioTabling
  | .parallel => Sample.parallel

/-- The module of a scenario. -/
def build (s : Scenario) (options : Options) (depth : Option Nat := none) :
    Except Fault Module := do
  let (_, m) ← (s.declarations (depth.getD s.defaultDepth)).run (.start s.moduleName options)
  return m

end Scenario

end Clausal
