import Clausal.Parallel
import Clausal.Tabling.Pass

/-!
# Compiling a module

The passes in their order: witnesses are made explicit first, the tabled
procedures then table them like other arguments, and conjunctions become
parallel last, in the final bodies.
-/

namespace Clausal

/-- A pass over a module. -/
inductive ModulePass where
  | witnesses | tabling | parallelism
deriving DecidableEq, Repr, Inhabited

namespace ModulePass

/-- All passes, in the order in which a module goes through them. -/
def all : List ModulePass := [.witnesses, .tabling, .parallelism]

/-- The module after a pass. -/
def run : ModulePass → Module → Except Fault Module
  | .witnesses, m => m.addWitnesses
  | .tabling, m => m.table
  | .parallelism, m => m.parallelize

end ModulePass

namespace Module

/-- The module after all passes. -/
def compile (m : Module) : Except Fault Module := ModulePass.all.foldlM (fun m p => p.run m) m

/-- What is said of a module that has been compiled with errors. -/
def failure? (m : Module) : Option String :=
  if m.errorCount = 0 then none
  else some ("compilation of module failed with " ++ toString m.errorCount ++ " error(s)")

end Module

end Clausal
