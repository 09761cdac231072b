import Clausal.Module.Basic

/-!
# Derived predicates

Tabling may need predicates of its own, each with a single procedure. They are
local to the module, and their names differ from those of all its other
predicates (`Module.freshPredName`).
-/

namespace Clausal.Module

/-- A name for a predicate that the module does not have: `base`, or `base`
    with the least number from two on that makes it new. There are more such
    names than predicates, so one of them is. -/
def freshPredName (m : Module) (base : String) : String :=
  if m.isPredName base then
    let numbered := (List.range m.preds.size).map fun n => base ++ "_" ++ toString (n + 2)
    (numbered.find? (!m.isPredName ·)).getD base
  else base

/-- The predicate that runs part of another one. -/
def derivedPred (m : Module) (source : Predicate) (base : String) (proc : Procedure) :
    Except Fault Predicate := do
  return {
    home := m.name
    name := m.freshPredName base
    arity := proc.head.length
    origin := .tabling
    context := source.context
    scope := source.scope
    argTypes := ← proc.vars.types proc.head
    procs := #[proc] }

end Clausal.Module
