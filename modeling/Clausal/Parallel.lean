import Clausal.Module.Basic

/-!
# Parallel conjunctions

Profiling finds conjunctions that are worth running in parallel. They are made
parallel, unless the procedure has parallel conjunctions of its own, or the
program has changed since and the path does not lead to a conjunction any
more.
-/

namespace Clausal

/-- The goal with a plain conjunction of several goals made parallel. -/
def Goal.parallelize? : Goal → Option Goal
  | .conj i .plain (g₁ :: g₂ :: gs) => some (.conj i .parallel (g₁ :: g₂ :: gs))
  | _ => none

/-- A path, for the reader of a message. -/
def ParallelCandidate.renderPath (c : ParallelCandidate) : String :=
  "[" ++ commas (c.path.map toString) ++ "]"

namespace Module

/-- Makes the conjunction of a candidate parallel, or reports why it is left
    alone. -/
def parallelizeAt (m : Module) (c : ParallelCandidate) : Except Fault Module := do
  let (pred, proc) ← m.proc c.proc
  let report (severity : Severity) (message : String) : Module :=
    m.report { severity, context := proc.context, pred := some pred.describe, message }
  if pred.hasMarker .parallelConjunctions then
    return report .informational
      "procedure already contains explicit parallel goals, skipping auto-parallelization"
  match proc.body.modifyAt? Goal.parallelize? c.path with
  | some body => return m.modifyProc c.proc ({ · with body })
  | none =>
    return report .warning ("goal path " ++ c.renderPath ++
      " of the parallelisation feedback does not lead to a conjunction, skipping it")

/-- Makes the candidate conjunctions of a module parallel. -/
def parallelize (m : Module) : Except Fault Module := m.candidates.foldlM parallelizeAt m

end Module

end Clausal
