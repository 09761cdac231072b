import Clausal.Goal.Quantify
import Clausal.Witness.Body

/-!
# The witness pass

Makes the run-time type information of a module explicit: procedures take
witnesses for the type variables and constraints of their declarations, and
pass them on.

Bodies are worked on against the declared types of what they call, so the
types of the witnesses are only put into the declarations at the end.
-/

namespace Clausal

/-- The state in which work on a procedure starts. -/
def WitnessState.ofProc (pred : Predicate) (proc : Procedure) : WitnessState :=
  { vars := proc.vars, scope := pred.scope, witnesses := proc.witnesses, proofs := pred.proofs }

/-- The head and the body of a procedure with their witnesses. The body of an
    imported procedure is left alone: only its head has to fit its callers. -/
def Synth.procedure (env : WitnessEnv) (pred : Predicate) (proc : Procedure) :
    Synth (WitnessHead × Goal) := do
  let head ← setupHead env pred proc
  if pred.status = .imported then return (head, proc.body)
  let context := proc.body.info.context
  let body ← goal env proc.body
  let existentials ← produceExistentials env pred proc.head head context
  let body := if existentials.isEmpty then body else .conjoin (body :: existentials) context
  let w := (← get).witnesses
  if pred.existVars.isEmpty && pred.constraints.existential.isEmpty &&
      w.typeInfos.entries.isEmpty && w.dictionaries.entries.isEmpty then
    return (head, body)
  return (head, body.requantify (.ofList head.head))

namespace Module

/-- Makes the witnesses of one procedure explicit. -/
def addProcWitnesses (m : Module) (r : ProcRef) : Except Fault Module := do
  let (pred, proc) ← m.proc r
  let ((head, body), s) ←
    (Synth.procedure ⟨m, pred.describe⟩ pred proc).run (.ofProc pred proc)
  let proc := { proc with
    vars := s.vars, head := head.head, modes := head.modes, body, witnesses := s.witnesses }
  return m.setPred r.pred ({ pred with scope := s.scope }.setProc r.proc proc)

/-- Puts the types of the witnesses in front of the declared types of a
    predicate, as its first procedure has them. -/
def addWitnessTypes (m : Module) (id : PredId) : Except Fault Module := do
  let pred ← m.pred id
  let count := pred.witnessCount
  match count, pred.procs[0]? with
  | 0, _ | _, none => return m
  | _, some proc =>
    if proc.head.length < count then throw (.noArgument count)
    let types ← proc.vars.types (proc.head.take count)
    return m.setPred id { pred with argTypes := types ++ pred.argTypes }

/-- The procedures that take witnesses, if their declarations call for any. -/
def witnessProcs (m : Module) : List ProcRef :=
  m.allProcs.filter fun r => !((m.findPred? r.pred).map Predicate.isExempt).getD true

/-- Makes the witnesses of a module explicit. -/
def addWitnesses (m : Module) : Except Fault Module := do
  let m ← m.witnessProcs.foldlM addProcWitnesses m
  (List.range m.preds.size).foldlM (fun m i => m.addWitnessTypes ⟨i⟩) m

end Module

end Clausal
