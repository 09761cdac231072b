import Clausal.Tabling.Derived
import Clausal.Tabling.Tabled

/-!
# Choosing the actions to table

A foreign procedure of the module that takes and gives an I/O state does I/O,
and says whether that is to be tabled. What is asked for is recorded as the
way in which the procedure is evaluated (`Module.chooseIo`).
-/

namespace Clausal

/-- Whether a procedure takes an I/O state and gives one. -/
def Procedure.hasIoStates (p : Procedure) : Except Fault Bool := do
  let states ← (p.head.zip p.modes).filterM fun (v, _) => do
    return decide ((← p.vars.type v) = .ioState)
  return states.any (·.2 == .input) && states.any (·.2 == .output)

/-- What the actions of a predicate are kept for. -/
def Options.ioPurpose (o : Options) (status : ImportStatus) : IoPurpose :=
  if (o.traceTableIoAll || status == .exported) && !o.traceTableIoOnlyRetry then .decl else .proc

namespace Module

/-- Moves the body of a procedure to a predicate of its own, which the
    procedure calls, so that code put around the call is not part of what is
    inlined elsewhere. -/
def outline (m : Module) (r : ProcRef) (pred : Predicate) (proc : Procedure) (code : ForeignCode) :
    Except Fault Module := do
  let info := proc.body.info
  let callee : ProcRef := ⟨m.nextPred, r.proc⟩
  let moved := { proc with body := .foreign info { code with callee } }
  let outlined ← m.derivedPred pred ("OutlinedForIOTablingFrom_" ++ pred.name) moved
  let call := Goal.callProc callee outlined.symName proc.head (proc.headOf .output)
    ⟨info.determinism, info.purity⟩ info.context
  return (m.addPred outlined).modifyProc r ({ · with body := call })

/-- Has the actions of a procedure tabled. -/
def tableActions (m : Module) (r : ProcRef) (pred : Predicate) (proc : Procedure)
    (code : ForeignCode) (unit : IoUnit) : Except Fault Module := do
  let purpose := m.options.ioPurpose pred.status
  let m ← if pred.hasMarker .noInline then m.outline r pred proc code else pure m
  return m.modifyProc r ({ · with method := .tableIo purpose unit })

/-- Reports that a procedure does not say whether its actions are tabled. -/
def reportUnsaid (m : Module) (pred : Predicate) (proc : Procedure) : Module :=
  m.report {
    severity := .error
    context := proc.context
    pred := some pred.describe
    message :=
      "missing `tabled_for_io` annotation on a foreign procedure with an I/O state pair" }

/-- Has the actions of a procedure tabled, if it says so. The actions of code
    that calls back are tabled where they are done, so such code need not say
    anything. -/
def chooseIoProc (m : Module) (r : ProcRef) : Except Fault Module := do
  let (pred, proc) ← m.proc r
  if pred.status = .imported || pred.origin ≠ .user || proc.method.isTabled then return m
  if !(← proc.hasIoStates) then return m
  match proc.body with
  | .foreign _ code =>
    match code.ioTabling with
    | some .tabled => m.tableActions r pred proc code .alone
    | some .unitize => m.tableActions r pred proc code .unitize
    | some .descendant => return m
    | some .notTabled | none =>
      return if m.options.traceTableIoRequire && !code.mayCall then m.reportUnsaid pred proc else m
  | _ => return m

/-- Has the actions of the procedures tabled that say so. -/
def chooseIo (m : Module) : Except Fault Module := m.allProcs.foldlM chooseIoProc m

end Module

end Clausal
