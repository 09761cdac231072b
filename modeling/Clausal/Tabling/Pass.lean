import Clausal.Tabling.Io
import Clausal.Tabling.IoChoice
import Clausal.Tabling.LoopCheck
import Clausal.Tabling.Memo
import Clausal.Tabling.MinimalModel
import Clausal.Witness.Pass

/-!
# The tabling pass

Puts the body of each tabled procedure into code that consults the
procedure's table and runs the body only when the table has no answer. The
witnesses of a procedure are tabled like its other arguments, so this pass
comes after the witness pass.

Where tables are not supported, tabled procedures are evaluated normally, with
a warning.
-/

namespace Clausal

/-- The tabled form of a procedure, if it is to be tabled. -/
def TableEnv.tabled (e : TableEnv) (proc : Procedure) : Synth (Option Tabled) :=
  let head := proc.tabledHead
  match proc.method with
  | .normal => return none
  | .loopCheck s => return some (← e.loopCheck proc.body proc.determinism head s)
  | .memo s => return some (← e.memo proc.body proc.determinism head s)
  | .minimalModel .stackCopy s => return some (← e.stackCopy proc.body head s)
  | .minimalModel .ownStacks s => return some (← e.ownStacks proc.body head s)
  | .tableIo purpose unit => return some (← e.tableIo proc.body purpose unit head)

namespace Module

/-- The body of a tabled procedure, or of its generator, in its final form. -/
def tabledBody (e : TableEnv) (purity : Purity) (head : List ProgVar) (body : Goal) : Goal :=
  e.promised purity (body.requantify (.ofList head))

/-- The predicate of a generator. -/
def generatorPred (m : Module) (e : TableEnv) (purity : Purity) (s : WitnessState)
    (g : Generator) : Except Fault Predicate := do
  let body := tabledBody e purity g.outputs g.body
  let pred ← m.derivedPred e.pred g.name {
    context := body.info.context
    vars := s.vars
    head := g.outputs
    modes := g.outputs.map fun _ => .output
    body
    determinism := .nondet
    witnesses := s.witnesses }
  return { pred with scope := s.scope }

/-- Tables a procedure. Its generator, if it has one, is the predicate that
    the module declares next. -/
def tableProc (m : Module) (r : ProcRef) : Except Fault Module := do
  let (pred, proc) ← m.proc r
  let e : TableEnv := ⟨m, r, pred, proc.body.info.context⟩
  let purity := proc.body.info.purity
  match ← (e.tabled proc).run (.ofProc pred proc) with
  | (none, _) => return m
  | (some tabled, s) =>
    let proc := { proc with
      vars := s.vars
      witnesses := s.witnesses
      body := tabledBody e purity proc.head tabled.body
      table := some tabled.layout
      tableTip := tabled.tip }
    let changed := m.setPred r.pred ({ pred with scope := s.scope }.setProc r.proc proc)
    match tabled.generator with
    | none => return changed
    | some g => return changed.addPred (← m.generatorPred e purity s g)

/-- Has a procedure evaluated normally that cannot be tabled. -/
def refuseTable (m : Module) (refusal : TablingRefusal) (r : ProcRef) : Except Fault Module := do
  let (pred, proc) ← m.proc r
  let m := m.report {
    severity := .warning
    context := pred.context
    pred := some pred.describe
    message := "`pragma " ++ proc.method.render ++ "` ignored: " ++ refusal.message }
  return m.modifyProc r ({ · with method := .normal })

/-- The procedures that are to be tabled. -/
def tabledProcs (m : Module) : List ProcRef :=
  m.allProcs.filter fun r => ((m.findProc? r).map (·.2.method.isTabled)).getD false

/-- Tables the procedures of a module. -/
def table (m : Module) : Except Fault Module := do
  match m.options.tablingRefused? with
  | some refusal => m.tabledProcs.foldlM (refuseTable · refusal ·) m
  | none =>
    let m ← if m.options.traceTableIo then m.chooseIo else pure m
    m.tabledProcs.foldlM tableProc m

end Module

end Clausal
