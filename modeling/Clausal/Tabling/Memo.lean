import Clausal.Tabling.Tabled

/-!
# Memoing

The answers of a call are kept, so that its body runs once. A call with at
most one answer keeps that answer, or that there is none. A call with several
keeps each that differs from those before, and is complete once the body has
no more; when it is made again before that, nothing can be said of its
answers, and the program is given up.
-/

namespace Clausal.TableEnv

open Synth

/-- Keeps the answer of a call. Without outputs the answer is that the call
    succeeds. -/
def memoSave (e : TableEnv) (tip : ProgVar) (outputs : List ProgVar) : Synth Goal := do
  if outputs.isEmpty then e.call .memoMarkSucceeded [tip]
  else return .conjoin (← e.saveAnswer .memoCreateBlock tip outputs).2 e.context

/-- The answer that was kept. -/
def memoRestore (e : TableEnv) (tip : ProgVar) (outputs : List ProgVar) : Synth Goal := do
  if outputs.isEmpty then return .success e.context
  else return .conjoin (← e.restoreAnswer .memoGetBlock tip outputs) e.context

/-- What is done for a call that always has one answer, by its status. -/
def memoDetArm (e : TableEnv) (body : Goal) (tip : ProgVar) (outputs : List ProgVar) :
    Status → Synth Goal
  | .memoDetInactive => do
    return .conjoin [body, ← e.memoSave tip outputs] e.context
  | .memoDetSucceeded => e.memoRestore tip outputs
  | _ => e.tableError infiniteRecursion

/-- Memos a call that always has one answer. -/
def memoDet (e : TableEnv) (body : Goal) (tip : ProgVar) (outputs : List ProgVar) :
    Synth (List Goal) := do
  let status ← newStatus .memoDet
  let setup ← e.call .memoDetSetup [tip, status]
  let switch ← e.statusSwitch .memoDet status (e.memoDetArm body tip outputs)
  return [setup, switch]

/-- What is done for a call that has one answer or none, by its status. -/
def memoSemiArm (e : TableEnv) (body : Goal) (tip : ProgVar) (outputs : List ProgVar) :
    Status → Synth Goal
  | .memoSemiInactive => do
    let save ← e.memoSave tip outputs
    let failed ← e.call .memoMarkFailed [tip]
    return .ifThenElse body save (.conjoin [failed, .failure e.context] e.context) e.context
  | .memoSemiSucceeded => e.memoRestore tip outputs
  | .memoSemiFailed => return .failure e.context
  | _ => e.tableError infiniteRecursion

/-- Memos a call that has one answer or none. -/
def memoSemi (e : TableEnv) (body : Goal) (tip : ProgVar) (outputs : List ProgVar) :
    Synth (List Goal) := do
  let status ← newStatus .memoSemi
  let setup ← e.call .memoSemiSetup [tip, status]
  let switch ← e.statusSwitch .memoSemi status (e.memoSemiArm body tip outputs)
  return [setup, switch]

/-- The primitive that gives all answers of a call. -/
def returnAll (determinism : Determinism) : Primitive :=
  if determinism = .multi then .memoReturnAllMulti else .memoReturnAllNondet

/-- What is done for a call that has any number of answers, by its status. -/
def memoNonArm (e : TableEnv) (body : Goal) (determinism : Determinism) (record : ProgVar)
    (outputs : List ProgVar) : Status → Synth Goal
  | .memoNonInactive => do
    let (_, answer) ← e.newAnswer
      ⟨.memoNonAnswerTable, .memoNonAnswerIsNew, .memoNonCreateBlock⟩ body record outputs
    let incomplete ← e.call .memoMarkIncomplete [record]
    let complete ← e.call .memoMarkCompleteAndFail [record]
    return .disjoin [.conjoin (answer ++ [incomplete]) e.context, complete] e.context
  | .memoNonComplete => do
    return .conjoin (← e.restoreAnswer (returnAll determinism) record outputs) e.context
  | .memoNonIncomplete => e.tableError needMinimalModel
  | _ => e.tableError infiniteRecursion

/-- Memos a call that has any number of answers. -/
def memoNon (e : TableEnv) (body : Goal) (determinism : Determinism) (tip : ProgVar)
    (outputs : List ProgVar) : Synth (List Goal) := do
  let record ← newHandle "Record" .record
  let status ← newStatus .memoNon
  let setup ← e.call .memoNonSetup [tip, record, status]
  let switch ← e.statusSwitch .memoNon status (e.memoNonArm body determinism record outputs)
  return [setup, switch]

/-- Keeps the answers of the calls of a procedure. -/
def memo (e : TableEnv) (body : Goal) (determinism : Determinism) (head : TabledHead)
    (strictness : Strictness) : Synth Tabled := do
  let way ← e.lookup head.inputs strictness
  let goals ←
    match determinism.codeModel with
    | .det => e.memoDet body way.tip head.outputs
    | .semi => e.memoSemi body way.tip head.outputs
    | .non => e.memoNon body determinism way.tip head.outputs
  e.tabledBy way head.outputs goals

end Clausal.TableEnv
