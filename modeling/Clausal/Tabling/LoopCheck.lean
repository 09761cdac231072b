import Clausal.Tabling.Tabled

/-!
# Loop checking

A call is marked active while its body runs. One that is found active when it
is made would call itself without end, and the program is given up. No answers
are kept.
-/

namespace Clausal.TableEnv

open Synth

/-- The body, with the call marked inactive again on every way out of it. On
    the way back into a solution the call is active again. -/
def loopInactive (e : TableEnv) (model : CodeModel) (body : Goal) (tip : ProgVar) :
    Synth Goal := do
  let inactive ← e.call .loopMarkInactive [tip]
  let inactiveAndFail ← e.call .loopMarkInactiveAndFail [tip]
  match model with
  | .det => return .conjoin [body, inactive] e.context
  | .semi => return .ifThenElse body inactive inactiveAndFail e.context
  | .non =>
    let activeAndFail ← e.call .loopMarkActiveAndFail [tip]
    let exit := Goal.disjoin [inactive, activeAndFail] e.context
    return .disjoin [.conjoin [body, exit] e.context, inactiveAndFail] e.context

/-- What is done for a call, by its status. -/
def loopArm (e : TableEnv) (model : CodeModel) (body : Goal) (tip : ProgVar) :
    Status → Synth Goal
  | .loopInactive => e.loopInactive model body tip
  | _ => e.tableError infiniteRecursion

/-- Checks the calls of a procedure for loops. -/
def loopCheck (e : TableEnv) (body : Goal) (determinism : Determinism) (head : TabledHead)
    (strictness : Strictness) : Synth Tabled := do
  let way ← e.lookup head.inputs strictness
  let status ← newStatus .loop
  let setup ← e.call .loopSetup [way.tip, status]
  let switch ← e.statusSwitch .loop status (e.loopArm determinism.codeModel body way.tip)
  e.tabledBy way head.outputs [setup, switch]

end Clausal.TableEnv
