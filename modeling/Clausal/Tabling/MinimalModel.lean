import Clausal.Tabling.Tabled

/-!
# Minimal models

A call that depends on itself has the answers that follow from the answers
found so far, until no more are found. There are two ways to run it.

* By copying stacks: the first call finds the answers, and those made before
  it is complete are suspended until there are more (`TableEnv.stackCopy`).
* By stacks of its own: each call has a generator, a predicate that the
  runtime runs on its own stack, and all who make the call consume its answers
  (`TableEnv.ownStacks`). The generator has the outputs as its only arguments;
  it picks the inputs up where the consumer leaves them.
-/

namespace Clausal.TableEnv

open Synth

/-- What is done for a call that is suspended by copying stacks, by its status. -/
def modelArm (e : TableEnv) (body : Goal) (subgoal : ProgVar) (outputs : List ProgVar) :
    Status → Synth Goal
  | .modelInactive => do
    let (_, answer) ← e.newAnswer
      ⟨.modelAnswerTable, .modelAnswerIsNew, .modelCreateBlock⟩ body subgoal outputs
    let completion ← e.call .modelCompletion [subgoal]
    return .disjoin
      [.conjoin answer e.context, .conjoin [completion, .failure e.context] e.context] e.context
  | .modelComplete => do
    return .conjoin (← e.restoreAnswer .modelReturnAll subgoal outputs) e.context
  | _ => do
    return .conjoin (← e.restoreAnswer .modelSuspendConsumer subgoal outputs) e.context

/-- Tables a procedure that is suspended by copying stacks. -/
def stackCopy (e : TableEnv) (body : Goal) (head : TabledHead) (strictness : Strictness) :
    Synth Tabled := do
  let way ← e.lookup head.inputs strictness
  let subgoal ← newHandle "Subgoal" .subgoal
  let status ← newStatus .model
  let setup ← e.call .modelSetup [way.tip, subgoal, status]
  let switch ← e.statusSwitch .model status (e.modelArm body subgoal head.outputs)
  e.tabledBy way head.outputs [setup, switch]

/-- The generator of a procedure. -/
def generator (e : TableEnv) (body : Goal) (head : TabledHead) : Synth Generator := do
  let owner ← newHandle "Generator" .generator
  let inputs ← head.inputs.mapM (foreignArg · .output)
  let pickup ← e.callWith .generatorPickupInputs [owner] inputs
  let (block, answer) ← e.newAnswer
    ⟨.generatorAnswerTable, .generatorAnswerIsNew, .generatorCreateBlock⟩ body owner head.outputs
  let answered ← e.call .generatorReturnAnswer [owner, block]
  let completion ← e.call .generatorCompletion [owner]
  let answers := Goal.disjoin [.conjoin (answer ++ [answered]) e.context, completion] e.context
  return {
    name := "GeneratorFor_" ++ e.pred.name
    outputs := head.outputs
    body := .conjoin [pickup, answers] e.context }

/-- Tables a procedure whose answers come from a generator. The generator is
    the predicate that the module declares next. -/
def ownStacks (e : TableEnv) (body : Goal) (head : TabledHead) (strictness : Strictness) :
    Synth Tabled := do
  let way ← e.lookup head.inputs strictness
  let inputs ← head.inputs.mapM (foreignArg · .input)
  let saveInputs ← e.callWith .generatorSaveInputs [] inputs
  let name ← newVar "Name" .string
  let nameText := e.pred.symName.render ++ "/" ++ toString e.pred.arity
  let closure ← newVar "GeneratorClosure" (.higherOrder .predicate [])
  let consumer ← newHandle "Consumer" .consumer
  let setup ← e.call .generatorSetupConsumer [way.tip, closure, name, consumer]
  let answer ← e.restoreAnswer .generatorConsumeNext consumer head.outputs
  let generator ← e.generator body head
  let tabled ← e.tabledBy way head.outputs
    ([saveInputs, .stringConst name nameText e.context,
      .construct closure (.closure ⟨e.env.nextPred, ⟨0⟩⟩) [] e.context, setup] ++ answer)
  return { tabled with generator := some generator }

end Clausal.TableEnv
