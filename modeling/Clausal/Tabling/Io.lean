import Clausal.Tabling.Tabled

/-!
# Tabling input and output

Makes the I/O actions of foreign procedures repeatable for a debugger. Inside
a window of actions the runtime numbers every action. When the action with a
number is first done, its outputs are kept under the number; when the debugger
goes back to before it, they are restored and the action is not done again.

The block of an action that is kept for the declarative debugger holds the
description of the action and its inputs too, before its outputs. The I/O
state comes last, if it is kept at all.
-/

namespace Clausal.TableEnv

open Synth

/-- The slots of the block of an action. -/
structure IoSlots where
  firstInput : Nat
  firstOutput : Nat
  state : Nat
  size : Nat

/-- The head of an action, with the I/O states apart. -/
structure IoHead where
  inputs : List ProgVar
  outputs : List ProgVar
  statesIn : List ProgVar
  statesOut : List ProgVar

/-- Splits variables into the I/O states and the others. -/
def splitStates : List ProgVar → Synth (List ProgVar × List ProgVar)
  | [] => pure ([], [])
  | v :: vs => do
    let type ← varType v
    let (states, others) ← splitStates vs
    return if type = .ioState then (v :: states, others) else (states, v :: others)

/-- The head of an action. -/
def ioHead (head : TabledHead) : Synth IoHead := do
  let (statesIn, inputs) ← splitStates head.inputs
  let (statesOut, outputs) ← splitStates head.outputs
  return { inputs, outputs, statesIn, statesOut }

/-- The slots of an action with the given head. -/
def IoHead.slots (h : IoHead) (purpose : IoPurpose) (statesKept : Bool) : IoSlots :=
  let firstInput := if purpose = .decl then 1 else 0
  let firstOutput := if purpose = .decl then 1 + h.inputs.length else 0
  let state := firstOutput + h.outputs.length
  let size := if statesKept && !h.statesOut.isEmpty then state + 1 else state
  { firstInput, firstOutput, state, size }

/-- The I/O states that an action makes, each with one that it is given. Those
    that it is given are used in turn. -/
def IoHead.statePairs (h : IoHead) : List (ProgVar × ProgVar) :=
  h.statesOut.zipIdx.filterMap fun (state, i) =>
    (h.statesIn[i % h.statesIn.length]?).map (state, ·)

/-- Takes the effect of an action from the table. -/
def ioRestore (e : TableEnv) (h : IoHead) (slots : IoSlots) (tip : ProgVar) :
    Synth (List Goal) := do
  let block ← newHandle "AnswerBlock" .block
  let getBlock ← e.call .memoGetBlock [tip, block]
  let outputs ← e.restoreFrom block slots.firstOutput h.outputs
  let states ← h.statePairs |> goalsOf fun (state, before) =>
    if e.env.options.traceTableIoStates then e.moveAtomic .restoreIoState block slots.state state
    else pure [.assign state before e.context]
  return getBlock :: outputs ++ states

/-- Does an action as a single one, whatever actions it is made of. -/
def ioBracket (e : TableEnv) (unit : IoUnit) (body : Goal) : Synth (List Goal) := do
  match unit with
  | .alone => return [body]
  | .unitize =>
    let traced ← newVar "TraceEnabled" .int
    return [← e.call .ioLeftBracket [traced], body, ← e.call .ioRightBracket [traced]]

/-- Saves the description of an action and its inputs for the declarative
    debugger. -/
def ioSaveEntry (e : TableEnv) (h : IoHead) (slots : IoSlots) (block : ProgVar) :
    Synth (List Goal) := do
  let entry ← newHandle "TableIoEntry" .ioEntry
  let saveEntry ← e.moveAtomic .saveIoEntry block 0 entry
  let inputs ← e.saveFrom block slots.firstInput h.inputs
  return .construct entry (.ioEntry e.proc) [] e.context :: saveEntry ++ inputs

/-- Does an action and keeps its effect. -/
def ioRecord (e : TableEnv) (body : Goal) (purpose : IoPurpose) (unit : IoUnit) (h : IoHead)
    (slots : IoSlots) (tip : ProgVar) : Synth (List Goal) := do
  let action ← e.ioBracket unit body
  let (block, create) ← e.newBlock .memoCreateBlock tip slots.size
  let entry ←
    match purpose with
    | .decl => e.ioSaveEntry h slots block
    | .proc => pure []
  let outputs ← e.saveFrom block slots.firstOutput h.outputs
  let states ←
    if e.env.options.traceTableIoStates then
      goalsOf (e.moveAtomic .saveIoState block slots.state) h.statesOut
    else pure []
  return action ++ create ++ entry ++ outputs ++ states

/-- Tables an I/O action. Outside the window of actions it is just done. -/
def tableIo (e : TableEnv) (body : Goal) (purpose : IoPurpose) (unit : IoUnit)
    (head : TabledHead) : Synth Tabled := do
  let h ← ioHead head
  let slots := h.slots purpose e.env.options.traceTableIoStates
  let root ← newHandle "T0" .trie
  let counter ← newVar "Counter" .int
  let start ← newVar "Start" .int
  let inRange ← e.call .ioInRange [root, counter, start]
  let tip ← newHandle "T" .trie
  let lookup ← e.call .lookupStartInt [root, counter, start, tip]
  let hasAnswer ← e.call .ioHasAnswer [tip]
  let restore ← e.ioRestore h slots tip
  let record ← e.ioRecord body purpose unit h slots tip
  let once := Goal.ifThenElse hasAnswer (.conjoin restore e.context) (.conjoin record e.context)
    e.context
  return {
    body := .ifThenElse inRange (.conjoin [lookup, once] e.context) body e.context
    layout := .ioTable purpose unit (← tabledArgs slots.firstInput h.inputs)
      (← tabledArgs slots.firstOutput h.outputs) }

end Clausal.TableEnv
