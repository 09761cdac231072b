import Clausal.Module.Category
import Clausal.Tabling.Env

/-!
# Call tables and answer tables

A table is a trie. The call table of a procedure is entered at its root, and
each input argument leads one node further down (`TableEnv.lookup`); the node
that the last one leads to is the place of the call. In the same way the
outputs of an answer lead to its place in the table of answers
(`TableEnv.answerLookup`).

The type of an argument decides how it is looked up (`TableEnv.lookupArg`).
All values of a type with a single value lead to where they start from.
-/

namespace Clausal

/-- The way of a call down the call table. -/
structure CallLookup where
  goals : List Goal
  /-- The node that is reached. -/
  tip : ProgVar
  steps : List TrieStep
  inputs : List TabledArg

namespace TableEnv

open Synth

/-- A look-up by a primitive that takes a node and a value. -/
def lookupAtomic (e : TableEnv) (step : TrieStep) (p : Primitive) (node var : ProgVar)
    (next : String) : Synth (TrieStep × ProgVar × List Goal) := do
  let nextNode ← newHandle next .trie
  return (step, nextNode, [← e.call p [node, var, nextNode]])

/-- The primitive that looks up a value through its type-info. -/
def generalPrimitive : (isPoly byAddr : Bool) → Primitive
  | false, false => .lookupUser
  | false, true => .lookupUserAddr
  | true, false => .lookupPoly
  | true, true => .lookupPolyAddr

/-- A look-up through the type-info of the value. -/
def lookupGeneral (e : TableEnv) (type : Ty) (byAddr : Bool) (node var : ProgVar) (next : String) :
    Synth (TrieStep × ProgVar × List Goal) := do
  let isPoly := !type.isGround
  let (info, infoGoals) ← typeInfo e.context type
  let nextNode ← newHandle next .trie
  let lookup ← e.call (generalPrimitive isPoly byAddr) [info, node, var, nextNode]
  return (.general type isPoly byAddr, nextNode, infoGoals ++ [lookup])

/-- One step down a trie, from `node` on the value of `var`. Closures and
    static data of the runtime have no structure to compare, so they are
    looked up by address whatever is asked for. -/
def lookupArg (e : TableEnv) (node var : ProgVar) (byAddr : Bool) (next : String) :
    Synth (TrieStep × ProgVar × List Goal) := do
  let type ← varType var
  match ← e.env.category type with
  | .dummy | .void => return (.dummy, node, [])
  | .int => e.lookupAtomic .int .lookupInt node var next
  | .char => e.lookupAtomic .char .lookupChar node var next
  | .string => e.lookupAtomic .string .lookupString node var next
  | .float => e.lookupAtomic .float .lookupFloat node var next
  | .typeInfo => e.lookupAtomic .typeInfo .lookupTypeInfo node var next
  | .dictionary => e.lookupAtomic .dictionary .lookupDictionary node var next
  | .enum size =>
    let nextNode ← newHandle next .trie
    let (sizeVar, sizeGoal) ← e.intVar "EnumSize" size
    return (.enum size, nextNode, [sizeGoal, ← e.call .lookupEnum [node, sizeVar, var, nextNode]])
  | .higherOrder | .typeCtorInfo | .baseDictionary => e.lookupGeneral type true node var next
  | .variable | .tuple | .user => e.lookupGeneral type byAddr node var next

/-- The way down from `node` on the inputs from number `slot` on. -/
def lookupFrom (e : TableEnv) (strictness : Strictness) :
    (slot : Nat) → (node : ProgVar) → List ProgVar → Synth CallLookup
  | _, node, [] => return { goals := [], tip := node, steps := [], inputs := [] }
  | slot, node, var :: vars => do
    let (step, node, goals) ←
      match strictness.lookup slot with
      | .implied => pure (TrieStep.implied, node, [])
      | l => e.lookupArg node var (l == .addr) ("T" ++ toString (slot + 1))
    let input : TabledArg := ⟨var, slot, ← varType var⟩
    let rest ← e.lookupFrom strictness (slot + 1) node vars
    return {
      goals := goals ++ rest.goals
      tip := rest.tip
      steps := step :: rest.steps
      inputs := input :: rest.inputs }

/-- The way of a call with the given inputs, from the root of the call
    table. -/
def lookup (e : TableEnv) (inputs : List ProgVar) (strictness : Strictness) :
    Synth CallLookup := do
  let (root, rootGoal) ← e.root
  let way ← e.lookupFrom strictness 0 root inputs
  return { way with goals := rootGoal :: way.goals }

/-- The way down from `node` on the outputs of an answer from number `slot`
    on: the node that is reached, and the goals. -/
def answerLookupFrom (e : TableEnv) :
    (slot : Nat) → (node : ProgVar) → List ProgVar → Synth (ProgVar × List Goal)
  | _, node, [] => return (node, [])
  | slot, node, var :: vars => do
    let (_, node, goals) ← e.lookupArg node var false ("AT" ++ toString (slot + 1))
    let (node, more) ← e.answerLookupFrom (slot + 1) node vars
    return (node, goals ++ more)

/-- The way of an answer down an answer table. -/
def answerLookup (e : TableEnv) (table : ProgVar) (outputs : List ProgVar) :
    Synth (ProgVar × List Goal) :=
  e.answerLookupFrom 0 table outputs

end TableEnv

end Clausal
