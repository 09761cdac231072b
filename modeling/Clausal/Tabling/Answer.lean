import Clausal.Tabling.Lookup

/-!
# Answer blocks

An answer block keeps the outputs of an answer, one in each slot. What
`TableEnv.save` puts into a slot, `TableEnv.restore` takes out of it again. The
slot of an output whose type has a single value stays empty; that value is
made anew.
-/

namespace Clausal

/-- The primitives that save and restore a value of a category, if the
    category has its own. -/
def TypeCategory.slotPrimitives? : TypeCategory → Option (Primitive × Primitive)
  | .int => some (.saveInt, .restoreInt)
  | .char => some (.saveChar, .restoreChar)
  | .string => some (.saveString, .restoreString)
  | .float => some (.saveFloat, .restoreFloat)
  | _ => none

namespace TableEnv

open Synth

/-- Moves a value of a category with its own primitives between a slot and a
    variable. -/
def moveAtomic (e : TableEnv) (p : Primitive) (block : ProgVar) (slot : Int) (var : ProgVar) :
    Synth (List Goal) := do
  let (slotVar, slotGoal) ← e.intVar "Slot" slot
  return [slotGoal, ← e.call p [block, slotVar, var]]

/-- Moves a value between a slot and a variable through its type-info. -/
def moveGeneral (e : TableEnv) (p : Primitive) (type : Ty) (block : ProgVar) (slot : Int)
    (var : ProgVar) : Synth (List Goal) := do
  let (info, infoGoals) ← typeInfo e.context type
  let (slotVar, slotGoal) ← e.intVar "Slot" slot
  return infoGoals ++ [slotGoal, ← e.call p [info, block, slotVar, var]]

/-- Saves a variable in a slot of a block. -/
def save (e : TableEnv) (block : ProgVar) (slot : Int) (var : ProgVar) : Synth (List Goal) := do
  let type ← varType var
  let category ← e.env.category type
  if category = .dummy then return []
  match category.slotPrimitives? with
  | some (p, _) => e.moveAtomic p block slot var
  | none => e.moveGeneral .saveAny type block slot var

/-- Binds a variable to the single value of its type. -/
def restoreDummy (e : TableEnv) (type : Ty) (var : ProgVar) : Synth (List Goal) := do
  match ← e.env.dummyConstant type with
  | some constant => return [.construct var constant [] e.context]
  | none => breach ⟨e.env, e.pred.describe⟩ (.noDummyConstant var)

/-- Binds a variable to what a slot of a block holds. -/
def restore (e : TableEnv) (block : ProgVar) (slot : Int) (var : ProgVar) :
    Synth (List Goal) := do
  let type ← varType var
  let category ← e.env.category type
  if category = .dummy then e.restoreDummy type var
  else
    match category.slotPrimitives? with
    | some (_, p) => e.moveAtomic p block slot var
    | none => e.moveGeneral .restoreAny type block slot var

/-- Saves variables in the slots of a block from number `first` on. -/
def saveFrom (e : TableEnv) (block : ProgVar) (first : Nat) (vars : List ProgVar) :
    Synth (List Goal) :=
  goalsOf (fun (var, slot) => e.save block slot var) (vars.zipIdx first)

/-- Binds variables to what the slots of a block hold from number `first`
    on. -/
def restoreFrom (e : TableEnv) (block : ProgVar) (first : Nat) (vars : List ProgVar) :
    Synth (List Goal) :=
  goalsOf (fun (var, slot) => e.restore block slot var) (vars.zipIdx first)

/-- A new block of a given size, made by a primitive. -/
def newBlock (e : TableEnv) (p : Primitive) (owner : ProgVar) (size : Nat) :
    Synth (ProgVar × List Goal) := do
  let (sizeVar, sizeGoal) ← e.intVar "BlockSize" size
  let block ← newHandle "AnswerBlock" .block
  return (block, [sizeGoal, ← e.call p [owner, sizeVar, block]])

/-- A new block that holds the outputs, made by a primitive. -/
def saveAnswer (e : TableEnv) (p : Primitive) (owner : ProgVar) (outputs : List ProgVar) :
    Synth (ProgVar × List Goal) := do
  let (block, goals) ← e.newBlock p owner outputs.length
  return (block, goals ++ (← e.saveFrom block 0 outputs))

/-- The outputs from a block that a primitive finds. A primitive with several
    solutions gives several answers. -/
def restoreAnswer (e : TableEnv) (p : Primitive) (owner : ProgVar) (outputs : List ProgVar) :
    Synth (List Goal) := do
  let block ← newHandle "AnswerBlock" .block
  let found ← e.call p [owner, block]
  return found :: (← e.restoreFrom block 0 outputs)

/-- The primitives that keep the answers of one owner apart. -/
structure AnswerPrimitives where
  table : Primitive
  isNew : Primitive
  create : Primitive

/-- An answer of the body: it is dropped if the answer table of its owner has
    it already, and otherwise saved in a new block. -/
def newAnswer (e : TableEnv) (ps : AnswerPrimitives) (body : Goal) (owner : ProgVar)
    (outputs : List ProgVar) : Synth (ProgVar × List Goal) := do
  let table ← newHandle "AT0" .trie
  let getTable ← e.call ps.table [owner, table]
  let (node, lookups) ← e.answerLookup table outputs
  let isNew ← e.call ps.isNew [node]
  let (block, saves) ← e.saveAnswer ps.create owner outputs
  return (block, [body, getTable] ++ lookups ++ [isNew] ++ saves)

/-- Describes arguments that have the slots from number `first` on. -/
def tabledArgs (first : Nat) (vars : List ProgVar) : Synth (List TabledArg) :=
  (vars.zipIdx first).mapM fun (var, slot) => do return ⟨var, slot, ← varType var⟩

end TableEnv

end Clausal
