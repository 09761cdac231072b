import Clausal.Tabling.Answer

/-!
# Tabled procedures

What comes of tabling a procedure (`Tabled`): a body that consults the table,
the layout of the table, and for some methods a procedure that finds the
answers (`Generator`). Most bodies look up the call and then switch on the
status that the runtime keeps for it (`TableEnv.statusSwitch`).
-/

namespace Clausal

/-- The head variables of a procedure by mode. -/
structure TabledHead where
  inputs : List ProgVar
  outputs : List ProgVar

/-- The head variables of a procedure that are of a mode. -/
def Procedure.headOf (p : Procedure) (mode : Mode) : List ProgVar :=
  ((p.head.zip p.modes).filter (·.2 == mode)).map Prod.fst

def Procedure.tabledHead (p : Procedure) : TabledHead := ⟨p.headOf .input, p.headOf .output⟩

/-- A procedure that finds the answers of a table. All its arguments are
    outputs, and it shares the variables of the tabled procedure. -/
structure Generator where
  name : String
  outputs : List ProgVar
  body : Goal

/-- What comes of tabling a procedure. -/
structure Tabled where
  body : Goal
  layout : TableLayout
  /-- The variable that holds the place of the call. -/
  tip : Option ProgVar := none
  generator : Option Generator := none

namespace TableEnv

open Synth

/-- A switch on the status of a call, with an arm for each status that a call
    can be in. -/
def statusSwitch (e : TableEnv) (type : StatusType) (status : ProgVar)
    (arm : Status → Synth Goal) : Synth Goal := do
  let arms ← type.statuses.mapM fun s => do return (s.symbol, ← arm s)
  return .switchOn status arms false e.context

/-- A new variable for a status. -/
def newStatus (type : StatusType) : Synth ProgVar := newVar "Status" type.type

/-- A body that looks up the call and goes on with `goals`. -/
def tabledBy (e : TableEnv) (way : CallLookup) (outputs : List ProgVar) (goals : List Goal) :
    Synth Tabled := do
  return {
    body := .conjoin (way.goals ++ goals) e.context
    layout := .callTable way.steps way.inputs (← tabledArgs 0 outputs)
    tip := some way.tip }

/-- A call is found to be active when it is made again. -/
def infiniteRecursion : String := "detected infinite recursion"

/-- A call is found to be made again while some of its answers are known. -/
def needMinimalModel : String := "detected need for minimal model"

end TableEnv

end Clausal
