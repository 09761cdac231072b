import Clausal.Witness.TypeInfo

/-!
# Emitting tabling code

The code that tables a procedure is a series of calls of runtime primitives.
A primitive is reached by a plain call or, if the options ask for it or it is
given more than its declared arguments, by inline foreign code
(`TableEnv.callWith`). Both have the same effect.

Tabling comes after witness passing, so that a procedure has the type-infos of
its type variables at hand; the code is emitted as a `Synth` step, which knows
where they are.
-/

namespace Clausal

/-- What is read while a procedure is tabled. -/
structure TableEnv where
  env : Module
  /-- The procedure that is tabled. -/
  proc : ProcRef
  /-- Its predicate. -/
  pred : Predicate
  /-- Where its body comes from. -/
  context : Context

namespace Synth

/-- A new variable for a reference into the tabling runtime. -/
def newHandle (name : String) (h : Handle) : Synth ProgVar := newVar name h.type

/-- The type of a variable. -/
def varType (v : ProgVar) : Synth Ty := do return ← (← get).vars.type v

/-- A variable as an argument of foreign code, under its own name. -/
def foreignArg (v : ProgVar) (mode : Mode) : Synth ForeignArg := do
  return ⟨v, (← (← get).vars.get v).name, mode⟩

/-- The goals that a step gives for the members of a list, in order. -/
def goalsOf {α : Type} (step : α → Synth (List Goal)) : List α → Synth (List Goal)
  | [] => pure []
  | a :: as => do
    let goals ← step a
    let more ← goalsOf step as
    return goals ++ more

end Synth

namespace TableEnv

open Synth

/-- The piece of foreign code that runs a primitive. -/
def inlineCode (p : Primitive) (args extra : List ForeignArg) : Synth ForeignCode := do
  let vars := (← get).vars
  let names ← (args ++ extra).mapM fun a => (vars.name a.var : Except Fault String)
  return {
    callee := p.proc
    args
    extraArgs := extra
    code := p.inlineName ++ "(" ++ commas names ++ ");" }

/-- The run of a primitive, with values that are none of its declared
    arguments. -/
def callWith (e : TableEnv) (p : Primitive) (args : List ProgVar) (extra : List ForeignArg) :
    Synth Goal := do
  let shape : CallShape := ⟨p.determinism, p.purity⟩
  if !e.env.options.tablingViaExtraArgs && extra.isEmpty then
    return .callProc p.proc p.symName args (Goal.outputVars args p.modes) shape e.context
  let foreignArgs ← (args.zip p.modes).mapM fun (v, mode) => foreignArg v mode
  return .callForeign (← inlineCode p foreignArgs extra) shape e.context

/-- The run of a primitive. -/
def call (e : TableEnv) (p : Primitive) (args : List ProgVar) : Synth Goal := e.callWith p args []

/-- A new variable for a known integer, and the goal that binds it. -/
def intVar (e : TableEnv) (name : String) (value : Int) : Synth (ProgVar × Goal) := do
  let v ← newVar name .int
  return (v, .intConst v value e.context)

/-- Gives the program up at run time, with a message about the procedure. -/
def tableError (e : TableEnv) (problem : String) : Synth Goal := do
  let message ← newVar "Message" .string
  let text := problem ++ " in " ++ e.pred.describe
  return .conjoin [.stringConst message text e.context, ← e.call .tableError [message]] e.context

/-- A new variable for the root of the procedure's call table, and the goal
    that binds it. -/
def root (e : TableEnv) : Synth (ProgVar × Goal) := do
  let v ← newHandle "T0" .trie
  return (v, .construct v (.tableRoot e.proc) [] e.context)

/-- The goal as the callers of the procedure see it. The primitives have
    effects, but those stay inside the table: a procedure that was pure is
    promised to be. -/
def promised (e : TableEnv) (purity : Purity) (g : Goal) : Goal :=
  if purity = .pure ∧ g.info.purity ≠ .pure then .within (.promise .pure) g e.context else g

end TableEnv

end Clausal
