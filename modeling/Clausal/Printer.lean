import Clausal.Module.Basic

/-!
# Printing procedures

A procedure as text: its declaration, how it is evaluated, where its witnesses
are, how its table is laid out, and its clause. Names of variables carry their
numbers, so that no two are printed alike. The lines about dictionaries are in
the order of their text.
-/

namespace Clausal

/-- What the text of a goal depends on besides the goal. -/
structure Printer where
  colours : Bool
  env : Module
  vars : VarTable

namespace Printer

variable (p : Printer)

def paint (style : Text.Style) (text : String) : String := Text.paint p.colours style text

def var (v : ProgVar) : Except Fault String := p.vars.name v

def varList (vs : List ProgVar) : Except Fault String := do return commas (← vs.mapM p.var)

def predName (r : ProcRef) : Except Fault String := do return (← p.env.pred r.pred).name

def symbol : Symbol → Except Fault String
  | .cons n _ => .ok n.name
  | .tuple _ => .ok "\x7b\x7d"
  | .int n => .ok (p.paint .magenta (toString n))
  | .string s => .ok (p.paint .green (Text.quoted s))
  | .closure r => do return "closure(" ++ (← p.predName r) ++ ")"
  | .typeCtorInfo c => .ok ("type_ctor_info(" ++ c.render ++ ")")
  | .baseDictionary _ cls _ key =>
    .ok ("base_typeclass_info(" ++ cls.render ++ ", " ++ key ++ ")")
  | .typeInfo _ => .ok "type_info"
  | .dictionary => .ok "typeclass_info"
  | .tableRoot r => do return "tabling_info(" ++ (← p.predName r) ++ ")"
  | .ioEntry r => do return "table_io_entry(" ++ (← p.predName r) ++ ")"

/-- A function symbol applied to variables. -/
def functor (s : Symbol) (args : List ProgVar) : Except Fault String := do
  let name ← p.symbol s
  if args.isEmpty then return name
  let args ← p.varList args
  match s with
  | .tuple _ => return "\x7b" ++ args ++ "\x7d"
  | _ => return name ++ "(" ++ args ++ ")"

/-- What stands in front of a call that is not pure. -/
def purityMark : Purity → String
  | .pure => ""
  | purity => p.paint .red purity.render ++ " "

def unification (lhs : ProgVar) (rhs : UnifyRhs) (kind : Unification) : Except Fault String := do
  let lhs ← p.var lhs
  match kind with
  | .construct _ s args => return lhs ++ " := " ++ (← p.functor s args)
  | .deconstruct _ s args canFail =>
    return lhs ++ (if canFail then " ?= " else " => ") ++ (← p.functor s args)
  | .assign target source => return (← p.var target) ++ " := " ++ (← p.var source)
  | .test left right => return (← p.var left) ++ " == " ++ (← p.var right)
  | .complicated _ typeInfos =>
    let rhs ←
      match rhs with
      | .var v => p.var v
      | .functor s args => p.functor s args
    if typeInfos.isEmpty then return lhs ++ " = " ++ rhs
    return lhs ++ " = " ++ rhs ++ " \x7b" ++ (← p.varList typeInfos) ++ "\x7d"

def foreignArg (a : ForeignArg) : Except Fault String := do
  let var ← p.var a.var
  match a.name with
  | some n => return var ++ "/" ++ n
  | none => return var

/-- The indentation of a nested goal. -/
def pad (depth : Nat) : String := String.ofList (List.replicate (4 * depth) ' ')

mutual

/-- A goal, indented. -/
def goal (depth : Nat) : Goal → Except Fault String
  | .conj _ .plain [] => .ok (pad depth ++ p.paint .magenta "true")
  | .conj _ .plain (g :: gs) => do return ",\n".intercalate (← goals depth (g :: gs))
  | .conj _ .parallel gs => do
    return pad depth ++ "(\n" ++
      ("\n" ++ pad depth ++ "&\n").intercalate (← goals (depth + 1) gs) ++ "\n" ++ pad depth ++ ")"
  | .disj _ [] => .ok (pad depth ++ p.paint .magenta "fail")
  | .disj _ (g :: gs) => do
    return pad depth ++ "(\n" ++
      ("\n" ++ pad depth ++ ";\n").intercalate (← goals (depth + 1) (g :: gs)) ++
      "\n" ++ pad depth ++ ")"
  | .switch _ v canFail cases => do
    let var ← p.var v
    let title := "% switch on `" ++ var ++ "`" ++ (if canFail then ", can fail" else "")
    return pad depth ++ "( " ++ p.paint .dim title ++ "\n" ++
      ("\n" ++ pad depth ++ ";\n").intercalate (← arms depth var cases) ++ "\n" ++ pad depth ++ ")"
  | .negation _ g => do
    return pad depth ++ p.paint .magenta "not" ++ " (\n" ++ (← goal (depth + 1) g) ++
      "\n" ++ pad depth ++ ")"
  | .ite _ _ c y n => do
    return pad depth ++ "( " ++ p.paint .magenta "if" ++ "\n" ++ (← goal (depth + 1) c) ++
      "\n" ++ pad depth ++ p.paint .magenta "then" ++ "\n" ++ (← goal (depth + 1) y) ++
      "\n" ++ pad depth ++ p.paint .magenta "else" ++ "\n" ++ (← goal (depth + 1) n) ++
      "\n" ++ pad depth ++ ")"
  | .scope _ reason g => do
    let opening ←
      match reason with
      | .exist vs => do pure (p.paint .magenta "some" ++ " [" ++ (← p.varList vs) ++ "]")
      | .promise purity => pure (p.paint .magenta ("promise_" ++ purity.render))
    return pad depth ++ opening ++ " (\n" ++ (← goal (depth + 1) g) ++ "\n" ++ pad depth ++ ")"
  | .call info _ name args => do
    return pad depth ++ p.purityMark info.purity ++ p.paint .blue name.name ++
      "(" ++ (← p.varList args) ++ ")"
  | .genericCall _ (.closure v) args _ => do
    return pad depth ++ p.paint .blue "call" ++ "(" ++ (← p.var v) ++ ", " ++
      (← p.varList args) ++ ")"
  | .genericCall _ (.insertion r) args _ => do
    return pad depth ++ p.paint .blue "tuple_insert" ++ "(" ++ (← p.predName r) ++ ", " ++
      (← p.varList args) ++ ")"
  | .foreign info f => do
    let args ← (f.args ++ f.extraArgs).mapM p.foreignArg
    return pad depth ++ p.purityMark info.purity ++ p.paint .blue "foreign_proc" ++
      "(" ++ commas args ++ ", " ++ Text.quoted f.code ++ ")"
  | .unify _ lhs rhs kind => do return pad depth ++ (← p.unification lhs rhs kind)
  | .lambda _ lhs head body _ => do
    return pad depth ++ (← p.var lhs) ++ " = (" ++ head.kind.render ++
      "(" ++ (← p.varList head.args) ++ ") " ++ p.paint .magenta "is" ++ " " ++
      head.determinism.render ++ " :-\n" ++ (← goal (depth + 1) body) ++ "\n" ++ pad depth ++ ")"

/-- Goals, one text each. -/
def goals (depth : Nat) : List Goal → Except Fault (List String)
  | [] => .ok []
  | g :: gs => do
    let text ← goal depth g
    return text :: (← goals depth gs)

/-- The arms of a switch, one text each. -/
def arms (depth : Nat) (var : String) : List (Symbol × Goal) → Except Fault (List String)
  | [] => .ok []
  | (s, g) :: rest => do
    let title := "% " ++ var ++ " has functor " ++ Text.plain (← p.symbol s)
    let text := pad depth ++ "    " ++ p.paint .dim title ++ "\n" ++ (← goal (depth + 1) g)
    return text :: (← arms depth var rest)

end

/-- A line of its own that is a comment. -/
def comment (text : String) : String := p.paint .dim text ++ "\n"

/-- Where the witnesses are found. -/
def witnessComments (scope : TypeScope) (w : WitnessMap) : Except Fault String := do
  let typeInfos := w.typeInfos.toList.mergeSort fun a b => a.1.index ≤ b.1.index
  let typeInfos ← typeInfos.mapM fun (v, source) => do
    let place ←
      match source with
      | .direct var => p.var var
      | .slot var slot => do pure ((← p.var var) ++ "[" ++ toString slot ++ "]")
    return p.comment ("% type_info for " ++ scope.varName v ++ ": " ++ place)
  let dictionaries ← w.dictionaries.toList.mapM fun (c, var) => do
    return p.paint .dim ("% typeclass_info for " ++ c.render scope ++ ": " ++ (← p.var var))
  let sorted := dictionaries.mergeSort fun a b => a ≤ b
  return String.join (typeInfos ++ sorted.map (· ++ "\n"))

/-- How the table is laid out. -/
def tableComments (layout : TableLayout) : String :=
  let title :=
    match layout with
    | .callTable steps _ _ => "% call table steps: [" ++ commas (steps.map TrieStep.render) ++ "]"
    | .ioTable purpose unit _ _ => "% io table: " ++ purpose.render ++ ", " ++ unit.render
  p.comment title ++
    p.comment ("% inputs: " ++ toString layout.inputs.length ++
      ", outputs: " ++ toString layout.outputs.length)

end Printer

/-- The text of a procedure, in colours if asked for. -/
def Module.renderProc (m : Module) (colours : Bool) (r : ProcRef) : Except Fault String := do
  let (pred, proc) ← m.proc r
  let p : Printer := ⟨colours, m, proc.vars⟩
  let args ← (proc.head.zip proc.modes).mapM fun (v, mode) => do
    return (← p.var v) ++ " :: " ++ p.paint .cyan mode.render
  let declaration :=
    p.paint .magenta (":- " ++ pred.kind.render) ++ " " ++ p.paint .blue pred.symName.render ++
      "(" ++ commas args ++ ") " ++ p.paint .magenta "is" ++ " " ++ proc.determinism.render ++ ".\n"
  let pragma :=
    if proc.method.isTabled then
      p.paint .magenta ":- pragma" ++ " " ++ proc.method.render ++ ".\n"
    else ""
  let witnesses ← p.witnessComments pred.scope proc.witnesses
  let table :=
    match proc.table with
    | some layout => p.tableComments layout
    | none => ""
  let head := p.paint .blue pred.name ++ "(" ++ (← p.varList proc.head) ++ ") " ++
    p.paint .white ":-" ++ "\n"
  return declaration ++ pragma ++ witnesses ++ table ++ head ++ (← p.goal 1 proc.body) ++ "."

/-- The text of the procedures that the module itself declares, each followed
    by a line feed. -/
def Module.render (m : Module) (colours : Bool) : Except Fault String := do
  let texts ← m.allProcs.mapM fun r => do
    let pred ← m.pred r.pred
    if pred.home == m.name then return (← m.renderProc colours r) ++ "\n" else return ""
  return String.join texts

end Clausal
