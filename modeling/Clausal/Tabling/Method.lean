import Clausal.Ty.Text

/-!
# Ways of evaluating a procedure

How a procedure is evaluated: normally, or through a table of its calls, and
then how each input argument is looked up and which answers are kept. A tabled
procedure carries a description of its table (`TableLayout`).
-/

namespace Clausal

/-- How one input argument is looked up in a call table. -/
inductive ArgLookup where
  /-- By its value. -/
  | value
  /-- By its address. -/
  | addr
  /-- Not at all: it is promised to follow from the others. -/
  | implied
deriving DecidableEq, Repr, Inhabited

def ArgLookup.render : ArgLookup → String
  | .value => "value"
  | .addr => "addr"
  | .implied => "promise_implied"

/-- How the input arguments are looked up. -/
inductive Strictness where
  | allStrict
  | allFastLoose
  /-- One way for each input, in order. -/
  | specified (lookups : List ArgLookup)
deriving DecidableEq, Repr, Inhabited

namespace Strictness

/-- How an input is looked up. Those that nothing is said of are looked up by
    value. -/
def lookup : Strictness → (input : Nat) → ArgLookup
  | .allStrict, _ => .value
  | .allFastLoose, _ => .addr
  | .specified ls, i => (ls[i]?).getD .value

def render : Strictness → String
  | .allStrict => "all_strict"
  | .allFastLoose => "all_fast_loose"
  | .specified ls => "specified([" ++ commas (ls.map ArgLookup.render) ++ "])"

end Strictness

/-- How a minimal model is found. -/
inductive ModelMethod where
  /-- Consumers are suspended by copying their stacks. -/
  | stackCopy
  /-- Each call is answered by a generator on stacks of its own. -/
  | ownStacks
deriving DecidableEq, Repr, Inhabited

def ModelMethod.render : ModelMethod → String
  | .stackCopy => "stack_copy"
  | .ownStacks => "own_stacks"

/-- What the answers of an I/O tabled procedure are kept for. -/
inductive IoPurpose where
  /-- For doing the action again. -/
  | proc
  /-- For the declarative debugger too. -/
  | decl
deriving DecidableEq, Repr, Inhabited

def IoPurpose.render : IoPurpose → String
  | .proc => "proc"
  | .decl => "decl"

/-- What happens to the I/O actions inside an I/O tabled procedure. -/
inductive IoUnit where
  /-- Each is tabled on its own. -/
  | alone
  /-- The whole call is one action. -/
  | unitize
deriving DecidableEq, Repr, Inhabited

def IoUnit.render : IoUnit → String
  | .alone => "alone"
  | .unitize => "unitize"

/-- How a procedure is evaluated. -/
inductive EvalMethod where
  | normal
  | loopCheck (strictness : Strictness)
  | memo (strictness : Strictness)
  | minimalModel (method : ModelMethod) (strictness : Strictness)
  | tableIo (purpose : IoPurpose) (unit : IoUnit)
deriving DecidableEq, Repr, Inhabited

namespace EvalMethod

def isTabled (m : EvalMethod) : Bool := m != .normal

def render : EvalMethod → String
  | .normal => "normal"
  | .loopCheck s => "loop_check(" ++ s.render ++ ")"
  | .memo s => "memo(" ++ s.render ++ ")"
  | .minimalModel m _ => "minimal_model_" ++ m.render
  | .tableIo p u => "table_io(" ++ p.render ++ ", " ++ u.render ++ ")"

end EvalMethod

/-- The look-up of one input argument. -/
inductive TrieStep where
  /-- The type has one value; nothing is looked up. -/
  | dummy
  | int | char | string | float
  /-- An enumeration with this many constants. -/
  | enum (size : Nat)
  /-- Any other type, looked up through its type-info. -/
  | general (type : Ty) (isPoly byAddr : Bool)
  | typeInfo | dictionary
  /-- The argument follows from the others; nothing is looked up. -/
  | implied
deriving DecidableEq, Repr, Inhabited

def TrieStep.render : TrieStep → String
  | .dummy => "dummy"
  | .int => "int"
  | .char => "char"
  | .string => "string"
  | .float => "float"
  | .enum n => "enum(" ++ toString n ++ ")"
  | .general _ isPoly byAddr =>
    "general(" ++ (if isPoly then "poly" else "mono") ++ ", " ++
      (if byAddr then "addr" else "value") ++ ")"
  | .typeInfo => "typeinfo"
  | .dictionary => "typeclassinfo"
  | .implied => "promise_implied"

/-- A tabled argument: its variable, its place in the call table or the answer
    block, and its type. -/
structure TabledArg where
  var : ProgVar
  slot : Nat
  type : Ty
deriving DecidableEq, Repr, Inhabited

/-- The description of a procedure's table. -/
inductive TableLayout where
  | callTable (steps : List TrieStep) (inputs outputs : List TabledArg)
  | ioTable (purpose : IoPurpose) (unit : IoUnit) (inputs outputs : List TabledArg)
deriving DecidableEq, Repr, Inhabited

namespace TableLayout

def inputs : TableLayout → List TabledArg
  | .callTable _ i _ | .ioTable _ _ i _ => i

def outputs : TableLayout → List TabledArg
  | .callTable _ _ o | .ioTable _ _ _ o => o

end TableLayout

end Clausal
