import Clausal.Witness.State

/-!
# Type-infos

The run-time description of a type is built bottom up. A type variable's is
found where the witness map says, either in a variable or in a slot of a
dictionary; one that is found nowhere becomes a new variable that the head of
the procedure is to bind. A constructor without arguments is described by a
constant, all others by a cell of the constructor's description and those of
the arguments. Constructors of varying size have their size in the cell, after
their description.
-/

namespace Clausal

/-- What a type-info of the constructor is called. -/
def RuntimeCtor.label : RuntimeCtor → String
  | .defined c => c.name.name
  | .tuple => "tuple"
  | .higherOrder .predicate => "pred"
  | .higherOrder .function => "func"

namespace Synth

/-- The type-info of a type variable. -/
def typeVarInfo (context : Context) (v : TypeVar) : Synth (ProgVar × List Goal) := do
  let s ← get
  let name := s.scope.varName v
  match s.witnesses.typeInfos.find? v with
  | some (.direct var) => return (var, [])
  | some (.slot dictionary slot) =>
    takeSlot .typeInfoFromDictionary name dictionary slot (newTypeInfo name) context
  | none =>
    let var ← newTypeInfo name
    putTypeInfo v (.direct var)
    return (var, [])

/-- The type-info of a constructor applied to types with the given
    type-infos. -/
def typeCell (context : Context) (ctor : RuntimeCtor) (args : List ProgVar) :
    Synth (ProgVar × List Goal) := do
  let ctorName := "TypeCtorInfo_for_" ++ ctor.label
  if args.isEmpty && !ctor.hasVariableArity then
    -- The description of the constructor is that of the type.
    let info ← newVar ctorName .typeInfo
    return (info, [.construct info (.typeCtorInfo ctor) [] context])
  let ctorInfo ← newVar ctorName .typeCtorInfo
  let (size, sizeGoals) ←
    if ctor.hasVariableArity then
      let arity ← newVar "Arity" .int
      pure ([arity], [Goal.intConst arity args.length context])
    else pure ([], [])
  let info ← newTypeInfo ctor.label
  return (info,
    [.construct ctorInfo (.typeCtorInfo ctor) [] context] ++ sizeGoals ++
      [.construct info (.typeInfo ctor) (ctorInfo :: size ++ args) context])

mutual

/-- The type-info of a type. -/
def typeInfo (context : Context) : Ty → Synth (ProgVar × List Goal)
  | .var v => typeVarInfo context v
  | .defined n ts => do
    let (args, goals) ← typeInfos context ts
    let (info, more) ← typeCell context (.defined ⟨n, ts.length⟩) args
    return (info, goals ++ more)
  | .tuple ts => do
    let (args, goals) ← typeInfos context ts
    let (info, more) ← typeCell context .tuple args
    return (info, goals ++ more)
  | .higherOrder k ts => do
    let (args, goals) ← typeInfos context ts
    let (info, more) ← typeCell context (.higherOrder k) args
    return (info, goals ++ more)

/-- The type-infos of types, in order. -/
def typeInfos (context : Context) : List Ty → Synth (List ProgVar × List Goal)
  | [] => pure ([], [])
  | t :: ts => do
    let (info, goals) ← typeInfo context t
    let (infos, more) ← typeInfos context ts
    return (info :: infos, goals ++ more)

end

/-- The variable in or through which the type-info of a type variable is
    found. -/
def typeVarHolder (v : TypeVar) : Synth ProgVar := do
  match (← get).witnesses.typeInfos.find? v with
  | some source => return source.var
  | none => return (← typeVarInfo {} v).1

end Synth

end Clausal
