import Clausal.Module.Basic
import Clausal.Ty.Builtin

/-!
# Categories of types

How the values of a type are represented, which decides how they are tabled. A
type that is another name for a type has the category of that type.

Nothing keeps such names from leading in circles, so before a name is looked
through it is followed to where it leads (`Module.headTrail`): to a type
that is no name, to one of its own parameters, and so on to an argument, or
back to itself. A name that leads somewhere does so without leading through
itself, which is why following at most as many names inside one another as
there are declared types is enough (`Module.followName`).

A variable of an argument may be a parameter of the name that is looked through,
and is replaced then. There may be another name where the variable was, so that
the names at the head are looked through in turns (`Module.denotedWithin`).
-/

namespace Clausal

inductive TypeCategory where
  | int | char | string | float | void
  /-- There is one value, a constant, and it needs no representation. -/
  | dummy
  /-- All values are constants, and there are this many. -/
  | enum (size : Nat)
  | higherOrder | tuple
  | typeInfo | typeCtorInfo | dictionary | baseDictionary
  | variable | user
deriving DecidableEq, Repr, Inhabited

namespace TypeCategory

/-- The category of a built-in type. -/
def ofBuiltin? (t : Ty) : Option TypeCategory :=
  if t = .int then some .int
  else if t = .char then some .char
  else if t = .string then some .string
  else if t = .float then some .float
  else if t = .void then some .void
  else if t = .typeInfo then some .typeInfo
  else if t = .typeCtorInfo then some .typeCtorInfo
  else if t = .dictionary then some .dictionary
  else if t = .baseDictionary then some .baseDictionary
  else none

/-- The category of a type with the given constructors. -/
def ofCtors (ctors : List CtorDefn) : TypeCategory :=
  if ctors.all (·.args.isEmpty) then
    if ctors.length = 1 then .dummy else .enum ctors.length
  else .user

end TypeCategory

/-- Where the names at the head of a type lead, and through how many names. -/
inductive NameTrail where
  /-- To a type that is no name. -/
  | type (names : Nat)
  /-- To the argument for the parameter with this number. -/
  | param (i names : Nat)
  /-- Nowhere. -/
  | circle
deriving DecidableEq, Repr, Inhabited

namespace NameTrail

/-- The trail behind this many names. -/
def behind (names : Nat) : NameTrail → NameTrail
  | .type k => .type (names + k)
  | .param i k => .param i (names + k)
  | .circle => .circle

/-- The trail that goes on with the trail of the argument to which it leads. -/
def andThen (args : Nat → NameTrail) : NameTrail → NameTrail
  | .param i k => (args i).behind k
  | t => t

/-- Through how many names a trail leads, unless it is endless. -/
def names? : NameTrail → Option Nat
  | .type k | .param _ k => some k
  | .circle => none

end NameTrail

/-- The number of a variable among the parameters of a declaration. Of several
    parameters that are the same variable the last one counts. -/
def paramNumber? (params : List TypeVar) (v : TypeVar) : Option Nat :=
  ((params.zipIdx.filter (·.1 == v)).getLast?).map Prod.snd

namespace Ty

mutual

/-- Where the names at the head of a type over parameters lead, if `follow`
    tells of each constructor that is a name where it leads. -/
def trail (follow : TypeCtor → Option NameTrail) (params : List TypeVar) : Ty → NameTrail
  | .var v =>
    match paramNumber? params v with
    | some i => .param i 0
    | none => .type 0
  | .defined n args =>
    match follow ⟨n, args.length⟩ with
    | some t => t.andThen (trailOfNth follow params args)
    | none => .type 0
  | .tuple _ | .higherOrder _ _ => .type 0

/-- Where the names at the head of a type in a list lead. -/
def trailOfNth (follow : TypeCtor → Option NameTrail) (params : List TypeVar) :
    List Ty → Nat → NameTrail
  | [], _ => .type 0
  | t :: _, 0 => trail follow params t
  | _ :: ts, i + 1 => trailOfNth follow params ts i

end

end Ty

namespace Module

/-- The declaration of a constructor that is another name for a type, and that
    type. A built-in type is no name. -/
def findName? (m : Module) (c : TypeCtor) : Option (TypeDefn × Ty) :=
  if c.arity = 0 && (TypeCategory.ofBuiltin? (.defined c.name [])).isSome then none
  else
    match m.types.find? c with
    | some defn =>
      match defn.body with
      | .equivalence type => some (defn, type)
      | _ => none
    | none => none

/-- Where a constructor leads if it is a name, following at most `depth` names
    inside one another. -/
def followName (m : Module) : (depth : Nat) → TypeCtor → Option NameTrail
  | 0, c => (m.findName? c).map fun _ => .circle
  | depth + 1, c => (m.findName? c).map fun (defn, type) =>
    (type.trail (m.followName depth) defn.params).behind 1

/-- Where the names at the head of a type lead. -/
def headTrail (m : Module) (t : Ty) : NameTrail :=
  t.trail (m.followName m.types.entries.length) []

/-- Whether a type is another name for a type. -/
def isName (m : Module) : Ty → Bool
  | .defined n args => (m.findName? ⟨n, args.length⟩).isSome
  | _ => false

/-- The type that a name stands for. -/
def expandName (defn : TypeDefn) (type : Ty) (args : List Ty) : Except Fault Ty :=
  match Subst.instantiate? (Assoc.ofList (defn.params.zip args)) type with
  | some t => .ok t
  | none => .error .endless

/-- The type when names at its head have been looked through, as many as
    `names` or all of them. -/
def lookThrough (m : Module) : (names : Nat) → Ty → Except Fault Ty
  | 0, t => .ok t
  | names + 1, .defined n args =>
    match m.findName? ⟨n, args.length⟩ with
    | none => .ok (.defined n args)
    | some (defn, type) => do m.lookThrough names (← expandName defn type args)
  | _ + 1, t => .ok t

/-- The type that the names at the head of a type stand for, where there are
    other names behind them at most `turns` times. -/
def denotedWithin (m : Module) : (turns : Nat) → Ty → Except Fault Ty
  | turns, t =>
    match (m.headTrail t).names? with
    | none => .error .endless
    | some names => do
      let t ← m.lookThrough names t
      if m.isName t then
        match turns with
        | 0 => .error .endless
        | turns + 1 => m.denotedWithin turns t
      else return t

/-- How often there may be other names behind the names at the head of a type,
    beyond the number of its variables: a parameter that a variable is taken for is
    not met again, unless a declaration has variables that are none of its
    parameters. -/
def nameLimit : Nat := 1000000

/-- The type that the names at the head of a type stand for. -/
def denoted (m : Module) (t : Ty) : Except Fault Ty :=
  m.denotedWithin (nameLimit + t.occurrences.length) t

/-- The category of a type that is no name. -/
def ownCategory (m : Module) : Ty → TypeCategory
  | .var _ => .variable
  | .tuple _ => .tuple
  | .higherOrder _ _ => .higherOrder
  | .defined n args =>
    match TypeCategory.ofBuiltin? (.defined n args), m.types.find? ⟨n, args.length⟩ with
    | some c, _ => c
    | none, some { body := .union ctors, .. } => .ofCtors ctors
    | none, _ => .user

/-- The category of a type. -/
def category (m : Module) (t : Ty) : Except Fault TypeCategory :=
  m.ownCategory <$> m.denoted t

/-- The only value of a type that is no name and has one. -/
def ownDummyConstant (m : Module) : Ty → Option Symbol
  | .defined n args =>
    match m.types.find? ⟨n, args.length⟩ with
    | some { body := .union [ctor], .. } =>
      if ctor.args.isEmpty then some (.cons ctor.name 0) else none
    | _ => none
  | _ => none

/-- The only value of a type that has one. -/
def dummyConstant (m : Module) (t : Ty) : Except Fault (Option Symbol) :=
  m.ownDummyConstant <$> m.denoted t

end Module

end Clausal
