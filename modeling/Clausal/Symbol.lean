import Clausal.Class

/-!
# Function symbols

What a unification can build a value with or take one apart by: the
constructors of the program's own types, constants, and the cells and
constants of the run-time representation of types, classes and tables.
-/

namespace Clausal

/-- A type constructor as the run-time system knows it. Tuples of all sizes
    share one, as do all predicate types and all function types, so that their
    size is told apart by the type-info. -/
inductive RuntimeCtor where
  | defined (ctor : TypeCtor)
  | tuple
  | higherOrder (kind : CallableKind)
deriving DecidableEq, Repr, Inhabited

namespace RuntimeCtor

/-- Whether types of different sizes share the constructor. -/
def hasVariableArity : RuntimeCtor → Bool
  | .defined _ => false
  | .tuple | .higherOrder _ => true

def render : RuntimeCtor → String
  | .defined c => c.render
  | .tuple => "builtin.tuple/0"
  | .higherOrder k => "builtin." ++ k.render ++ "/0"

end RuntimeCtor

/-- The run-time constructor of a type that is not a variable. -/
def Ty.runtimeCtor? : Ty → Option RuntimeCtor
  | .var _ => none
  | .defined n ts => some (.defined ⟨n, ts.length⟩)
  | .tuple _ => some .tuple
  | .higherOrder k _ => some (.higherOrder k)

/-- The integer that a machine word stands for: integers have 64 bits, and the
    upper half of the words stands for the negative ones. -/
def wordValue (word : Nat) : Int := Int.bmod word (Nat.pow 2 64)

/-- A function symbol. -/
inductive Symbol where
  /-- A constructor of a defined type. -/
  | cons (name : SymName) (arity : Nat)
  | tuple (arity : Nat)
  | int (value : Int)
  | string (value : String)
  /-- The address of a procedure. -/
  | closure (proc : ProcRef)
  /-- The constant that describes a type constructor. -/
  | typeCtorInfo (ctor : RuntimeCtor)
  /-- The cell that describes a type: its constructor and its arguments'
      type-infos. -/
  | typeInfo (ctor : RuntimeCtor)
  /-- The method table of an instance: the module that declares it, its class,
      its number among the instances of the class and the key of its types. -/
  | baseDictionary (owner : SymName) (cls : ClassId) (number : Nat) (key : String)
  /-- The cell that witnesses a constraint: a method table and what it was
      made from. -/
  | dictionary
  /-- The root of the call table of a procedure. -/
  | tableRoot (proc : ProcRef)
  /-- The descriptor of an I/O tabled procedure. -/
  | ioEntry (proc : ProcRef)
deriving DecidableEq, Repr, Inhabited

end Clausal
