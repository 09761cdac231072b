import Clausal.Name
import Clausal.Determinism

/-!
# Types

Types as terms over type variables. A defined type is its constructor's name
applied to as many arguments as the constructor takes; every tuple type shares
one constructor at run time, as do all predicate types and all function types.

* `Ty.occurrences`: the variables of a type, from left to right;
* `Ty.mapVars`: a type with a type put in for each variable, and `mapVars_var`,
  `mapVars_mapVars` for doing nothing and for doing it twice.
-/

namespace Clausal

inductive Ty where
  /-- A type variable. -/
  | var (v : TypeVar)
  /-- A type constructor applied to arguments, such as `list(T)`. -/
  | defined (name : SymName) (args : List Ty)
  /-- A tuple type. -/
  | tuple (args : List Ty)
  /-- The type of a predicate or function value; a function's result type
      comes last. -/
  | higherOrder (kind : CallableKind) (args : List Ty)
deriving Inhabited, Repr

/-- A type constructor: its name and the number of its parameters. -/
structure TypeCtor where
  name : SymName
  arity : Nat
deriving DecidableEq, Repr, Inhabited

namespace TypeCtor

def ofName (qualifier name : String) (arity : Nat) : TypeCtor := ⟨.qualified qualifier name, arity⟩

def render (c : TypeCtor) : String := c.name.render ++ "/" ++ toString c.arity

end TypeCtor

namespace Ty

mutual

/-- Whether two types are the same term. -/
def beq : Ty → Ty → Bool
  | .var v, .var w => v = w
  | .defined n ts, .defined m us => n = m && beqList ts us
  | .tuple ts, .tuple us => beqList ts us
  | .higherOrder k ts, .higherOrder l us => k = l && beqList ts us
  | _, _ => false

/-- Whether two lists of types are the same, term by term. -/
def beqList : List Ty → List Ty → Bool
  | [], [] => true
  | t :: ts, u :: us => beq t u && beqList ts us
  | _, _ => false

end

mutual

theorem beq_iff : ∀ t u : Ty, beq t u = true ↔ t = u
  | .var v, u => by cases u <;> simp [beq]
  | .defined n ts, u => by cases u <;> simp [beq, beqList_iff ts]
  | .tuple ts, u => by cases u <;> simp [beq, beqList_iff ts]
  | .higherOrder k ts, u => by cases u <;> simp [beq, beqList_iff ts]

theorem beqList_iff : ∀ ts us : List Ty, beqList ts us = true ↔ ts = us
  | [], us => by cases us <;> simp [beqList]
  | t :: ts, us => by cases us <;> simp [beqList, beq_iff t, beqList_iff ts]

end

instance : DecidableEq Ty := fun t u => decidable_of_iff _ (beq_iff t u)

instance : DecidableEq (List Ty) := fun ts us => decidable_of_iff _ (beqList_iff ts us)

/-- A type constructor applied to arguments. -/
def named (qualifier name : String) (args : List Ty) : Ty :=
  .defined (.qualified qualifier name) args

/-- The arguments of a type's constructor. -/
def args : Ty → List Ty
  | .var _ => []
  | .defined _ ts | .tuple ts | .higherOrder _ ts => ts

/-- The constructor of a defined type. -/
def ctor? : Ty → Option TypeCtor
  | .defined n ts => some ⟨n, ts.length⟩
  | _ => none

mutual

/-- The variables of a type, from left to right, each as often as it
    occurs. -/
def occurrences : Ty → List TypeVar
  | .var v => [v]
  | .defined _ ts | .tuple ts | .higherOrder _ ts => occurrencesList ts

/-- The variables of a list of types, from left to right, each as often as it
    occurs. -/
def occurrencesList : List Ty → List TypeVar
  | [] => []
  | t :: ts => occurrences t ++ occurrencesList ts

end

/-- The variables of a type in the order of their first occurrence. -/
def typeVars (t : Ty) : List TypeVar := t.occurrences.eraseDups

/-- The variables of a list of types in the order of their first
    occurrence. -/
def typeVarsList (ts : List Ty) : List TypeVar := (occurrencesList ts).eraseDups

/-- Whether a type has no variables. -/
def isGround (t : Ty) : Bool := t.occurrences.isEmpty

mutual

/-- The type with `f v` in the place of each variable `v`. -/
def mapVars (f : TypeVar → Ty) : Ty → Ty
  | .var v => f v
  | .defined n ts => .defined n (mapVarsList f ts)
  | .tuple ts => .tuple (mapVarsList f ts)
  | .higherOrder k ts => .higherOrder k (mapVarsList f ts)

/-- The types with `f v` in the place of each variable `v`. -/
def mapVarsList (f : TypeVar → Ty) : List Ty → List Ty
  | [] => []
  | t :: ts => mapVars f t :: mapVarsList f ts

end

theorem mapVarsList_eq_map (f : TypeVar → Ty) (ts : List Ty) :
    mapVarsList f ts = ts.map (mapVars f) := by
  induction ts with
  | nil => rfl
  | cons t ts ih => simp [mapVarsList, ih]

mutual

@[simp] theorem mapVars_var : ∀ t : Ty, t.mapVars .var = t
  | .var _ => rfl
  | .defined _ ts => by rw [mapVars, mapVarsList_var ts]
  | .tuple ts => by rw [mapVars, mapVarsList_var ts]
  | .higherOrder _ ts => by rw [mapVars, mapVarsList_var ts]

@[simp] theorem mapVarsList_var : ∀ ts : List Ty, mapVarsList .var ts = ts
  | [] => rfl
  | t :: ts => by rw [mapVarsList, mapVars_var t, mapVarsList_var ts]

end

mutual

theorem mapVars_mapVars (f g : TypeVar → Ty) :
    ∀ t : Ty, (t.mapVars f).mapVars g = t.mapVars fun v => (f v).mapVars g
  | .var _ => rfl
  | .defined _ ts => by simp only [mapVars, mapVarsList_mapVarsList f g ts]
  | .tuple ts => by simp only [mapVars, mapVarsList_mapVarsList f g ts]
  | .higherOrder _ ts => by simp only [mapVars, mapVarsList_mapVarsList f g ts]

theorem mapVarsList_mapVarsList (f g : TypeVar → Ty) :
    ∀ ts : List Ty, mapVarsList g (mapVarsList f ts) = mapVarsList (fun v => (f v).mapVars g) ts
  | [] => rfl
  | t :: ts => by simp only [mapVarsList, mapVars_mapVars f g t, mapVarsList_mapVarsList f g ts]

end

end Ty

end Clausal
