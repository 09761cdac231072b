import Clausal.Proofs.Substitution
import Clausal.Proofs.Steps

/-!
# Witnesses at run time

What the goals that set up witnesses do when they are run, and what they are
to come to. A value is a function symbol with its arguments (`Value`); the
run-time description of a type is such a value (`Ty.info?`), and so is a
dictionary. A dictionary of a constraint (`IsWitness`) is a cell of

* a method table, which names the class and an instance that matches,
* dictionaries of the constraints of the instance,
* dictionaries of the superclass constraints, and
* the type-infos of the constrained types,

in this order. The goals of a set-up run one after the other
(`Goal.execAll`): constructions build cells, and the accessors, which belong to
the run-time system, take values out of dictionaries. Of the accessors it is
only known that they count slots behind the dictionaries of the instance's
constraints (`ReadsSlots`).
-/

namespace Clausal

open List

variable {d slot result : ProgVar}

/-- A value at run time. -/
inductive Value where
  | cell (symbol : Symbol) (args : List Value)
deriving Inhabited

/-- The values of the variables that are bound. -/
abbrev Store := ProgVar → Option Value

namespace Store

/-- The store with one more variable bound. -/
def set (σ : Store) (v : ProgVar) (x : Value) : Store := fun w => if w = v then some x else σ w

/-- The variables bound in `σ` have the same values in `σ'`. -/
def Keeps (σ σ' : Store) : Prop := ∀ v x, σ v = some x → σ' v = some x

/-- Only variables with numbers below `n` are bound. -/
def Below (σ : Store) (n : Nat) : Prop := ∀ v x, σ v = some x → v.index < n

variable {σ σ' σ'' : Store} {v : ProgVar} {x : Value} {n n' : Nat}

theorem Keeps.refl (σ : Store) : σ.Keeps σ := fun _ _ h => h

theorem Keeps.trans (h : σ.Keeps σ') (h' : σ'.Keeps σ'') : σ.Keeps σ'' :=
  fun v x hv => h' v x (h v x hv)

@[simp] theorem set_self (σ : Store) (v : ProgVar) (x : Value) : σ.set v x v = some x := by
  simp [set]

/-- A new variable can be bound without touching the others. -/
theorem Below.keeps_set (h : σ.Below n) (hv : n ≤ v.index) : σ.Keeps (σ.set v x) := by
  intro w y hw
  have : w ≠ v := fun e => Nat.not_lt.2 hv (e ▸ h w y hw)
  rw [set, if_neg this, hw]

theorem Below.set (h : σ.Below n) (hn : n ≤ n') (hv : v.index < n') : (σ.set v x).Below n' := by
  intro w y hw
  by_cases e : w = v
  · exact e ▸ hv
  · rw [Store.set, if_neg e] at hw
    exact Nat.lt_of_lt_of_le (h w y hw) hn

theorem Keeps.mapM {vs : List ProgVar} {xs : List Value} (h : σ.Keeps σ')
    (hv : vs.mapM σ = some xs) : vs.mapM σ' = some xs := by
  induction vs generalizing xs with
  | nil => exact hv
  | cons v vs ih =>
    simp only [mapM_cons, Option.bind_eq_bind, Option.pure_def, Option.bind_eq_some_iff,
      Option.some.injEq] at hv ⊢
    obtain ⟨x, hx, ys, hys, rfl⟩ := hv
    exact ⟨x, h v x hx, ys, ih hys, rfl⟩

end Store

/-! ### Descriptions of types -/

/-- The description of a type, from its constructor and the descriptions of
    its arguments. -/
def RuntimeCtor.describe (ctor : RuntimeCtor) (args : List Value) : Value :=
  if args.isEmpty && !ctor.hasVariableArity then .cell (.typeCtorInfo ctor) []
  else
    .cell (.typeInfo ctor) (.cell (.typeCtorInfo ctor) [] ::
      (if ctor.hasVariableArity then [.cell (.int args.length) []] else []) ++ args)

namespace Ty

mutual

/-- The description of a type without variables. -/
def info? : Ty → Option Value
  | .var _ => none
  | .defined n ts => do return RuntimeCtor.describe (.defined ⟨n, ts.length⟩) (← infoList? ts)
  | .tuple ts => do return RuntimeCtor.describe .tuple (← infoList? ts)
  | .higherOrder k ts => do return RuntimeCtor.describe (.higherOrder k) (← infoList? ts)

/-- The descriptions of types without variables. -/
def infoList? : List Ty → Option (List Value)
  | [] => some []
  | t :: ts => do
    let x ← info? t
    let xs ← infoList? ts
    return x :: xs

end

theorem infoList?_eq_mapM (ts : List Ty) : infoList? ts = ts.mapM info? := by
  induction ts with
  | nil => rfl
  | cons t ts ih => rw [infoList?, mapM_cons, ih]

theorem infoList?_eq_some {ts : List Ty} {xs : List Value} :
    infoList? ts = some xs ↔ Forall₂ (fun t x => t.info? = some x) ts xs := by
  rw [infoList?_eq_mapM, mapM_eq_some_iff]

end Ty

/-! ### Dictionaries -/

/-- The instance of a class with the given number. -/
def Module.instance? (m : Module) (cls : ClassId) (n : Nat) : Option InstanceDefn :=
  ((m.instances.find? cls).getD [])[n]?

/-- The value is a dictionary of the constraint. -/
inductive IsWitness (m : Module) : Constraint → Value → Prop
  | mk {c : Constraint} {cls : ClassDefn} {n : Nat} {inst : InstanceDefn} {f : TypeVar → Ty}
      {ds ss ts : List Value}
      (class_found : m.classes.find? c.classId = some cls)
      (instance_found : m.instance? c.classId n = some inst)
      (matched : Ty.mapVarsList f inst.types = c.args)
      (constraints : Forall₂ (IsWitness m) (inst.constraints.map (·.mapVars f)) ds)
      (supers : Forall₂ (IsWitness m) (cls.supersOf c.args) ss)
      (types : Ty.infoList? c.args = some ts) :
      IsWitness m c (.cell .dictionary
        (.cell (.baseDictionary inst.owner c.classId n (Ty.instanceKeys inst.types)) [] ::
          ds ++ ss ++ ts))

/-! ### Running a set-up -/

/-- What the accessors of the run-time system take out of a dictionary, given
    the number of the slot. -/
abbrev Accessors := Primitive → Value → Int → Option Value

/-- Slot number `i` of a dictionary is `i` places behind the dictionaries of
    the constraints of its instance. -/
def ReadsSlots (m : Module) (rt : Accessors) : Prop :=
  ∀ p ∈ dictionaryAccessors, ∀ owner cls n key inst fields (i : Nat),
    m.instance? cls n = some inst →
      rt p (.cell .dictionary (.cell (.baseDictionary owner cls n key) [] :: fields))
          ((i + 1 : Nat) : Int) =
        fields[inst.constraints.length + i]?

namespace Goal

/-- The store after a goal that is part of a set-up: a construction, or the
    call of an accessor. -/
def exec (rt : Accessors) (σ : Store) : Goal → Option Store
  | .unify _ v (.functor f args) (.construct ..) => do return σ.set v (.cell f (← args.mapM σ))
  | .call _ callee _ [d, slot, result] =>
    match dictionaryAccessors.find? (·.proc == callee), σ d, σ slot with
    | some p, some x, some (.cell (.int i) []) => (rt p x i).map (σ.set result)
    | _, _, _ => none
  | _ => none

/-- The store after a set-up. -/
def execAll (rt : Accessors) (goals : List Goal) (σ : Store) : Option Store :=
  goals.foldlM (fun σ g => g.exec rt σ) σ

variable {rt : Accessors} {σ : Store}

theorem execAll_append (goals more : List Goal) :
    execAll rt (goals ++ more) σ = (execAll rt goals σ).bind (execAll rt more) :=
  foldlM_append

/-- A construction binds its variable to a cell of its arguments. -/
theorem exec_construct {f : Symbol} {args : List ProgVar} {xs : List Value}
    (h : args.mapM σ = some xs) (context : Context) :
    (Goal.construct v f args context).exec rt σ = some (σ.set v (.cell f xs)) := by
  show (do return σ.set v (.cell f (← args.mapM σ))) = _
  rw [h]
  rfl

/-- An accessor binds its result to what is in the slot. -/
theorem exec_accessor {p : Primitive} (hp : p ∈ dictionaryAccessors) {x y : Value} {i : Int}
    (hd : σ d = some x) (hslot : σ slot = some (.cell (.int i) [])) (hy : rt p x i = some y)
    (context : Context) :
    (Synth.accessor p d slot result context).exec rt σ = some (σ.set result y) := by
  have hfind : dictionaryAccessors.find? (fun q => q.proc == p.proc) = some p :=
    forall_accessor (P := fun p => dictionaryAccessors.find? (·.proc == p.proc) = some p) rfl rfl p
      hp
  show (match dictionaryAccessors.find? (fun q => q.proc == p.proc), σ d, σ slot with
    | some p, some x, some (.cell (.int i) []) => (rt p x i).map (σ.set result)
    | _, _, _ => none) = _
  rw [hfind, hd, hslot]
  simp [hy]

end Goal

end Clausal
