import Clausal.Witness.Pass
import Mathlib

/-!
# What steps return

A step that makes witnesses explicit either gives up or returns a result and a
new state (`Synth.Returns`). The lemmas of this module take a step that
returned apart: a step made of steps returned because each of them did, and
for every small step there is what it returned and how it changed the state.
Whatever else is proved of witness passing is proved from these.
-/

namespace Clausal

open List

variable {α β : Type} {u : Unit} {name : String} {v var : ProgVar} {vs : List ProgVar}
  {ts : List Ty} {c : Constraint} {r : List ProgVar × List Goal} {goals : List Goal}
  {context : Context} {ctor : RuntimeCtor} {t : Ty} {type : Ty} {source : TypeInfoSource}
  {slot n depth supers : Nat} {resolve : Constraint → Synth (ProgVar × List Goal)}
  {pending cs : List Constraint}

/-- The primitives that take something out of a dictionary. -/
def dictionaryAccessors : List Primitive := [.typeInfoFromDictionary, .superclassFromDictionary]

theorem forall_accessor {P : Primitive → Prop} (h₁ : P .typeInfoFromDictionary)
    (h₂ : P .superclassFromDictionary) : ∀ p ∈ dictionaryAccessors, P p := by
  intro p hp
  simp only [dictionaryAccessors, mem_cons, not_mem_nil, or_false] at hp
  rcases hp with rfl | rfl
  · exact h₁
  · exact h₂

theorem exists_of_isOk {ε : Type} {x : Except ε α} (h : x.isOk = true) : ∃ a, x = .ok a := by
  cases x with
  | error e => cases h
  | ok a => exact ⟨a, rfl⟩

theorem mapM_eq_some_iff {f : α → Option β} {as : List α} {bs : List β} :
    as.mapM f = some bs ↔ Forall₂ (fun a b => f a = some b) as bs := by
  induction as generalizing bs with
  | nil => simp [eq_comm]
  | cons a as ih =>
    simp only [mapM_cons, Option.bind_eq_bind, Option.pure_def, Option.bind_eq_some_iff,
      Option.some.injEq, forall₂_cons_left_iff, ih]
    constructor
    · rintro ⟨b, hb, bs', hbs, rfl⟩
      exact ⟨b, bs', hb, hbs, rfl⟩
    · rintro ⟨b, bs', hb, hbs, rfl⟩
      exact ⟨b, hb, bs', hbs, rfl⟩

theorem mapM_eq_ok_iff {ε : Type} {f : α → Except ε β} {as : List α} {bs : List β} :
    as.mapM f = .ok bs ↔ Forall₂ (fun a b => f a = .ok b) as bs := by
  induction as generalizing bs with
  | nil => simp [pure, Except.pure, eq_comm]
  | cons a as ih =>
    rw [mapM_cons, forall₂_cons_left_iff]
    constructor
    · intro h
      cases ha : f a with
      -- A step that failed leaves nothing to be the list that was returned.
      | error e =>
        rw [ha] at h
        cases h
      | ok b =>
        cases has : as.mapM f with
        | error e =>
          rw [ha, has] at h
          cases h
        | ok bs' =>
          rw [ha, has] at h
          cases h
          exact ⟨b, bs', rfl, ih.1 has, rfl⟩
    · rintro ⟨b, bs', hb, hbs, rfl⟩
      rw [hb, ih.2 hbs]
      rfl

theorem exists_of_forall₂ {R : α → β → Prop} {as : List α} {bs : List β} (h : Forall₂ R as bs)
    {b : β} (hb : b ∈ bs) : ∃ a ∈ as, R a b := by
  induction h with
  | nil => cases hb
  | cons h _ ih =>
    rcases mem_cons.1 hb with rfl | hb
    · exact ⟨_, mem_cons_self, h⟩
    · obtain ⟨a, ha, hab⟩ := ih hb
      exact ⟨a, mem_cons_of_mem _ ha, hab⟩

theorem forall₂_getElem? {R : α → β → Prop} {as : List α} {bs : List β}
    (h : Forall₂ R as bs) (i : Nat) : Option.Rel R as[i]? bs[i]? := by
  induction h generalizing i with
  | nil => exact .none
  | cons hab _ ih =>
    cases i with
    | zero => exact .some hab
    | succ i => exact ih i

theorem mapM_eq_some_map {f : α → Option β} {g : α → β} {as : List α}
    (h : ∀ a ∈ as, f a = some (g a)) : as.mapM f = some (as.map g) :=
  mapM_eq_some_iff.2 (forall₂_map_right_iff.2 (forall₂_same.2 h))

namespace WitnessState

variable (s : WitnessState)

/-- The variable that is added next. -/
def nextVar : ProgVar := ⟨s.vars.size⟩

/-- The state with one more variable. -/
def addVar (name : String) (type : Ty) : WitnessState :=
  { s with vars := (s.vars.add (some name) type).2 }

/-- The state with the type variables of another declaration appended. -/
def mergeScope (other : TypeScope) : WitnessState :=
  { s with scope := (s.scope.merge other).2 }

/-- The state with the proofs of an instance in front of the others. -/
def addProofs (proofs : ProofMap) : WitnessState :=
  { s with proofs := s.proofs.shadowMany proofs.toList }

/-- The state with another witness map. -/
def setWitnesses (w : WitnessMap) : WitnessState := { s with witnesses := w }

@[simp] theorem size_addVar (name : String) (type : Ty) :
    (s.addVar name type).vars.size = s.vars.size + 1 := by
  simp [addVar, VarTable.add, VarTable.size]

end WitnessState

namespace Synth

variable {s s' s₁ : WitnessState} {env : WitnessEnv}

/-- The step `x`, started in `s`, returns `a` and leaves the state `s'`. -/
def Returns (x : Synth α) (s : WitnessState) (a : α) (s' : WitnessState) : Prop :=
  x.run s = .ok (a, s')

/-! ### Steps made of steps -/

/-- A computation has at most one result. -/
theorem Returns.unique {x : Synth α} {a b : α} (h : Returns x s a s')
    (h' : Returns x s b s₁) : a = b ∧ s' = s₁ := by
  rw [Returns, h, Except.ok.injEq, Prod.mk.injEq] at h'
  exact h'

@[simp] theorem returns_pure {a b : α} : Returns (pure a) s b s' ↔ b = a ∧ s' = s := by
  simp [Returns, pure, StateT.run, StateT.pure, Except.pure, eq_comm]

@[simp] theorem returns_bind {x : Synth α} {f : α → Synth β} {b : β} :
    Returns (x >>= f) s b s' ↔ ∃ a s₁, Returns x s a s₁ ∧ Returns (f a) s₁ b s' := by
  show (x.run s >>= fun p => (f p.1).run p.2) = _ ↔ _
  unfold Returns
  cases x.run s with
  | error e => simp [bind, Except.bind]
  | ok p =>
    simp only [bind, Except.bind, Except.ok.injEq]
    constructor
    · intro h
      exact ⟨p.1, p.2, rfl, h⟩
    · rintro ⟨a, s₁, rfl, h⟩
      exact h

@[simp] theorem returns_map {x : Synth α} {f : α → β} {b : β} :
    Returns (f <$> x) s b s' ↔ ∃ a, Returns x s a s' ∧ b = f a := by
  rw [map_eq_pure_bind, returns_bind]
  constructor
  · rintro ⟨a, s₁, h, hb⟩
    obtain ⟨rfl, rfl⟩ := returns_pure.1 hb
    exact ⟨a, h, rfl⟩
  · rintro ⟨a, h, rfl⟩
    exact ⟨a, s', h, returns_pure.2 ⟨rfl, rfl⟩⟩

@[simp] theorem returns_get {t : WitnessState} : Returns get s t s' ↔ t = s ∧ s' = s := by
  show Except.ok (s, s) = _ ↔ _
  simp [eq_comm]

@[simp] theorem returns_set {t : WitnessState} {u : PUnit} : Returns (set t) s u s' ↔ s' = t := by
  show Except.ok ((), t) = _ ↔ _
  simp [eq_comm]

@[simp] theorem returns_modify {f : WitnessState → WitnessState} {u : PUnit} :
    Returns (modify f) s u s' ↔ s' = f s := by
  show Except.ok ((), f s) = _ ↔ _
  simp [eq_comm]

@[simp] theorem returns_modifyGet {f : WitnessState → α × WitnessState} {a : α} :
    Returns (modifyGet f) s a s' ↔ a = (f s).1 ∧ s' = (f s).2 := by
  show Except.ok (f s) = _ ↔ _
  rw [Except.ok.injEq, Prod.ext_iff]
  exact ⟨fun h => ⟨h.1.symm, h.2.symm⟩, fun h => ⟨h.1.symm, h.2.symm⟩⟩

@[simp] theorem not_returns_throw {e : Fault} {a : α} : ¬ Returns (throw e) s a s' := by
  intro h
  cases h

@[simp] theorem not_returns_breach {cause : Breach} {a : α} :
    ¬ Returns (breach env cause) s a s' :=
  not_returns_throw

@[simp] theorem returns_ofOption {o : Option α} {a : α} :
    Returns (ofOption o) s a s' ↔ o = some a ∧ s' = s := by
  cases o with
  | none => simp [ofOption]
  | some b => simp [ofOption, eq_comm]

@[simp] theorem returns_lift {e : Except Fault α} {a : α} :
    Returns (liftM e) s a s' ↔ e = .ok a ∧ s' = s := by
  cases e with
  | error f =>
    simp only [reduceCtorEq, false_and, iff_false]
    intro h
    cases h
  | ok b =>
    show Except.ok (b, s) = _ ↔ _
    simp [eq_comm]

/-! ### Changes of the state -/

@[simp] theorem returns_newVar :
    Returns (newVar name type) s v s' ↔ v = s.nextVar ∧ s' = s.addVar name type := by
  simp [newVar, WitnessState.nextVar, WitnessState.addVar, VarTable.add, and_comm]

@[simp] theorem returns_newTypeInfo :
    Returns (newTypeInfo name) s v s' ↔
      v = s.nextVar ∧ s' = s.addVar ("TypeInfo_for_" ++ name) .typeInfo :=
  returns_newVar

@[simp] theorem returns_newDictionary :
    Returns (newDictionary name) s v s' ↔
      v = s.nextVar ∧ s' = s.addVar ("TypeClassInfo_for_" ++ name) .dictionary :=
  returns_newVar

@[simp] theorem returns_varTypes :
    Returns (varTypes vs) s ts s' ↔ s.vars.types vs = .ok ts ∧ s' = s := by
  simp [varTypes, and_comm]

@[simp] theorem returns_renameApart {other : TypeScope} {r : Shift} :
    Returns (renameApart other) s r s' ↔ r = s.scope.shiftOf other ∧ s' = s.mergeScope other := by
  simp [renameApart, WitnessState.mergeScope]

@[simp] theorem returns_putTypeInfo {v : TypeVar} :
    Returns (putTypeInfo v source) s u s' ↔
      s' = s.setWitnesses
        { s.witnesses with typeInfos := s.witnesses.typeInfos.insert v source } :=
  returns_modify

@[simp] theorem returns_addTypeInfo {v : TypeVar} :
    Returns (addTypeInfo v source) s u s' ↔
      s' = s.setWitnesses
        { s.witnesses with typeInfos := s.witnesses.typeInfos.insertIfNew v source } :=
  returns_modify

@[simp] theorem returns_putDictionary :
    Returns (putDictionary c v) s u s' ↔
      s' = s.setWitnesses
        { s.witnesses with dictionaries := s.witnesses.dictionaries.insert c v } :=
  returns_modify

@[simp] theorem returns_addDictionary :
    Returns (addDictionary c v) s u s' ↔
      s' = s.setWitnesses
        { s.witnesses with dictionaries := s.witnesses.dictionaries.insertIfNew c v } :=
  returns_modify

@[simp] theorem returns_findClass {cls : ClassId} {defn : ClassDefn} :
    Returns (findClass env cls) s defn s' ↔ env.env.classes.find? cls = some defn ∧ s' = s := by
  unfold findClass
  cases env.env.classes.find? cls with
  | none => simp
  | some d => simp [eq_comm]

/-! ### Lists of steps -/

@[simp] theorem returns_mapM_nil {f : α → Synth β} {bs : List β} :
    Returns ([].mapM f) s bs s' ↔ bs = [] ∧ s' = s := by
  simp

@[simp] theorem returns_mapM_cons {f : α → Synth β} {a : α} {as : List α} {bs : List β} :
    Returns ((a :: as).mapM f) s bs s' ↔
      ∃ b s₁ bs', Returns (f a) s b s₁ ∧ Returns (as.mapM f) s₁ bs' s' ∧ bs = b :: bs' := by
  simp only [mapM_cons, returns_bind, returns_pure]
  constructor
  · rintro ⟨b, s₁, h₁, bs', s₂, h₂, rfl, rfl⟩
    exact ⟨b, s₁, bs', h₁, h₂, rfl⟩
  · rintro ⟨b, s₁, bs', h₁, h₂, rfl⟩
    exact ⟨b, s₁, h₁, bs', s', h₂, rfl, rfl⟩

/-- Steps that only read the state. -/
theorem returns_mapM_reads {f : α → Synth β} {R : α → β → Prop}
    (hf : ∀ a b s₁, Returns (f a) s b s₁ ↔ R a b ∧ s₁ = s) {as : List α} {bs : List β} :
    Returns (as.mapM f) s bs s' ↔ Forall₂ R as bs ∧ s' = s := by
  induction as generalizing bs with
  | nil => simp
  | cons a as ih =>
    simp only [returns_mapM_cons, hf, forall₂_cons_left_iff]
    constructor
    · rintro ⟨b, _, bs, ⟨hb, rfl⟩, hbs, rfl⟩
      exact ⟨⟨b, bs, hb, (ih.1 hbs).1, rfl⟩, (ih.1 hbs).2⟩
    · rintro ⟨⟨b, bs, hb, hbs, rfl⟩, hs⟩
      exact ⟨b, s, bs, ⟨hb, rfl⟩, ih.2 ⟨hbs, hs⟩, rfl⟩

@[simp] theorem returns_mapM_ofOption {f : α → Option β} {as : List α} {bs : List β} :
    Returns (as.mapM fun a => ofOption (f a)) s bs s' ↔ as.mapM f = some bs ∧ s' = s := by
  rw [mapM_eq_some_iff]
  exact returns_mapM_reads fun _ _ _ => returns_ofOption

@[simp] theorem returns_collect_nil {step : α → Synth (ProgVar × List Goal)} :
    Returns (collect step []) s r s' ↔ r = ([], []) ∧ s' = s := by
  simp [collect]

@[simp] theorem returns_collect_cons {step : α → Synth (ProgVar × List Goal)} {a : α}
    {as : List α} :
    Returns (collect step (a :: as)) s r s' ↔
      ∃ v goals s₁ vs more, Returns (step a) s (v, goals) s₁ ∧
        Returns (collect step as) s₁ (vs, more) s' ∧ r = (v :: vs, goals ++ more) := by
  simp only [collect, returns_bind, returns_pure]
  constructor
  · rintro ⟨⟨v, goals⟩, s₁, h₁, ⟨vs, more⟩, s₂, h₂, rfl, rfl⟩
    exact ⟨v, goals, s₁, vs, more, h₁, h₂, rfl⟩
  · rintro ⟨v, goals, s₁, vs, more, h₁, h₂, rfl⟩
    exact ⟨(v, goals), s₁, h₁, (vs, more), s', h₂, rfl, rfl⟩

/-- Collecting gives one variable for each item. -/
theorem length_collect {step : α → Synth (ProgVar × List Goal)} {as : List α}
    (h : Returns (collect step as) s (vs, goals) s') : vs.length = as.length := by
  induction as generalizing s vs goals with
  | nil =>
    cases (returns_collect_nil.1 h).1
    rfl
  | cons a as ih =>
    obtain ⟨v, goals₁, s₁, vs, goals₂, -, h₂, heq⟩ := returns_collect_cons.1 h
    cases heq
    rw [length_cons, length_cons, ih h₂]

/-- A loop that changes the records changes them for each item in turn. -/
theorem returns_forIn {f : α → PUnit → Synth (ForInStep PUnit)}
    {change : WitnessMap → α → WitnessMap}
    (hf : ∀ a u s r s', Returns (f a u) s r s' ↔
      r = .yield u ∧ s' = s.setWitnesses (change s.witnesses a)) {as : List α} {u u' : PUnit} :
    Returns (forIn as u f) s u' s' ↔ s' = s.setWitnesses (as.foldl change s.witnesses) := by
  induction as generalizing s with
  | nil => simp [WitnessState.setWitnesses]
  | cons a as ih =>
    simp only [forIn_cons, returns_bind, hf, foldl_cons]
    constructor
    · rintro ⟨_, s₁, ⟨rfl, rfl⟩, h⟩
      exact ih.1 h
    · intro h
      exact ⟨_, _, ⟨rfl, rfl⟩, ih.2 h⟩

/-! ### Type-infos -/

theorem returns_takeSlot {p : Primitive} {resultName : String} {dictionary : ProgVar}
    {r : ProgVar × List Goal} :
    Returns (takeSlot p name dictionary slot (newVar resultName type) context) s r s' ↔
      r = (⟨s.vars.size + 1⟩,
          [.intConst s.nextVar slot context,
            accessor p dictionary s.nextVar ⟨s.vars.size + 1⟩ context]) ∧
        s' = (s.addVar ("Slot_for_" ++ name) .int).addVar resultName type := by
  simp only [takeSlot, returns_bind, returns_pure, returns_newVar]
  constructor
  · rintro ⟨_, _, ⟨rfl, rfl⟩, _, _, ⟨rfl, rfl⟩, rfl, rfl⟩
    exact ⟨by simp [WitnessState.nextVar], rfl⟩
  · rintro ⟨rfl, rfl⟩
    exact ⟨_, _, ⟨rfl, rfl⟩, _, _, ⟨rfl, rfl⟩, by simp [WitnessState.nextVar], rfl⟩

/-- The type-info of a type variable is a variable on record, is taken out of
    a dictionary on record, or is put on record without being bound. -/
theorem typeVarInfo_cases {v : TypeVar} (h : Returns (typeVarInfo context v) s (var, goals) s') :
    (s.witnesses.typeInfos.find? v = some (.direct var) ∧ goals = [] ∧ s' = s) ∨
    (∃ d slot, s.witnesses.typeInfos.find? v = some (.slot d slot) ∧ var = ⟨s.vars.size + 1⟩ ∧
      goals = [.intConst s.nextVar slot context,
        accessor .typeInfoFromDictionary d s.nextVar var context] ∧
      s' = (s.addVar ("Slot_for_" ++ s.scope.varName v) .int).addVar
        ("TypeInfo_for_" ++ s.scope.varName v) .typeInfo) ∨
    (s.witnesses.typeInfos.find? v = none ∧ var = s.nextVar ∧ goals = [] ∧
      s' = (s.addVar ("TypeInfo_for_" ++ s.scope.varName v) .typeInfo).setWitnesses
        { s.witnesses with typeInfos := s.witnesses.typeInfos.insert v (.direct var) }) := by
  simp only [typeVarInfo, returns_bind, returns_get] at h
  obtain ⟨_, _, ⟨rfl, rfl⟩, h⟩ := h
  split at h
  · -- On record in a variable of its own.
    next w hw =>
    simp only [returns_pure, Prod.mk.injEq] at h
    obtain ⟨⟨rfl, rfl⟩, rfl⟩ := h
    exact .inl ⟨hw, rfl, rfl⟩
  · -- On record in a slot of a dictionary: two new variables and the goals that
    -- read the slot.
    next d slot hw =>
    obtain ⟨hr, rfl⟩ := returns_takeSlot.1 h
    cases hr
    exact .inr (.inl ⟨d, slot, hw, rfl, rfl, rfl⟩)
  · -- Not on record: a new variable that no goal binds, put on record.
    next hw =>
    simp only [returns_bind, returns_newTypeInfo, returns_putTypeInfo, returns_pure,
      Prod.mk.injEq] at h
    obtain ⟨_, _, ⟨rfl, rfl⟩, _, _, rfl, ⟨rfl, rfl⟩, rfl⟩ := h
    exact .inr (.inr ⟨hw, rfl, rfl, rfl⟩)

/-- The type-info of a constructor applied to arguments is a constant or a
    cell, of which a constructor of varying size has its size as a part. -/
theorem typeCell_cases {args : List ProgVar}
    (h : Returns (typeCell context ctor args) s (var, goals) s') :
    (args = [] ∧ ctor.hasVariableArity = false ∧ var = s.nextVar ∧
      goals = [.construct var (.typeCtorInfo ctor) [] context] ∧
      s' = s.addVar ("TypeCtorInfo_for_" ++ ctor.label) .typeInfo) ∨
    (args ≠ [] ∧ ctor.hasVariableArity = false ∧ var = ⟨s.vars.size + 1⟩ ∧
      goals = [.construct s.nextVar (.typeCtorInfo ctor) [] context,
        .construct var (.typeInfo ctor) (s.nextVar :: args) context] ∧
      s' = (s.addVar ("TypeCtorInfo_for_" ++ ctor.label) .typeCtorInfo).addVar
        ("TypeInfo_for_" ++ ctor.label) .typeInfo) ∨
    (ctor.hasVariableArity = true ∧ var = ⟨s.vars.size + 2⟩ ∧
      goals = [.construct s.nextVar (.typeCtorInfo ctor) [] context,
        .intConst ⟨s.vars.size + 1⟩ args.length context,
        .construct var (.typeInfo ctor) (s.nextVar :: ⟨s.vars.size + 1⟩ :: args) context] ∧
      s' = ((s.addVar ("TypeCtorInfo_for_" ++ ctor.label) .typeCtorInfo).addVar "Arity"
        .int).addVar ("TypeInfo_for_" ++ ctor.label) .typeInfo) := by
  simp only [typeCell] at h
  split at h
  · -- A constant stands for itself.
    next hc =>
    simp only [Bool.and_eq_true, List.isEmpty_iff, Bool.not_eq_true'] at hc
    simp only [returns_bind, returns_newVar, returns_pure, Prod.mk.injEq] at h
    obtain ⟨_, _, ⟨rfl, rfl⟩, ⟨rfl, rfl⟩, rfl⟩ := h
    exact .inl ⟨hc.1, hc.2, rfl, rfl, rfl⟩
  · next hc =>
    simp only [Bool.and_eq_true, List.isEmpty_iff, Bool.not_eq_true', not_and] at hc
    cases hv : ctor.hasVariableArity with
    | false =>
      simp only [hv, Bool.false_eq_true, if_false, returns_bind, returns_newVar,
        returns_newTypeInfo, returns_pure, Prod.mk.injEq] at h
      obtain ⟨_, _, ⟨rfl, rfl⟩, _, _, ⟨rfl, rfl⟩, _, _, ⟨rfl, rfl⟩, ⟨rfl, rfl⟩, rfl⟩ := h
      refine .inr (.inl ⟨fun ha => ?_, rfl, ?_, ?_, rfl⟩)
      · simp [hv] at hc
        exact hc ha
      · simp [WitnessState.nextVar]
      · simp
    | true =>
      simp only [hv, if_true, returns_bind, returns_newVar, returns_newTypeInfo, returns_pure,
        Prod.mk.injEq] at h
      obtain ⟨_, _, ⟨rfl, rfl⟩, _, _, ⟨rfl, rfl⟩, _, _, ⟨rfl, rfl⟩, _, _, ⟨rfl, rfl⟩,
        ⟨rfl, rfl⟩, rfl⟩ := h
      exact .inr (.inr ⟨rfl, by simp [WitnessState.nextVar], by simp [WitnessState.nextVar], rfl⟩)

theorem typeInfo_of_ctor (ht : t.runtimeCtor? = some ctor) (context : Context) :
    typeInfo context t = (do
      let (args, goals) ← typeInfos context t.args
      let (info, more) ← typeCell context ctor args
      return (info, goals ++ more)) := by
  cases t with
  | var v => cases ht
  | defined n ts => cases ht; rfl
  | tuple ts => cases ht; rfl
  | higherOrder k ts => cases ht; rfl

theorem returns_typeInfo_of_ctor (ht : t.runtimeCtor? = some ctor) {r : ProgVar × List Goal} :
    Returns (typeInfo context t) s r s' ↔
      ∃ args goals s₁ var more, Returns (typeInfos context t.args) s (args, goals) s₁ ∧
        Returns (typeCell context ctor args) s₁ (var, more) s' ∧ r = (var, goals ++ more) := by
  rw [typeInfo_of_ctor ht]
  simp only [returns_bind, returns_pure]
  constructor
  · rintro ⟨⟨args, goals⟩, s₁, h₁, ⟨var, more⟩, s₂, h₂, rfl, rfl⟩
    exact ⟨args, goals, s₁, var, more, h₁, h₂, rfl⟩
  · rintro ⟨args, goals, s₁, var, more, h₁, h₂, rfl⟩
    exact ⟨(args, goals), s₁, h₁, (var, more), s', h₂, rfl, rfl⟩

theorem typeInfos_eq_collect (ts : List Ty) :
    typeInfos context ts = collect (typeInfo context) ts := by
  induction ts with
  | nil => rfl
  | cons t ts ih => simp only [typeInfos, collect, ih]

@[simp] theorem returns_typeInfos_nil :
    Returns (typeInfos context []) s r s' ↔ r = ([], []) ∧ s' = s := by
  rw [typeInfos_eq_collect, returns_collect_nil]

@[simp] theorem returns_typeInfos_cons :
    Returns (typeInfos context (t :: ts)) s r s' ↔
      ∃ v goals s₁ vs more, Returns (typeInfo context t) s (v, goals) s₁ ∧
        Returns (typeInfos context ts) s₁ (vs, more) s' ∧ r = (v :: vs, goals ++ more) := by
  simp only [typeInfos_eq_collect, returns_collect_cons]

/-- How types are described: variables by what is on record of them, and types with
    a constructor by a cell, after their arguments. -/
inductive Describing (context : Context) :
    WitnessState → List ProgVar → List Goal → WitnessState → Prop
  | nil (s : WitnessState) : Describing context s [] [] s
  | cons {s s₁ s' : WitnessState} {v : ProgVar} {vs : List ProgVar} {goals more : List Goal}
      (first : Describing context s [v] goals s₁) (rest : Describing context s₁ vs more s') :
      Describing context s (v :: vs) (goals ++ more) s'
  | typeVar {s s' : WitnessState} {v : TypeVar} {var : ProgVar} {goals : List Goal}
      (info : Returns (typeVarInfo context v) s (var, goals) s') :
      Describing context s [var] goals s'
  | cell {s s₁ s' : WitnessState} {ctor : RuntimeCtor} {vs : List ProgVar} {var : ProgVar}
      {goals more : List Goal} (args : Describing context s vs goals s₁)
      (info : Returns (typeCell context ctor vs) s₁ (var, more) s') :
      Describing context s [var] (goals ++ more) s'

mutual

theorem typeInfo_describing {context : Context} : ∀ (t : Ty) {s s' : WitnessState}
    {var : ProgVar} {goals : List Goal}, Returns (typeInfo context t) s (var, goals) s' →
      Describing context s [var] goals s'
  | .var _, _, _, _, _, h => .typeVar h
  | .defined _ ts, _, _, _, _, h | .tuple ts, _, _, _, _, h | .higherOrder _ ts, _, _, _, _, h => by
    obtain ⟨_, _, _, _, _, h₁, h₂, heq⟩ := (returns_typeInfo_of_ctor rfl).1 h
    cases heq
    exact .cell (typeInfos_describing ts h₁) h₂

theorem typeInfos_describing {context : Context} : ∀ (ts : List Ty) {s s' : WitnessState}
    {vs : List ProgVar} {goals : List Goal}, Returns (typeInfos context ts) s (vs, goals) s' →
      Describing context s vs goals s'
  | [], _, _, _, _, h => by
    obtain ⟨heq, rfl⟩ := returns_typeInfos_nil.1 h
    cases heq
    exact .nil _
  | t :: ts, _, _, _, _, h => by
    obtain ⟨_, _, _, _, _, h₁, h₂, heq⟩ := returns_typeInfos_cons.1 h
    cases heq
    exact .cons (typeInfo_describing t h₁) (typeInfos_describing ts h₂)

end

theorem length_typeInfos (h : Returns (typeInfos context ts) s (vs, goals) s') :
    vs.length = ts.length :=
  length_collect (typeInfos_eq_collect ts ▸ h)

/-! ### Dictionaries -/

/-- How an instance makes a dictionary: it is found and matched, its proofs go
    in front of the others, and its cell is made from the dictionaries of its
    constraints and of the superclasses and from the type-infos. -/
inductive MadeByInstance (env : WitnessEnv) (context : Context)
    (resolve : Constraint → Synth (ProgVar × List Goal)) (c : Constraint) (n : Nat)
    (s : WitnessState) : ProgVar → List Goal → WitnessState → Prop
  | mk {inst : InstanceDefn} {cls : ClassDefn} {subst : Subst} {proofs : ProofMap}
      {constraints supers : List Constraint} {ds ss ts : List ProgVar}
      {goals₁ goals₂ goals₃ : List Goal} {s₁ s₂ s₃ : WitnessState}
      (instance_found : ((env.env.instances.find? c.classId).getD [])[n]? = some inst)
      (class_found : env.env.classes.find? c.classId = some cls)
      (matched : Subst.ofMatch (inst.types.map (·.shift (s.scope.shiftOf inst.scope))) c.args =
        .ok subst)
      (proofs_eq : (ProofMap.shift (s.scope.shiftOf inst.scope) inst.proofs).subst? subst =
        some proofs)
      (constraints_eq : inst.constraints.mapM (fun d =>
        (d.shift (s.scope.shiftOf inst.scope)).subst? subst) = some constraints)
      (from_constraints : Returns (collect resolve constraints)
        ((s.mergeScope inst.scope).addProofs proofs) (ds, goals₁) s₁)
      (supers_eq : cls.supersAt? s₁.scope c.args = some supers)
      (from_supers : Returns (collect resolve supers) s₁ (ss, goals₂) s₂)
      (from_types : Returns (typeInfos context c.args) s₂ (ts, goals₃) s₃) :
      MadeByInstance env context resolve c n s ⟨s₃.vars.size + 1⟩
        (goals₁ ++ goals₂ ++ goals₃ ++
          [.construct s₃.nextVar
              (.baseDictionary inst.owner c.classId n (Ty.instanceKeys inst.types)) [] context,
            .construct ⟨s₃.vars.size + 1⟩ .dictionary (s₃.nextVar :: ds ++ ss ++ ts) context])
        ((s₃.addVar ("BaseTypeClassInfo_for_" ++ c.className.name) .baseDictionary).addVar
          ("TypeClassInfo_for_" ++ c.className.name) .dictionary)

/-- How the dictionary of an instance comes about. -/
theorem instanceDictionary_cases
    (h : Returns (instanceDictionary env context resolve c n) s (var, goals) s') :
    MadeByInstance env context resolve c n s var goals s' := by
  simp only [instanceDictionary] at h
  split at h
  · next inst hinst =>
    simp only [returns_bind, returns_findClass, returns_renameApart] at h
    obtain ⟨cls, _, ⟨hcls, rfl⟩, _, _, ⟨rfl, rfl⟩, h⟩ := h
    split at h
    · -- The instance matches. The premises, the superclasses and the argument
      -- types are made in this order, from the scope with the instance merged into
      -- it.
      next subst hsubst =>
      simp only [returns_bind, returns_pure, returns_ofOption, returns_modify, returns_get,
        returns_newVar, returns_newDictionary, Prod.mk.injEq] at h
      obtain ⟨_, _, ⟨rfl, rfl⟩, proofs, _, ⟨hproofs, rfl⟩, _, _, rfl, constraints, _,
        ⟨hcs, rfl⟩, ⟨ds, goals₁⟩, s₁, h₁, _, _, ⟨rfl, rfl⟩, supers, _, ⟨hsupers, rfl⟩,
        ⟨ss, goals₂⟩, s₂, h₂, ⟨ts, goals₃⟩, s₃, h₃, base, _, ⟨rfl, rfl⟩, _, _, ⟨rfl, rfl⟩,
        ⟨rfl, rfl⟩, rfl⟩ := h
      have := MadeByInstance.mk hinst hcls hsubst hproofs hcs h₁ hsupers h₂ h₃
      simpa [WitnessState.nextVar] using this
    · simp at h
  · simp at h

/-- How a superclass dictionary is made: it is taken out of that of the
    constraint said to have it, from the slot of its place. -/
inductive MadeBySuperclass (env : WitnessEnv) (context : Context)
    (resolve : Constraint → Synth (ProgVar × List Goal)) (c sub : Constraint)
    (s : WitnessState) : ProgVar → List Goal → WitnessState → Prop
  | mk {cls : ClassDefn} {supers : List Constraint} {position : Nat} {whole : ProgVar}
      {goals : List Goal} {s₁ : WitnessState}
      (from_sub : Returns (resolve sub) s (whole, goals) s₁)
      (class_found : env.env.classes.find? sub.classId = some cls)
      (supers_eq : cls.supersAt? s₁.scope sub.args = some supers)
      (position_eq : supers.findIdx? (· == c) = some position) :
      MadeBySuperclass env context resolve c sub s ⟨s₁.vars.size + 1⟩
        (goals ++ [.intConst s₁.nextVar ((position + 1 : Nat) : Int) context,
          accessor .superclassFromDictionary whole s₁.nextVar ⟨s₁.vars.size + 1⟩ context])
        ((s₁.addVar ("Slot_for_" ++ c.className.name) .int).addVar
          ("TypeClassInfo_for_" ++ c.className.name) .dictionary)

/-- How a dictionary is taken out of that of a subclass. -/
theorem superclassDictionary_cases {sub : Constraint}
    (h : Returns (superclassDictionary env context resolve c sub) s (var, goals) s') :
    MadeBySuperclass env context resolve c sub s var goals s' := by
  simp only [superclassDictionary, returns_bind, returns_findClass, returns_get,
    returns_ofOption] at h
  obtain ⟨⟨whole, goals₁⟩, s₁, h₁, cls, _, ⟨hcls, rfl⟩, _, _, ⟨rfl, rfl⟩, supers, _,
    ⟨hsupers, rfl⟩, h⟩ := h
  split at h
  · next position hposition =>
    simp only [returns_bind, returns_pure, Prod.mk.injEq] at h
    obtain ⟨⟨d, more⟩, _, ht, ⟨rfl, rfl⟩, rfl⟩ := h
    obtain ⟨hr, rfl⟩ := returns_takeSlot.1 ht
    cases hr
    exact .mk h₁ hcls hsupers hposition
  · simp at h

/-- A dictionary is on record, or made as the proof of its constraint says. -/
theorem dictionaryWithin_cases
    (h : Returns (dictionaryWithin env context depth pending c) s (var, goals) s') :
    (s.witnesses.dictionaries.find? c = some var ∧ goals = [] ∧ s' = s) ∨
    ∃ n proof s₁, depth = n + 1 ∧ s.witnesses.dictionaries.find? c = none ∧ c ∉ pending ∧
      s.proofs.find? c = some proof ∧
      s' = s₁.setWitnesses
        { s₁.witnesses with dictionaries := s₁.witnesses.dictionaries.insert c var } ∧
      ((∃ i, proof = .byInstance i ∧ MadeByInstance env context
          (dictionaryWithin env context n (c :: pending)) c i s var goals s₁) ∨
        (∃ sub, proof = .bySuperclass sub ∧ MadeBySuperclass env context
          (dictionaryWithin env context n (c :: pending)) c sub s var goals s₁)) := by
  unfold dictionaryWithin at h
  simp only [returns_bind, returns_get] at h
  obtain ⟨_, _, ⟨rfl, rfl⟩, h⟩ := h
  split at h
  · next w hw =>
    simp only [returns_pure, Prod.mk.injEq] at h
    obtain ⟨⟨rfl, rfl⟩, rfl⟩ := h
    exact .inl ⟨hw, rfl, rfl⟩
  · next hnone =>
    split at h
    · simp at h
    · -- A constraint that is pending already would go round in circles; what is
      -- left is to follow the proof on record.
      next hpending =>
      split at h
      · next proof hproof =>
        cases depth with
        | zero => simp at h
        | succ n =>
          cases proof with
          | byInstance i =>
            simp only [returns_bind, returns_putDictionary, returns_pure, Prod.mk.injEq] at h
            obtain ⟨⟨d, goals₁⟩, s₁, h₁, _, _, rfl, ⟨rfl, rfl⟩, rfl⟩ := h
            exact .inr ⟨n, _, s₁, rfl, hnone, hpending, hproof, rfl,
              .inl ⟨i, rfl, instanceDictionary_cases h₁⟩⟩
          | bySuperclass sub =>
            simp only [returns_bind, returns_putDictionary, returns_pure, Prod.mk.injEq] at h
            obtain ⟨⟨d, goals₁⟩, s₁, h₁, _, _, rfl, ⟨rfl, rfl⟩, rfl⟩ := h
            exact .inr ⟨n, _, s₁, rfl, hnone, hpending, hproof, rfl,
              .inr ⟨sub, rfl, superclassDictionary_cases h₁⟩⟩
      · simp at h

/-- Dictionaries are found one by one, and those on record are then as before. -/
theorem dictionaries_cases (h : Returns (dictionaries env context cs) s r s') :
    ∃ depth s₁, Returns (collect (dictionaryWithin env context depth []) cs) s r s₁ ∧
      s' = { s₁ with
        proofs := s.proofs
        witnesses := { s₁.witnesses with dictionaries := s.witnesses.dictionaries } } := by
  simp only [dictionaries, dictionariesWithin, returns_bind, returns_get, returns_modify,
    returns_pure] at h
  obtain ⟨_, _, ⟨rfl, rfl⟩, _, _, ⟨rfl, rfl⟩, r', s₁, h₁, _, _, rfl, rfl, rfl⟩ := h
  exact ⟨_, s₁, h₁, rfl⟩

theorem length_dictionaries (h : Returns (dictionaries env context cs) s (vs, goals) s') :
    vs.length = cs.length := by
  obtain ⟨depth, s₁, h₁, -⟩ := dictionaries_cases h
  exact length_collect h₁

end Synth

/-! ### Records -/

namespace WitnessMap

/-- The records with the slot of a dictionary in which the type-info of an
    argument is found, if the argument is a variable. The dictionary's class
    has the given number of superclass constraints. -/
def recordArg (supers : Nat) (var : ProgVar) (w : WitnessMap) (arg : Ty × Nat) : WitnessMap :=
  match arg with
  | (.var v, i) =>
    { w with typeInfos := w.typeInfos.insertIfNew v (.slot var (supers + i + 1)) }
  | _ => w

/-- The records with a variable as the dictionary of a constraint. -/
def record (w : WitnessMap) (supers : Nat) (c : Constraint) (var : ProgVar) : WitnessMap :=
  c.args.zipIdx.foldl (recordArg supers var)
    { w with dictionaries := w.dictionaries.insertIfNew c var }

/-- A record of a dictionary is a new entry for its constraint, then one for each
    type variable among the arguments of the constraint. -/
theorem record_induction {P : WitnessMap → Prop} {w : WitnessMap}
    (hdict : P { w with dictionaries := w.dictionaries.insertIfNew c v })
    (hslot : ∀ w i t, P w → c.args[i]? = some (.var t) →
      P { w with typeInfos := w.typeInfos.insertIfNew t (.slot v (supers + i + 1)) }) :
    P (w.record supers c v) := by
  refine List.foldlRecOn c.args.zipIdx (recordArg supers v) hdict ?_
  rintro w hw ⟨t, i⟩ hmem
  cases t with
  | var t => exact hslot w i t hw (mem_zipIdx_iff_getElem?.1 hmem)
  | defined n ts => exact hw
  | tuple ts => exact hw
  | higherOrder k ts => exact hw

end WitnessMap

namespace Synth

variable {s s' : WitnessState}

theorem returns_recordArg (supers : Nat) (p : Ty × Nat) (u : PUnit) (s : WitnessState)
    (r : ForInStep PUnit) (s' : WitnessState) :
    Returns (match p.1 with
      | .var v => do
        addTypeInfo v (.slot var (supers + p.2 + 1))
        pure (.yield PUnit.unit)
      | _ => pure (.yield PUnit.unit)) s r s' ↔
    r = .yield u ∧ s' = s.setWitnesses (s.witnesses.recordArg supers var p) := by
  obtain ⟨t, i⟩ := p
  cases t with
  | var v =>
    simp only [returns_bind, returns_addTypeInfo, returns_pure]
    constructor
    · rintro ⟨_, _, rfl, hr, rfl⟩
      exact ⟨hr, rfl⟩
    · rintro ⟨hr, rfl⟩
      exact ⟨⟨⟩, _, rfl, hr, rfl⟩
  | defined n ts => exact returns_pure
  | tuple ts => exact returns_pure
  | higherOrder k ts => exact returns_pure

theorem returns_recordDictionary :
    Returns (recordDictionary env c var) s u s' ↔
      ∃ cls, env.env.classes.find? c.classId = some cls ∧
        s' = s.setWitnesses (s.witnesses.record cls.supers.length c var) := by
  simp only [recordDictionary, returns_bind, returns_findClass, returns_addDictionary]
  constructor
  · rintro ⟨cls, _, ⟨hcls, rfl⟩, _, _, rfl, _, _, h, hu⟩
    obtain ⟨-, rfl⟩ := returns_pure.1 hu
    exact ⟨cls, hcls, (returns_forIn (returns_recordArg cls.supers.length)).1 h⟩
  · rintro ⟨cls, hcls, rfl⟩
    exact ⟨cls, _, ⟨hcls, rfl⟩, ⟨⟩, _, rfl, ⟨⟩, _,
      (returns_forIn (returns_recordArg cls.supers.length)).2 rfl, returns_pure.2 ⟨rfl, rfl⟩⟩

end Synth

end Clausal
