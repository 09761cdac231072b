import Clausal.Proofs.Dictionaries

/-!
# Type-infos and the types they describe

What the type-info of a type is to be (`IsTypeInfo`), said of types without
variables: a constant for a defined type without arguments, and a cell for every
other type, in which the shared constructors of tuples, predicates and functions
have the number of arguments in front of the arguments. A type-info tells its type
(`IsTypeInfo.unique`).

The goals that are made for types with variables bind such values, given the
type-infos of the variables. What is bound besides the variables of the table has
no part in that, since goals that run through with less bound do so with more
(`Goal.execAll_mono`).
-/

namespace Clausal

open List RuntimeCtor Option

variable {t : Ty} {ctor : RuntimeCtor} {σ τ : Store}

/-! ### Values that describe types -/

/-- The value is the type-info of a type without variables. -/
inductive IsTypeInfo : Ty → Value → Prop
  /-- The constant of the constructor describes a type without arguments. -/
  | constant {n : SymName} :
      IsTypeInfo (.defined n []) (.cell (.typeCtorInfo (.defined ⟨n, 0⟩)) [])
  | defined {n : SymName} {ts : List Ty} {xs : List Value} (nonempty : ts ≠ [])
      (args : Forall₂ IsTypeInfo ts xs) :
      IsTypeInfo (.defined n ts) (.cell (.typeInfo (.defined ⟨n, ts.length⟩))
        (.cell (.typeCtorInfo (.defined ⟨n, ts.length⟩)) [] :: xs))
  | tuple {ts : List Ty} {xs : List Value} (args : Forall₂ IsTypeInfo ts xs) :
      IsTypeInfo (.tuple ts) (.cell (.typeInfo .tuple)
        (.cell (.typeCtorInfo .tuple) [] :: .cell (.int ts.length) [] :: xs))
  | higherOrder {k : CallableKind} {ts : List Ty} {xs : List Value}
      (args : Forall₂ IsTypeInfo ts xs) :
      IsTypeInfo (.higherOrder k ts) (.cell (.typeInfo (.higherOrder k))
        (.cell (.typeCtorInfo (.higherOrder k)) [] :: .cell (.int ts.length) [] :: xs))

namespace RuntimeCtor

variable {ctor' : RuntimeCtor} {xs xs' : List Value}

theorem describe_defined (c : TypeCtor) (h : xs ≠ []) : describe (.defined c) xs =
    .cell (.typeInfo (.defined c)) (.cell (.typeCtorInfo (.defined c)) [] :: xs) := by
  simp [describe, hasVariableArity, h]

theorem describe_variableArity (h : ctor.hasVariableArity = true) : ctor.describe xs =
    .cell (.typeInfo ctor) (.cell (.typeCtorInfo ctor) [] :: .cell (.int xs.length) [] :: xs) := by
  simp [describe, h]

theorem describe_injective (h : ctor.describe xs = ctor'.describe xs') :
    ctor = ctor' ∧ xs = xs' := by
  rw [describe, describe] at h
  by_cases hc : (xs.isEmpty && !ctor.hasVariableArity) = true <;>
    by_cases hc' : (xs'.isEmpty && !ctor'.hasVariableArity) = true
  · simp_all
  · simp [hc, hc'] at h
  · simp [hc, hc'] at h
  · rw [if_neg hc, if_neg hc'] at h
    injection h with hf hargs
    cases hf
    cases ctor <;> simp_all [hasVariableArity]

end RuntimeCtor

theorem isTypeInfo_iff {x : Value} : IsTypeInfo t x ↔
    ∃ ctor xs, t.runtimeCtor? = some ctor ∧ Forall₂ IsTypeInfo t.args xs ∧
      x = ctor.describe xs := by
  constructor
  · intro h
    cases h with
    | constant => exact ⟨_, [], rfl, .nil, rfl⟩
    | @defined n ts xs nonempty args =>
      refine ⟨_, xs, rfl, args, (describe_defined _ fun h => nonempty ?_).symm⟩
      rw [h] at args
      cases args
      rfl
    | tuple args | higherOrder args =>
      refine ⟨_, _, rfl, args, ?_⟩
      rw [describe_variableArity rfl, args.length_eq]
  · rintro ⟨ctor, xs, hctor, hxs, rfl⟩
    cases t with
    | var v => cases hctor
    | defined n ts =>
      cases hctor
      cases hxs with
      | nil => exact .constant
      | cons hx hxs =>
        rw [describe_defined _ (by simp)]
        exact .defined (by simp) (.cons hx hxs)
    | tuple ts =>
      cases hctor
      rw [describe_variableArity rfl, ← hxs.length_eq]
      exact .tuple hxs
    | higherOrder k ts =>
      cases hctor
      rw [describe_variableArity rfl, ← hxs.length_eq]
      exact .higherOrder hxs

namespace Ty

theorem eq_of_ctor_of_args {u : Ty} (ht : t.runtimeCtor? = some ctor)
    (hu : u.runtimeCtor? = some ctor) (hargs : t.args = u.args) : t = u := by
  cases t <;> cases ht <;> cases u <;> simp_all [runtimeCtor?, args]

end Ty

mutual

/-- A type-info tells its type. -/
theorem IsTypeInfo.unique : ∀ {t u : Ty} {x : Value}, IsTypeInfo t x → IsTypeInfo u x → t = u
  | .var _, _, _, ht, _ => by cases ht
  | .defined _ ts, _, _, ht, hu | .tuple ts, _, _, ht, hu | .higherOrder _ ts, _, _, ht, hu => by
    obtain ⟨ctor, xs, hctor, hargs, rfl⟩ := isTypeInfo_iff.1 ht
    obtain ⟨ctor', xs', hctor', hargs', heq⟩ := isTypeInfo_iff.1 hu
    obtain ⟨rfl, rfl⟩ := describe_injective heq
    exact Ty.eq_of_ctor_of_args hctor hctor' (IsTypeInfo.unique_list hargs hargs')

theorem IsTypeInfo.unique_list : ∀ {ts us : List Ty} {xs : List Value},
    Forall₂ IsTypeInfo ts xs → Forall₂ IsTypeInfo us xs → ts = us
  | [], _, _, .nil, .nil => rfl
  | _ :: _, _, _, .cons ht hts, .cons hu hus => by
    rw [IsTypeInfo.unique ht hu, IsTypeInfo.unique_list hts hus]

end

namespace Ty

variable {get : TypeVar → Option Value} {θ : TypeVar → Ty}

theorem infoWith_isTypeInfo_of_ctor (ht : t.runtimeCtor? = some ctor)
    (h : ∃ xs, infoListWith get t.args = some xs ∧
      Forall₂ IsTypeInfo (mapVarsList θ t.args) xs) :
    ∃ x, t.infoWith get = some x ∧ IsTypeInfo (t.mapVars θ) x := by
  obtain ⟨xs, hxs, hinfos⟩ := h
  have hctor : (t.mapVars θ).runtimeCtor? = some ctor := by
    cases t <;> simp_all [mapVars, runtimeCtor?, mapVarsList_eq_map]
  have hargs : (t.mapVars θ).args = mapVarsList θ t.args := by
    cases t with
    | var v => cases ht
    | _ => rfl
  refine ⟨ctor.describe xs, by rw [infoWith_of_ctor ht, hxs]; rfl, ?_⟩
  exact isTypeInfo_iff.2 ⟨ctor, xs, hctor, hargs ▸ hinfos, rfl⟩

mutual

/-- The description of a type is put together from the type-infos of what its
    variables stand for. -/
theorem infoWith_isTypeInfo : ∀ t : Ty,
    (∀ v ∈ t.occurrences, ∃ x, get v = some x ∧ IsTypeInfo (θ v) x) →
      ∃ x, t.infoWith get = some x ∧ IsTypeInfo (t.mapVars θ) x
  | .var v, h => h v (by simp [occurrences])
  | .defined _ ts, h => infoWith_isTypeInfo_of_ctor rfl (infoListWith_isTypeInfo ts h)
  | .tuple ts, h => infoWith_isTypeInfo_of_ctor rfl (infoListWith_isTypeInfo ts h)
  | .higherOrder _ ts, h => infoWith_isTypeInfo_of_ctor rfl (infoListWith_isTypeInfo ts h)

theorem infoListWith_isTypeInfo : ∀ ts : List Ty,
    (∀ v ∈ occurrencesList ts, ∃ x, get v = some x ∧ IsTypeInfo (θ v) x) →
      ∃ xs, infoListWith get ts = some xs ∧ Forall₂ IsTypeInfo (mapVarsList θ ts) xs
  | [], _ => ⟨[], rfl, .nil⟩
  | t :: ts, h => by
    obtain ⟨x, hx, hinfo⟩ := infoWith_isTypeInfo t fun v hv => h v (mem_append_left _ hv)
    obtain ⟨xs, hxs, hinfos⟩ :=
      infoListWith_isTypeInfo ts fun v hv => h v (mem_append_right _ hv)
    exact ⟨x :: xs, infoListWith_cons.2 ⟨x, xs, hx, hxs, rfl⟩, .cons hinfo hinfos⟩

end

end Ty

/-! ### Stores in which more is bound -/

namespace Store

/-- The store without the variables from number `n` on. -/
def below (σ : Store) (n : Nat) : Store := fun v => if v.index < n then σ v else none

theorem below_of_lt {v : ProgVar} {n : Nat} (h : v.index < n) : σ.below n v = σ v := if_pos h

theorem below_below (σ : Store) (n : Nat) : (σ.below n).Below n := by
  intro v x hv
  by_contra h
  rw [below, if_neg h] at hv
  cases hv

theorem keeps_below (σ : Store) (n : Nat) : (σ.below n).Keeps σ := by
  intro v x hv
  rwa [below_of_lt (below_below σ n v x hv)] at hv

theorem Keeps.set (h : σ.Keeps τ) (v : ProgVar) (x : Value) : (σ.set v x).Keeps (τ.set v x) := by
  intro w y hw
  by_cases hwv : w = v
  · simpa [Store.set, hwv] using hw
  · simp only [Store.set, if_neg hwv] at hw ⊢
    exact h w y hw

end Store

namespace Goal

variable {rt : Accessors} {σ' : Store}

/-- A goal that runs also runs where more is bound. -/
theorem exec_mono {g : Goal} (h : σ.Keeps τ) (hg : g.exec rt σ = some σ') :
    ∃ τ', g.exec rt τ = some τ' ∧ σ'.Keeps τ' := by
  unfold exec at hg
  split at hg
  · next v f args _ _ _ =>
    obtain ⟨xs, hxs, heq⟩ := bind_eq_some_iff.1 hg
    cases heq
    exact ⟨_, by rw [exec, h.mapM hxs]; rfl, h.set _ _⟩
  · next callee d slot result =>
    split at hg
    · next p x i hp hd hslot =>
      obtain ⟨y, hy, rfl⟩ := map_eq_some_iff.1 hg
      refine ⟨τ.set result y, ?_, h.set _ _⟩
      simp [exec, hp, h d x hd, h slot _ hslot, hy]
    · cases hg
  · cases hg

/-- With more bound, the goals of a set-up run through as well and give the same
    values. -/
theorem execAll_mono {goals : List Goal} (h : σ.Keeps τ) (hg : execAll rt goals σ = some σ') :
    ∃ τ', execAll rt goals τ = some τ' ∧ σ'.Keeps τ' := by
  induction goals generalizing σ τ with
  | nil =>
    cases hg
    exact ⟨τ, rfl, h⟩
  | cons g goals ih =>
    obtain ⟨σ₁, h₁, hrest⟩ := bind_eq_some_iff.1 hg
    obtain ⟨τ₁, hτ₁, hk₁⟩ := exec_mono h h₁
    obtain ⟨τ', hτ', hk⟩ := ih hk₁ hrest
    exact ⟨τ', bind_eq_some_iff.2 ⟨τ₁, hτ₁, hτ'⟩, hk⟩

end Goal

/-! ### Goals for types -/

theorem WitnessMap.infoOf_congr {w : WitnessMap} {v : TypeVar}
    (h : ∀ source, w.typeInfos.find? v = some source → σ source.var = τ source.var) :
    w.infoOf rt σ v = w.infoOf rt τ v := by
  unfold infoOf
  split
  · next u hu => exact h _ hu
  · next d i hd =>
    have hd : σ d = τ d := h _ hd
    rw [hd]
  · rfl

theorem Store.forall₂_of_mapM {vs : List ProgVar} {ts : List Ty} {R : Ty → Value → Prop}
    (hvs : vs.mapM σ = some xs) (h : Forall₂ R ts xs) :
    Forall₂ (fun v t => ∃ x, σ v = some x ∧ R t x) vs ts := by
  induction h generalizing vs with
  | nil =>
    cases mapM_eq_some_iff.1 hvs
    exact .nil
  | cons hr _ ih =>
    cases mapM_eq_some_iff.1 hvs with
    | cons hv hvs => exact .cons ⟨_, hv, hr⟩ (ih (mapM_eq_some_iff.2 hvs))

namespace Synth

theorem typeVarInfo_returns (context : Context) (v : TypeVar) (s : WitnessState) :
    ∃ r s', Returns (typeVarInfo context v) s r s' := by
  simp only [typeVarInfo, returns_bind, returns_get]
  rcases hf : s.witnesses.typeInfos.find? v with _ | _ | _ <;>
    exact ⟨_, _, s, s, ⟨rfl, rfl⟩, by rw [hf]; exact rfl⟩

theorem typeCell_returns (context : Context) (ctor : RuntimeCtor) (args : List ProgVar)
    (s : WitnessState) : ∃ r s', Returns (typeCell context ctor args) s r s' := by
  rw [typeCell]
  cases args.isEmpty && !ctor.hasVariableArity with
  | true => exact ⟨_, _, rfl⟩
  | false => cases ctor.hasVariableArity <;> exact ⟨_, _, rfl⟩

theorem typeInfo_returns_of_ctor {context : Context} (ht : t.runtimeCtor? = some ctor)
    {s : WitnessState} (h : ∃ r s', Returns (typeInfos context t.args) s r s') :
    ∃ r s', Returns (typeInfo context t) s r s' := by
  obtain ⟨⟨args, goals⟩, s₁, h₁⟩ := h
  obtain ⟨⟨var, more⟩, s', h'⟩ := typeCell_returns context ctor args s₁
  exact ⟨_, s', (returns_typeInfo_of_ctor ht).2 ⟨args, goals, s₁, var, more, h₁, h', rfl⟩⟩

mutual

theorem typeInfo_returns (context : Context) :
    ∀ (t : Ty) (s : WitnessState), ∃ r s', Returns (typeInfo context t) s r s'
  | .var v, s => typeVarInfo_returns context v s
  | .defined _ ts, s => typeInfo_returns_of_ctor rfl (typeInfos_return context ts s)
  | .tuple ts, s => typeInfo_returns_of_ctor rfl (typeInfos_return context ts s)
  | .higherOrder _ ts, s => typeInfo_returns_of_ctor rfl (typeInfos_return context ts s)

theorem typeInfos_return (context : Context) :
    ∀ (ts : List Ty) (s : WitnessState), ∃ r s', Returns (typeInfos context ts) s r s'
  | [], s => ⟨_, s, returns_typeInfos_nil.2 ⟨rfl, rfl⟩⟩
  | t :: ts, s => by
    obtain ⟨⟨v, goals⟩, s₁, h₁⟩ := typeInfo_returns context t s
    obtain ⟨⟨vs, more⟩, s', h'⟩ := typeInfos_return context ts s₁
    exact ⟨_, s', returns_typeInfos_cons.2 ⟨v, goals, s₁, vs, more, h₁, h', rfl⟩⟩

end

/-- Where the records say of every type variable of the types where its type-info
    is found, there are goals for the types, and the records stay as they are. Let
    `θ` be what the variables stand for, and let their type-infos be found in the
    store `σ`, in or through variables of the table. Then the goals run through from
    `σ`, leave the variables of the table as they are, and bind each variable that
    is returned to the type-info of its type, so that variables for different types
    have different values. -/
theorem typeInfos_describe (context : Context) (ts : List Ty) (s : WitnessState)
    (hlocated : ∀ v ∈ Ty.typeVarsList ts, s.Located v) :
    ∃ vs goals s', (typeInfos context ts).run s = .ok ((vs, goals), s') ∧
      s'.witnesses = s.witnesses ∧
      ∀ (rt : Accessors) (σ : Store) (θ : TypeVar → Ty),
        (∀ v ∈ Ty.typeVarsList ts, ∀ source, s.witnesses.typeInfos.find? v = some source →
          source.var.index < s.vars.size) →
        (∀ v ∈ Ty.typeVarsList ts, ∃ x, s.witnesses.infoOf rt σ v = some x ∧
          IsTypeInfo (θ v) x) →
        ∃ σ', Goal.execAll rt goals σ = some σ' ∧
          (∀ v x, v.index < s.vars.size → σ v = some x → σ' v = some x) ∧
          List.Forall₂ (fun v t => ∃ x, σ' v = some x ∧ IsTypeInfo (t.mapVars θ) x) vs ts ∧
          ∀ v t w u, (v, t) ∈ vs.zip ts → (w, u) ∈ vs.zip ts → t.mapVars θ ≠ u.mapVars θ →
            σ' v ≠ σ' w := by
  simp only [Ty.mem_typeVarsList] at hlocated ⊢
  obtain ⟨⟨vs, goals⟩, s', hret⟩ := typeInfos_return context ts s
  refine ⟨vs, goals, s', hret, ?_, fun rt σ θ htable hθ => ?_⟩
  · exact (@typeInfos_build (fun _ _ _ => none) context ts s s' goals vs hret hlocated).1.witnesses
  · -- Only the variables of the table are needed, and in them nothing new is bound yet.
    have hfound : ∀ v ∈ Ty.occurrencesList ts,
        ∃ x, s.witnesses.infoOf rt (σ.below s.vars.size) v = some x ∧ IsTypeInfo (θ v) x := by
      intro v hv
      rw [WitnessMap.infoOf_congr fun source h => Store.below_of_lt (htable v hv source h)]
      exact hθ v hv
    obtain ⟨xs, hxs, hinfos⟩ := Ty.infoListWith_isTypeInfo ts hfound
    obtain ⟨σ₁, hrun, hold, -, hvs⟩ := (typeInfos_build ts hret hlocated).2 _ xs
      (Store.below_below σ _) hxs
    obtain ⟨σ', hrun', hmore⟩ := Goal.execAll_mono (Store.keeps_below σ _) hrun
    rw [Ty.mapVarsList_eq_map, List.forall₂_map_left_iff] at hinfos
    have hvalues := Store.forall₂_of_mapM (hmore.mapM hvs) hinfos
    refine ⟨σ', hrun', fun v x hv hx => ?_, hvalues, fun v t w u hv hw hne heq => ?_⟩
    · exact hmore v x (hold v x (by rw [Store.below_of_lt hv, hx]))
    · obtain ⟨x, hx, ht⟩ := List.forall₂_zip hvalues hv
      obtain ⟨y, hy, hu⟩ := List.forall₂_zip hvalues hw
      rw [hx, hy, Option.some.injEq] at heq
      exact hne (ht.unique (heq ▸ hu))

end Synth

/-- Types over a type variable that stands for the integers, whose type-info is in
    the dictionary of their order. -/
theorem OrderedLists.typeInfos_describe_lists :
    let ts := [list (.var ⟨0⟩), .tuple [], .higherOrder .predicate [.var ⟨0⟩]]
    ∃ vs goals s' σ', (Synth.typeInfos {} ts).run state = .ok ((vs, goals), s') ∧
      s'.witnesses = state.witnesses ∧ Goal.execAll orders.readSlot goals store = some σ' ∧
      List.Forall₂ (fun v t => ∃ x, σ' v = some x ∧ IsTypeInfo (t.mapVars fun _ => .int) x)
        vs ts := by
  intro ts
  have honly : ∀ v ∈ Ty.typeVarsList ts, v = ⟨0⟩ := by decide
  obtain ⟨vs, goals, s', hrun, hrecords, hbinds⟩ := Synth.typeInfos_describe {} ts state
    (fun v hv => by
      obtain rfl := honly v hv
      exact ⟨_, rfl⟩)
  obtain ⟨σ', hexec, -, hvalues, -⟩ := hbinds orders.readSlot store (fun _ => .int)
    (fun v hv source hsource => by
      obtain rfl := honly v hv
      cases hsource
      decide)
    (fun v hv => by
      obtain rfl := honly v hv
      exact ⟨_, rfl, .constant⟩)
  exact ⟨vs, goals, s', σ', hrun, hrecords, hexec, hvalues⟩

end Clausal
