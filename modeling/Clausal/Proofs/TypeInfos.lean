import Clausal.Proofs.Runtime

/-!
# Type-infos at run time

What the goals do that describe types. The description of a type is put
together from those of its type variables (`Ty.infoWith`), which are found
where the records say (`WitnessMap.infoOf`). The goals need no more than that:
they run through from every store in which the descriptions of the type's own
variables are found.
-/

namespace Clausal

open List WitnessState

variable {get : TypeVar → Option Value} {t : Ty} {ctor : RuntimeCtor} {x : Value} {v : TypeVar}
  {s : WitnessState} {var : ProgVar}

/-! ### Descriptions of types with variables -/

namespace Ty

mutual

/-- The description of a type, from those of its variables. -/
def infoWith (get : TypeVar → Option Value) : Ty → Option Value
  | .var v => get v
  | .defined n ts =>
    (infoListWith get ts).map (RuntimeCtor.describe (.defined ⟨n, ts.length⟩))
  | .tuple ts => (infoListWith get ts).map (RuntimeCtor.describe .tuple)
  | .higherOrder k ts => (infoListWith get ts).map (RuntimeCtor.describe (.higherOrder k))

/-- The descriptions of types, from those of their variables. -/
def infoListWith (get : TypeVar → Option Value) : List Ty → Option (List Value)
  | [] => some []
  | t :: ts => do
    let x ← infoWith get t
    let xs ← infoListWith get ts
    return x :: xs

end

theorem infoWith_of_ctor (ht : t.runtimeCtor? = some ctor) :
    t.infoWith get = (infoListWith get t.args).map ctor.describe := by
  cases t <;> cases ht <;> rfl

theorem infoListWith_cons {ts : List Ty} {xs : List Value} : infoListWith get (t :: ts) = some xs ↔
      ∃ y ys, t.infoWith get = some y ∧ infoListWith get ts = some ys ∧ xs = y :: ys := by
  simp only [infoListWith, Option.bind_eq_bind, Option.pure_def, Option.bind_eq_some_iff,
    Option.some.injEq]
  constructor
  · rintro ⟨y, hy, ys, hys, rfl⟩
    exact ⟨y, ys, hy, hys, rfl⟩
  · rintro ⟨y, ys, hy, hys, rfl⟩
    exact ⟨y, hy, ys, hys, rfl⟩

mutual

theorem info?_mapVars (θ : TypeVar → Ty) :
    ∀ t : Ty, (t.mapVars θ).info? = t.infoWith fun v => (θ v).info?
  | .var v => rfl
  | .defined n ts => by
    rw [mapVars, info?, infoWith, infoList?_mapVars θ ts, mapVarsList_eq_map, length_map]
    cases infoListWith (fun v => (θ v).info?) ts <;> rfl
  | .tuple ts => by
    rw [mapVars, info?, infoWith, infoList?_mapVars θ ts]
    cases infoListWith (fun v => (θ v).info?) ts <;> rfl
  | .higherOrder k ts => by
    rw [mapVars, info?, infoWith, infoList?_mapVars θ ts]
    cases infoListWith (fun v => (θ v).info?) ts <;> rfl

theorem infoList?_mapVars (θ : TypeVar → Ty) :
    ∀ ts : List Ty, infoList? (mapVarsList θ ts) = infoListWith (fun v => (θ v).info?) ts
  | [] => rfl
  | t :: ts => by
    rw [mapVarsList, infoList?, infoListWith, info?_mapVars θ t, infoList?_mapVars θ ts]

end

mutual

theorem infoWith_isSome {get : TypeVar → Option Value} :
    ∀ t : Ty, (t.infoWith get).isSome ↔ ∀ v ∈ t.occurrences, (get v).isSome
  | .var v => by simp [infoWith, occurrences]
  | .defined _ ts => by rw [infoWith, Option.isSome_map, infoListWith_isSome ts, occurrences]
  | .tuple ts => by rw [infoWith, Option.isSome_map, infoListWith_isSome ts, occurrences]
  | .higherOrder _ ts => by rw [infoWith, Option.isSome_map, infoListWith_isSome ts, occurrences]

theorem infoListWith_isSome {get : TypeVar → Option Value} :
    ∀ ts : List Ty, (infoListWith get ts).isSome ↔ ∀ v ∈ occurrencesList ts, (get v).isSome
  | [] => by simp [infoListWith, occurrencesList]
  | t :: ts => by
    have ht : (t.infoWith get).isSome ↔ _ := infoWith_isSome t
    have hts : (infoListWith get ts).isSome ↔ _ := infoListWith_isSome ts
    simp only [Option.isSome_iff_exists] at ht hts
    simp only [Option.isSome_iff_exists, infoListWith_cons, occurrencesList, mem_append,
      or_imp, forall_and, ← ht, ← hts]
    constructor
    · rintro ⟨_, y, ys, hy, hys, rfl⟩
      exact ⟨⟨y, hy⟩, ys, hys⟩
    · rintro ⟨⟨y, hy⟩, ys, hys⟩
      exact ⟨_, y, ys, hy, hys, rfl⟩

end

mutual

theorem infoWith_congr {get get' : TypeVar → Option Value} :
    ∀ t : Ty, (∀ v ∈ t.occurrences, get v = get' v) → t.infoWith get = t.infoWith get'
  | .var v, h => h v (by simp [occurrences])
  | .defined _ ts, h => by rw [infoWith, infoWith, infoListWith_congr ts h]
  | .tuple ts, h => by rw [infoWith, infoWith, infoListWith_congr ts h]
  | .higherOrder _ ts, h => by rw [infoWith, infoWith, infoListWith_congr ts h]

theorem infoListWith_congr {get get' : TypeVar → Option Value} :
    ∀ ts : List Ty, (∀ v ∈ occurrencesList ts, get v = get' v) →
      infoListWith get ts = infoListWith get' ts
  | [], _ => rfl
  | t :: ts, h => by
    rw [infoListWith, infoListWith, infoWith_congr t fun v hv => h v (mem_append_left _ hv),
      infoListWith_congr ts fun v hv => h v (mem_append_right _ hv)]

end

theorem infoWith_mono {get' : TypeVar → Option Value} (h : ∀ v y, get v = some y → get' v = some y)
    (ht : t.infoWith get = some x) : t.infoWith get' = some x := by
  rw [← ht]
  refine (infoWith_congr t fun v hv => ?_).symm
  obtain ⟨y, hy⟩ := Option.isSome_iff_exists.1 ((infoWith_isSome t).1 (by rw [ht]; rfl) v hv)
  rw [hy, h v y hy]

theorem infoWith_of_isGround (h : t.isGround = true) (get : TypeVar → Option Value) :
    t.infoWith get = t.info? := by
  rw [isGround, List.isEmpty_iff] at h
  conv_rhs => rw [← mapVars_var t, info?_mapVars]
  exact infoWith_congr t (by simp [h])

theorem isSome_infoWith_of_isGround (h : t.isGround = true) (get : TypeVar → Option Value) :
    (t.infoWith get).isSome := by
  rw [isGround, List.isEmpty_iff] at h
  exact (infoWith_isSome t).2 (by simp [h])

end Ty

/-! ### Where descriptions are found -/

/-- The description of a type variable, taken out of a store from where the
    records say. -/
def WitnessMap.infoOf (w : WitnessMap) (rt : Accessors) (σ : Store) (v : TypeVar) : Option Value :=
  match w.typeInfos.find? v with
  | some (.direct u) => σ u
  | some (.slot d i) => (σ d).bind (rt .typeInfoFromDictionary · i)
  | none => none

/-- The type-info of a type variable has its place on record. -/
def WitnessState.Located (s : WitnessState) (v : TypeVar) : Prop :=
  ∃ source, s.witnesses.typeInfos.find? v = some source

section

variable {rt : Accessors} {context : Context} {σ σ' : Store} {w w' : WitnessMap}

theorem WitnessMap.infoOf_mono
    (hw : ∀ t source, w.typeInfos.find? t = some source → w'.typeInfos.find? t = some source)
    (hσ : σ.Keeps σ') (h : w.infoOf rt σ v = some x) : w'.infoOf rt σ' v = some x := by
  unfold infoOf at h ⊢
  split at h
  · next u hu =>
    rw [hw v _ hu]
    exact hσ u x h
  · next d i hd =>
    rw [hw v _ hd]
    obtain ⟨y, hy, hx⟩ := Option.bind_eq_some_iff.1 h
    exact Option.bind_eq_some_iff.2 ⟨y, hσ d y hy, hx⟩
  · cases h

theorem WitnessMap.find?_of_infoOf (h : w.infoOf rt σ v = some x) :
    ∃ source, w.typeInfos.find? v = some source := by
  unfold infoOf at h
  split at h
  · next u hu => exact ⟨_, hu⟩
  · next d i hd => exact ⟨_, hd⟩
  · cases h

theorem WitnessState.located_of_infoWith (h : t.infoWith (s.witnesses.infoOf rt σ) = some x) :
    ∀ v ∈ t.occurrences, s.Located v := by
  intro v hv
  obtain ⟨y, hy⟩ := Option.isSome_iff_exists.1
    ((Ty.infoWith_isSome t).1 (by rw [h]; rfl) v hv)
  exact WitnessMap.find?_of_infoOf hy

/-! ### Set-ups that build something -/

/-- A set-up runs through, binds new variables below `n` only and makes `Q`
    hold. -/
def Builds (rt : Accessors) (goals : List Goal) (σ : Store) (n : Nat) (Q : Store → Prop) : Prop :=
  ∃ σ', Goal.execAll rt goals σ = some σ' ∧ σ.Keeps σ' ∧ σ'.Below n ∧ Q σ'

variable {goals more : List Goal} {n n' : Nat} {Q R : Store → Prop}

theorem Builds.nil (hσ : σ.Below n) (h : Q σ) : Builds rt [] σ n Q :=
  ⟨σ, rfl, .refl σ, hσ, h⟩

theorem Builds.imp (h : Builds rt goals σ n Q) (hQ : ∀ σ', σ.Keeps σ' → Q σ' → R σ') :
    Builds rt goals σ n R :=
  let ⟨σ', he, hk, hb, hq⟩ := h
  ⟨σ', he, hk, hb, hQ σ' hk hq⟩

theorem Builds.append (h : Builds rt goals σ n Q)
    (h' : ∀ σ', σ.Keeps σ' → σ'.Below n → Q σ' → Builds rt more σ' n' R) :
    Builds rt (goals ++ more) σ n' R := by
  obtain ⟨σ', he, hk, hb, hq⟩ := h
  obtain ⟨σ'', he', hk', hb', hr⟩ := h' σ' hk hb hq
  exact ⟨σ'', by rw [Goal.execAll_append, he]; exact he', hk.trans hk', hb', hr⟩

/-- A goal that binds the next variable, and what comes after it. -/
theorem Builds.cons {g : Goal} {v : ProgVar} (hσ : σ.Below n) (hv : v.index = n)
    (hg : g.exec rt σ = some (σ.set v x))
    (h : ∀ σ', σ.Keeps σ' → σ'.Below (n + 1) → σ' v = some x → Builds rt more σ' n' R) :
    Builds rt (g :: more) σ n' R := by
  have hstep : Builds rt [g] σ (n + 1) fun σ' => σ' v = some x :=
    ⟨σ.set v x, by simp [Goal.execAll, hg], hσ.keeps_set (Nat.le_of_eq hv.symm),
      hσ.set (Nat.le_succ n) (by omega), σ.set_self v x⟩
  exact hstep.append h

/-- The construction of a cell in the next variable, and what comes after
    it. -/
theorem Builds.construct {v : ProgVar} {f : Symbol} {args : List ProgVar} {xs : List Value}
    (hσ : σ.Below n) (hv : v.index = n) (hargs : args.mapM σ = some xs)
    (h : ∀ σ', σ.Keeps σ' → σ'.Below (n + 1) → σ' v = some (.cell f xs) →
      Builds rt more σ' n' R) :
    Builds rt (.construct v f args context :: more) σ n' R :=
  .cons hσ hv (Goal.exec_construct hargs context) h

/-- Taking a slot out of a dictionary. -/
theorem Builds.slot {p : Primitive} (hp : p ∈ dictionaryAccessors) {d : ProgVar} {y : Value}
    {i : Nat} (hσ : σ.Below n) (hd : σ d = some x) (hy : rt p x i = some y) :
    Builds rt [.intConst ⟨n⟩ i context, Synth.accessor p d ⟨n⟩ ⟨n + 1⟩ context] σ (n + 2)
      fun σ' => σ' ⟨n + 1⟩ = some y := by
  refine .construct hσ rfl rfl fun σ' hk hb hslot => ?_
  refine .cons hb rfl (Goal.exec_accessor hp (hk d x hd) hslot hy context) fun σ'' _ hb' hr => ?_
  exact .nil hb' hr

/-! ### Type-infos -/

/-- Variables are all that is added to the state. -/
structure WitnessState.AddsVars (s s' : WitnessState) : Prop where
  size_le : s.vars.size ≤ s'.vars.size
  witnesses : s'.witnesses = s.witnesses
  scope : s'.scope = s.scope
  proofs : s'.proofs = s.proofs

theorem WitnessState.AddsVars.refl (s : WitnessState) : s.AddsVars s :=
  ⟨Nat.le_refl _, rfl, rfl, rfl⟩

theorem WitnessState.AddsVars.trans {s₁ s' : WitnessState} (h : s.AddsVars s₁)
    (h' : s₁.AddsVars s') : s.AddsVars s' :=
  ⟨Nat.le_trans h.size_le h'.size_le, h'.witnesses.trans h.witnesses, h'.scope.trans h.scope,
    h'.proofs.trans h.proofs⟩

namespace Synth

variable {s' : WitnessState}

theorem typeVarInfo_builds (h : Returns (typeVarInfo context v) s (var, goals) s')
    (hv : s.Located v) :
    s.AddsVars s' ∧ ∀ (σ : Store) x, σ.Below s.vars.size → s.witnesses.infoOf rt σ v = some x →
      Builds rt goals σ s'.vars.size fun σ' => σ' var = some x := by
  rcases typeVarInfo_cases h with ⟨hw, rfl, rfl⟩ | ⟨d, i, hw, rfl, rfl, rfl⟩ | ⟨hw, -⟩
  · refine ⟨.refl _, fun σ x hσ hx => .nil hσ ?_⟩
    rw [WitnessMap.infoOf, hw] at hx
    exact hx
  · refine ⟨⟨by simp; omega, rfl, rfl, rfl⟩, fun σ x hσ hx => ?_⟩
    rw [WitnessMap.infoOf, hw] at hx
    obtain ⟨y, hy, hx⟩ := Option.bind_eq_some_iff.1 hx
    simp only [size_addVar]
    exact .slot mem_cons_self hσ hy hx
  · obtain ⟨source, hs⟩ := hv
    rw [hw] at hs
    cases hs

theorem typeCell_builds {args : List ProgVar}
    (h : Returns (typeCell context ctor args) s (var, goals) s') :
    s.AddsVars s' ∧ ∀ (σ : Store) xs, σ.Below s.vars.size → args.mapM σ = some xs →
      Builds rt goals σ s'.vars.size fun σ' => σ' var = some (ctor.describe xs) := by
  have hlen : ∀ (σ : Store) xs, args.mapM σ = some xs → xs.length = args.length :=
    fun σ xs hxs => (mapM_eq_some_iff.1 hxs).length_eq.symm
  rcases typeCell_cases h with ⟨rfl, hv, rfl, rfl, rfl⟩ | ⟨hne, hv, rfl, rfl, rfl⟩ |
    ⟨hv, rfl, rfl, rfl⟩
  · -- A type without arguments is described by its constructor alone.
    refine ⟨⟨by simp, rfl, rfl, rfl⟩, fun σ xs hσ hxs => ?_⟩
    cases hxs
    simp only [size_addVar]
    refine .construct hσ rfl rfl fun σ' _ hb hx => .nil hb ?_
    rw [hx, RuntimeCtor.describe]
    simp [hv]
  · -- With arguments, by a cell that the constructor goes into first.
    refine ⟨⟨by simp; omega, rfl, rfl, rfl⟩, fun σ xs hσ hxs => ?_⟩
    simp only [size_addVar]
    refine .construct hσ rfl rfl fun σ₁ hk₁ hb₁ hx₁ => ?_
    have hcell : (s.nextVar :: args).mapM σ₁ = some (.cell (.typeCtorInfo ctor) [] :: xs) := by
      simp [hx₁, hk₁.mapM hxs]
    refine .construct hb₁ rfl hcell fun σ₂ _ hb₂ hx₂ => .nil hb₂ ?_
    have hxs_ne : xs ≠ [] :=
      fun e => hne (length_eq_zero_iff.1 (by simp [← hlen σ xs hxs, e]))
    rw [hx₂, RuntimeCtor.describe]
    simp [hv, hxs_ne]
  · refine ⟨⟨by simp; omega, rfl, rfl, rfl⟩, fun σ xs hσ hxs => ?_⟩
    simp only [size_addVar]
    refine .construct hσ rfl rfl fun σ₁ hk₁ hb₁ hx₁ => ?_
    refine .construct hb₁ rfl rfl fun σ₂ hk₂ hb₂ hx₂ => ?_
    have hcell : (s.nextVar :: ⟨s.vars.size + 1⟩ :: args).mapM σ₂ =
        some (.cell (.typeCtorInfo ctor) [] :: .cell (.int args.length) [] :: xs) := by
      simp [hk₂ _ _ hx₁, hx₂, (hk₁.trans hk₂).mapM hxs]
    refine .construct hb₂ rfl hcell fun σ₃ _ hb₃ hx₃ => .nil hb₃ ?_
    rw [hx₃, RuntimeCtor.describe]
    simp [hv, hlen σ xs hxs]

theorem typeInfo_builds_of_ctor (ht : t.runtimeCtor? = some ctor)
    (h : Returns (typeInfo context t) s (var, goals) s')
    (hargs : ∀ vs goals s₁, Returns (typeInfos context t.args) s (vs, goals) s₁ →
      s.AddsVars s₁ ∧ ∀ (σ : Store) xs, σ.Below s.vars.size →
        Ty.infoListWith (s.witnesses.infoOf rt σ) t.args = some xs →
          Builds rt goals σ s₁.vars.size fun σ' => vs.mapM σ' = some xs) :
    s.AddsVars s' ∧ ∀ (σ : Store) x, σ.Below s.vars.size →
      t.infoWith (s.witnesses.infoOf rt σ) = some x →
        Builds rt goals σ s'.vars.size fun σ' => σ' var = some x := by
  obtain ⟨vs, goals₁, s₁, var, goals₂, h₁, h₂, heq⟩ := (returns_typeInfo_of_ctor ht).1 h
  cases heq
  obtain ⟨ha₁, hb₁⟩ := hargs _ _ _ h₁
  obtain ⟨ha₂, hb₂⟩ := typeCell_builds h₂
  refine ⟨ha₁.trans ha₂, fun σ x hσ hx => ?_⟩
  rw [Ty.infoWith_of_ctor ht, Option.map_eq_some_iff] at hx
  obtain ⟨xs, hxs, rfl⟩ := hx
  exact (hb₁ σ xs hσ hxs).append fun σ₁ _ hσ₁ hvs => hb₂ σ₁ xs hσ₁ hvs

mutual

/-- The goals for a type build its description. -/
theorem typeInfo_builds : ∀ (t : Ty) {s s' : WitnessState} {goals : List Goal} {var : ProgVar},
    Returns (typeInfo context t) s (var, goals) s' → (∀ v ∈ t.occurrences, s.Located v) →
      s.AddsVars s' ∧ ∀ (σ : Store) x, σ.Below s.vars.size →
        t.infoWith (s.witnesses.infoOf rt σ) = some x →
          Builds rt goals σ s'.vars.size fun σ' => σ' var = some x
  | .var _, _, _, _, _, h, hl => typeVarInfo_builds h (hl _ (by simp [Ty.occurrences]))
  | .defined _ ts, _, _, _, _, h, hl =>
    typeInfo_builds_of_ctor rfl h fun _ _ _ h => typeInfos_build ts h hl
  | .tuple ts, _, _, _, _, h, hl =>
    typeInfo_builds_of_ctor rfl h fun _ _ _ h => typeInfos_build ts h hl
  | .higherOrder _ ts, _, _, _, _, h, hl =>
    typeInfo_builds_of_ctor rfl h fun _ _ _ h => typeInfos_build ts h hl

/-- The goals for types build their descriptions. -/
theorem typeInfos_build : ∀ (ts : List Ty) {s s' : WitnessState} {goals : List Goal}
    {vs : List ProgVar}, Returns (typeInfos context ts) s (vs, goals) s' →
      (∀ v ∈ Ty.occurrencesList ts, s.Located v) →
      s.AddsVars s' ∧ ∀ (σ : Store) xs, σ.Below s.vars.size →
        Ty.infoListWith (s.witnesses.infoOf rt σ) ts = some xs →
          Builds rt goals σ s'.vars.size fun σ' => vs.mapM σ' = some xs
  | [], _, _, _, _, h, _ => by
    obtain ⟨hr, rfl⟩ := returns_typeInfos_nil.1 h
    cases hr
    exact ⟨.refl _, fun σ xs hσ hxs => .nil hσ hxs⟩
  | t :: ts, s, _, _, _, h, hl => by
    obtain ⟨v, goals₁, s₁, vs, goals₂, h₁, h₂, heq⟩ := returns_typeInfos_cons.1 h
    cases heq
    obtain ⟨ha₁, hb₁⟩ := typeInfo_builds t h₁ fun v hv => hl v (by simp [Ty.occurrencesList, hv])
    -- Making a type-info of a type whose variables are on record records nothing.
    have hl₂ : ∀ v ∈ Ty.occurrencesList ts, s₁.Located v := by
      intro v hv
      rw [WitnessState.Located, ha₁.witnesses]
      exact hl v (by simp [Ty.occurrencesList, hv])
    obtain ⟨ha₂, hb₂⟩ := typeInfos_build ts h₂ hl₂
    refine ⟨ha₁.trans ha₂, fun σ xs hσ hxs => ?_⟩
    obtain ⟨y, ys, hy, hys, rfl⟩ := Ty.infoListWith_cons.1 hxs
    refine (hb₁ σ y hσ hy).append fun σ₁ hk₁ hσ₁ hv => ?_
    have hys₁ : Ty.infoListWith (s₁.witnesses.infoOf rt σ₁) ts = some ys := by
      rw [← hys, ha₁.witnesses]
      refine (Ty.infoListWith_congr ts fun v hv => ?_).symm
      obtain ⟨z, hz⟩ := Option.isSome_iff_exists.1
        ((Ty.infoListWith_isSome ts).1 (by rw [hys]; rfl) v hv)
      rw [hz, WitnessMap.infoOf_mono (fun _ _ h => h) hk₁ hz]
    refine (hb₂ σ₁ ys hσ₁ hys₁).imp fun σ₂ hk₂ hvs => ?_
    simp [hk₂ v y hv, hvs]

end

end Synth

end

end Clausal
