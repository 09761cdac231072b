import Clausal.Proofs.TypeInfos

/-!
# Dictionary synthesis is correct

The goals that are put in front of a call build dictionaries of the
constraints they were asked for, whatever proofs there are and however deep
they lead. The proofs need not be trusted: an instance that does not match and
a superclass that is none are found out when they are made use of. What has to
be kept up during the search is that

* the variables on record hold what they are on record for (`RecordsHold`), and
* the type variables that are met have their type-infos on record (`Ready`),

the latter because instances bring no type variables of their own with them.
-/

namespace Clausal

open List Assoc Constraint Synth ClassDefn

variable {cls : ClassDefn} {c : Constraint} {v : ProgVar} {s : WitnessState} {p : ConstraintProof}
  {t : Ty} {d sub : Constraint} {x : Value} {i : Nat} {inst : InstanceDefn}

/-! ### Scopes of classes and instances -/

/-- The variables of a proof. -/
def ConstraintProof.occurrences : ConstraintProof → List TypeVar
  | .byInstance _ => []
  | .bySuperclass sub => sub.occurrences

/-- An instance has variables of its own only in its types. -/
structure InstanceDefn.WellScoped (inst : InstanceDefn) : Prop where
  types : ∀ v ∈ Ty.occurrencesList inst.types, v.index < inst.scope.size
  constraints : ∀ d ∈ inst.constraints, ∀ v ∈ d.occurrences, v ∈ Ty.occurrencesList inst.types
  proofs : ∀ e ∈ inst.proofs.entries, ∀ v ∈ e.1.occurrences ++ e.2.occurrences,
    v ∈ Ty.occurrencesList inst.types

/-- The classes and instances of a module have variables of their own only in
    their parameters and types. For classes it is so wherever they are declared
    by `Module.addClass`. -/
structure Module.WellScoped (m : Module) : Prop where
  classes : ∀ id cls, m.classes.find? id = some cls →
    cls.WellScoped ∧ cls.params.length = id.arity
  instances : ∀ id n inst, m.instance? id n = some inst → inst.WellScoped

theorem ClassDefn.supersAt?_eq_some (hc : cls.WellScoped) {scope : TypeScope} {args : List Ty}
    (hl : cls.params.length = args.length)
    (ha : ∀ v ∈ Ty.occurrencesList args, v.index < scope.size) :
    cls.supersAt? scope args = some (cls.supersOf args) := by
  refine mapM_eq_some_map fun c hcs => ?_
  rw [shift_subst? (idempotent_params hc rfl ha), Option.some.injEq]
  exact mapVars_congr fun v hv => image_shift_params hc hl rfl (hc.supers c hcs v hv)

theorem Assoc.mem_insertEntry {κ ν : Type} [DecidableEq κ] {k : κ} {v : ν} {es : List (κ × ν)}
    {e : κ × ν} (h : e ∈ insertEntry k v es) : e = (k, v) ∨ e ∈ es := by
  have hr : ∀ es : List (κ × ν), e ∈ replaceEntry k v es → e = (k, v) ∨ e ∈ es := by
    intro es
    induction es with
    | nil => exact .inr
    | cons d es ih =>
      rw [replaceEntry]
      split
      · intro h
        rcases mem_cons.1 h with h | h
        · exact .inl h
        · exact .inr (mem_cons_of_mem _ h)
      · intro h
        rcases mem_cons.1 h with h | h
        · exact .inr (h ▸ mem_cons_self)
        · exact (ih h).imp_right (mem_cons_of_mem _)
  rw [insertEntry] at h
  split at h
  · exact hr es h
  · exact mem_cons.1 h

theorem Assoc.mem_entries_ofList {κ ν : Type} [DecidableEq κ] {es : List (κ × ν)} {e : κ × ν}
    (h : e ∈ (ofList es).entries) : e ∈ es := by
  have hm : ∀ (es : List (κ × ν)) (m : Assoc κ ν), e ∈ (m.insertMany es).entries →
      e ∈ m.entries ∨ e ∈ es := by
    intro es
    induction es with
    | nil => exact fun m h => .inl h
    | cons d es ih =>
      intro m h
      rcases ih _ h with h | h
      · rcases mem_insertEntry h with h | h
        · exact .inr (h ▸ mem_cons_self)
        · exact .inl h
      · exact .inr (mem_cons_of_mem _ h)
  exact (hm es ∅ h).resolve_left not_mem_nil

theorem ProofMap.mem_shift_subst? {r : Shift} {s : Subst} (hs : s.Idempotent) {m m' : ProofMap}
    (h : (m.shift r).subst? s = some m') (hc : (c, p) ∈ m'.entries) :
    ∃ e ∈ m.entries, c = e.1.mapVars (s.after r) ∧
      ∀ v ∈ p.occurrences, ∃ w ∈ e.2.occurrences, v ∈ (s.after r w).occurrences := by
  simp only [subst?, Option.bind_eq_bind, Option.pure_def, Option.bind_eq_some_iff,
    Option.some.injEq] at h
  obtain ⟨es, hes, rfl⟩ := h
  obtain ⟨e, he, hce⟩ := exists_of_forall₂ (mapM_eq_some_iff.1 hes) (mem_entries_ofList hc)
  obtain ⟨d, hd, rfl⟩ := mem_map.1 (mem_entries_ofList (mem_reverse.1 he))
  refine ⟨d, mem_reverse.1 hd, ?_⟩
  simp only [shift_subst? hs, Option.bind_some, Option.bind_eq_some_iff,
    Option.some.injEq, Prod.mk.injEq] at hce
  obtain ⟨q, hq, rfl, rfl⟩ := hce
  refine ⟨rfl, fun v hv => ?_⟩
  cases hp : d.2 with
  -- The number of an instance mentions no variable.
  | byInstance n =>
    rw [hp] at hq
    cases hq
    exact absurd hv not_mem_nil
  | bySuperclass sub =>
    simp only [hp, ConstraintProof.shift, ConstraintProof.subst?, shift_subst? hs,
      Option.bind_eq_bind, Option.bind_some, Option.pure_def, Option.some.injEq] at hq
    rw [← hq] at hv
    exact mem_occurrences_mapVars.1 hv

/-! ### What is on record -/

section

variable {m : Module} {rt : Accessors} {θ : TypeVar → Ty} {σ σ' : Store}

/-- A variable holds the description of a type, where `θ` says what the type
    variables stand for. -/
def HoldsInfo (θ : TypeVar → Ty) (σ : Store) (t : Ty) (v : ProgVar) : Prop :=
  ∃ x, σ v = some x ∧ (t.mapVars θ).info? = some x

/-- A variable holds a dictionary of a constraint. -/
def HoldsWitness (m : Module) (θ : TypeVar → Ty) (σ : Store) (c : Constraint) (v : ProgVar) :
    Prop :=
  ∃ x, σ v = some x ∧ IsWitness m (c.mapVars θ) x

/-- The variables on record hold what they are on record for. -/
structure RecordsHold (m : Module) (rt : Accessors) (θ : TypeVar → Ty) (σ : Store)
    (w : WitnessMap) : Prop where
  dictionary : ∀ c v, w.dictionaries.find? c = some v → HoldsWitness m θ σ c v
  direct : ∀ t v, w.typeInfos.find? t = some (.direct v) → HoldsInfo θ σ (.var t) v
  slot : ∀ t v i, w.typeInfos.find? t = some (.slot v i) →
    ∃ x y, σ v = some x ∧ rt .typeInfoFromDictionary x i = some y ∧ (θ t).info? = some y

theorem HoldsInfo.mono (h : HoldsInfo θ σ t v) (hσ : σ.Keeps σ') : HoldsInfo θ σ' t v :=
  let ⟨x, hx, hi⟩ := h
  ⟨x, hσ v x hx, hi⟩

theorem HoldsWitness.mono (h : HoldsWitness m θ σ c v) (hσ : σ.Keeps σ') :
    HoldsWitness m θ σ' c v :=
  let ⟨x, hx, hw⟩ := h
  ⟨x, hσ v x hx, hw⟩

theorem RecordsHold.mono {w : WitnessMap} (h : RecordsHold m rt θ σ w) (hσ : σ.Keeps σ') :
    RecordsHold m rt θ σ' w where
  dictionary c v hc := (h.dictionary c v hc).mono hσ
  direct t v ht := (h.direct t v ht).mono hσ
  slot t v i ht :=
    let ⟨x, y, hx, hy, hi⟩ := h.slot t v i ht
    ⟨x, y, hσ v x hx, hy, hi⟩

/-- What is on record of type variables describes what they stand for. -/
theorem RecordsHold.infoOf {v : TypeVar} (h : RecordsHold m rt θ σ s.witnesses) (hv : s.Located v) :
    ∃ x, s.witnesses.infoOf rt σ v = some x ∧ (θ v).info? = some x := by
  obtain ⟨source, hs⟩ := hv
  rw [WitnessMap.infoOf, hs]
  cases source with
  | direct u => exact h.direct v u hs
  | slot d i =>
    obtain ⟨x, y, hx, hy, hi⟩ := h.slot v d i hs
    exact ⟨y, by simp [hx, hy], hi⟩

/-- What is on record describes the types over the variables on record. -/
theorem RecordsHold.infos {ts : List Ty} (h : RecordsHold m rt θ σ s.witnesses)
    (hts : ∀ v ∈ Ty.occurrencesList ts, s.Located v) :
    ∃ xs, Ty.infoListWith (s.witnesses.infoOf rt σ) ts = some xs ∧
      Ty.infoList? (Ty.mapVarsList θ ts) = some xs := by
  have hget : ∀ v ∈ Ty.occurrencesList ts, s.witnesses.infoOf rt σ v = (θ v).info? := by
    intro v hv
    obtain ⟨x, hx, hi⟩ := h.infoOf (hts v hv)
    rw [hx, hi]
  have hsome : (Ty.infoListWith (s.witnesses.infoOf rt σ) ts).isSome := by
    refine (Ty.infoListWith_isSome ts).2 fun v hv => ?_
    obtain ⟨x, hx, -⟩ := h.infoOf (hts v hv)
    rw [hx]
    rfl
  obtain ⟨xs, hxs⟩ := Option.isSome_iff_exists.1 hsome
  exact ⟨xs, hxs, by rw [Ty.infoList?_mapVars, ← Ty.infoListWith_congr ts hget, hxs]⟩

theorem HoldsWitness.values {cs : List Constraint} {vs : List ProgVar}
    (h : Forall₂ (HoldsWitness m θ σ) cs vs) :
    ∃ xs, vs.mapM σ = some xs ∧ Forall₂ (IsWitness m) (cs.map (·.mapVars θ)) xs := by
  induction h with
  | nil => exact ⟨[], rfl, .nil⟩
  | cons h _ ih =>
    obtain ⟨x, hx, hw⟩ := h
    obtain ⟨xs, hxs, hws⟩ := ih
    exact ⟨x :: xs, by simp [hx, hxs], .cons hw hws⟩

/-! ### Type-infos -/

/-- The goals, made between the states `s` and `s'`, build something from
    whatever holds what is on record. -/
def BuildsFrom (m : Module) (rt : Accessors) (θ : TypeVar → Ty) (s : WitnessState)
    (goals : List Goal) (s' : WitnessState) (Q : Store → Prop) : Prop :=
  ∀ σ : Store, σ.Below s.vars.size → RecordsHold m rt θ σ s.witnesses →
    Builds rt goals σ s'.vars.size Q

variable {goals more : List Goal} {n n' : Nat} {Q R : Store → Prop}

/-! ### What dictionaries hold -/

theorem IsWitness.superclass (h : IsWitness m c x) (hr : ReadsSlots m rt)
    (hcls : m.classes.find? c.classId = some cls) (hi : (cls.supersOf c.args)[i]? = some d) :
    ∃ y, rt .superclassFromDictionary x ((i + 1 : Nat) : Int) = some y ∧ IsWitness m d y := by
  obtain @⟨_, _, n, inst, f, ds, ss, ts, hcls', hinst, -, hds, hss, -⟩ := h
  obtain rfl := Option.some.inj (hcls'.symm.trans hcls)
  have hlen : ds.length = _ := hds.length_eq.symm.trans (length_map ..)
  obtain ⟨hlt, hget⟩ := List.getElem?_eq_some_iff.1 hi
  have hlt' : i < ss.length := hss.length_eq ▸ hlt
  have hslot : (ds ++ ss ++ ts)[ds.length + i]? = ss[i]? := by
    rw [append_assoc, List.getElem?_append_right (Nat.le_add_right ..),
      Nat.add_sub_cancel_left, List.getElem?_append_left hlt']
  refine ⟨ss[i], ?_, ?_⟩
  · have hread := hr .superclassFromDictionary (by simp [dictionaryAccessors]) inst.owner
      c.classId n (Ty.instanceKeys inst.types) inst (ds ++ ss ++ ts) i hinst
    rw [← hlen, hslot, List.getElem?_eq_getElem hlt'] at hread
    exact hread
  · have := Forall₂.get hss hlt hlt'
    simpa [hget] using this

theorem IsWitness.typeInfo (h : IsWitness m c x) (hr : ReadsSlots m rt)
    (hcls : m.classes.find? c.classId = some cls) (hi : c.args[i]? = some t) :
    ∃ y, rt .typeInfoFromDictionary x ((cls.supers.length + i + 1 : Nat) : Int) = some y ∧
      t.info? = some y := by
  obtain @⟨_, _, n, inst, f, ds, ss, ts, hcls', hinst, -, hds, hss, hts⟩ := h
  obtain rfl := Option.some.inj (hcls'.symm.trans hcls)
  have hlen : ds.length = _ := hds.length_eq.symm.trans (length_map ..)
  have hlen' : ss.length = _ := hss.length_eq.symm.trans (length_map ..)
  have hts := Ty.infoList?_eq_some.1 hts
  obtain ⟨hlt, hget⟩ := List.getElem?_eq_some_iff.1 hi
  have hlt' : i < ts.length := hts.length_eq ▸ hlt
  -- The type-infos stand behind the premises and the superclasses.
  have hslot : (ds ++ ss ++ ts)[ds.length + (ss.length + i)]? = ts[i]? := by
    rw [append_assoc, List.getElem?_append_right (Nat.le_add_right ..),
      Nat.add_sub_cancel_left, List.getElem?_append_right (Nat.le_add_right ..),
      Nat.add_sub_cancel_left]
  refine ⟨ts[i], ?_, ?_⟩
  · have hread := hr .typeInfoFromDictionary (by simp [dictionaryAccessors]) inst.owner
      c.classId n (Ty.instanceKeys inst.types) inst (ds ++ ss ++ ts) (ss.length + i) hinst
    rw [← hlen, hslot, List.getElem?_eq_getElem hlt', hlen'] at hread
    exact hread
  · have := Forall₂.get hts hlt hlt'
    simpa [hget] using this

/-- What is on record of a dictionary is where it says. -/
theorem RecordsHold.record {w : WitnessMap} (h : RecordsHold m rt θ σ w) (hr : ReadsSlots m rt)
    (hcls : m.classes.find? c.classId = some cls) (hv : HoldsWitness m θ σ c v) :
    RecordsHold m rt θ σ (w.record cls.supers.length c v) := by
  refine WitnessMap.record_induction ⟨fun d v' hd => ?_, h.direct, h.slot⟩ fun w i u hw hi => ?_
  · rcases of_find?_insertIfNew hd with hd | ⟨rfl, rfl⟩
    · exact h.dictionary d v' hd
    · exact hv
  · -- The dictionary holds the type-info of every argument, hence that of the
    -- type that the variable `u` stands for, in the slot put on record.
    obtain ⟨x, hx, hwitness⟩ := hv
    have hi : (c.mapVars θ).args[i]? = some (θ u) := by
      simp [Constraint.mapVars, Ty.mapVarsList_eq_map, hi, Ty.mapVars]
    obtain ⟨y, hy, hinfo⟩ := hwitness.typeInfo hr (by rwa [classId_mapVars]) hi
    refine ⟨hw.dictionary, fun t v' ht => ?_, fun t v' j ht => ?_⟩
    · rcases of_find?_insertIfNew ht with ht | ⟨-, ht⟩
      · exact hw.direct t v' ht
      · cases ht
    · rcases of_find?_insertIfNew ht with ht | ⟨rfl, hsource⟩
      · exact hw.slot t v' j ht
      · cases hsource
        exact ⟨x, y, hx, hy, hinfo⟩

/-! ### The search for dictionaries -/

/-- The variables of the constraint are all of a kind. -/
def Constraint.Over (P : TypeVar → Prop) (c : Constraint) : Prop := ∀ v ∈ c.occurrences, P v

/-- A search that meets type variables of the kind `P` only finds their
    type-infos on record, and the proofs lead to no other ones. -/
structure WitnessState.Ready (P : TypeVar → Prop) (s : WitnessState) : Prop where
  declared : ∀ v, P v → v.index < s.scope.size
  located : ∀ v, P v → s.Located v
  proofs : ∀ c sub, s.proofs.find? c = some (.bySuperclass sub) → sub.Over P

variable {P : TypeVar → Prop} {s s' : WitnessState} {env : WitnessEnv} {context : Context}

theorem WitnessState.Ready.addsVars (h : s.Ready P) (hs : s.AddsVars s') : s'.Ready P where
  declared v hv := hs.scope ▸ h.declared v hv
  located v hv := by
    rw [Located, hs.witnesses]
    exact h.located v hv
  proofs c sub hc := h.proofs c sub (hs.proofs ▸ hc)

theorem WitnessState.AddsVars.addVar (s : WitnessState) (name : String) (type : Ty) :
    s.AddsVars (s.addVar name type) :=
  ⟨by simp, rfl, rfl, rfl⟩

theorem WitnessState.of_find?_addProofs (s : WitnessState) {proofs : ProofMap}
    (h : (s.addProofs proofs).proofs.find? c = some p) :
    (c, p) ∈ proofs.entries ∨ s.proofs.find? c = some p := by
  have h : (s.proofs.shadowMany proofs.toList).find? c = some p := h
  rw [Assoc.find?_shadowMany, Option.or_eq_some_iff] at h
  rcases h with h | ⟨-, h⟩
  · have := mem_of_firstValue h
    rw [Assoc.toList, reverse_reverse] at this
    exact .inl this
  · exact .inr h

theorem WitnessState.Ready.enter (h : s.Ready P) (scope : TypeScope) (proofs : ProofMap)
    (hp : ∀ c sub, (c, ConstraintProof.bySuperclass sub) ∈ proofs.entries → sub.Over P) :
    ((s.mergeScope scope).addProofs proofs).Ready P where
  declared v hv := by
    have := h.declared v hv
    show v.index < (s.scope.merge scope).2.size
    rw [TypeScope.size_merge]
    omega
  located := h.located
  proofs c sub hc := (s.of_find?_addProofs hc).elim (hp c sub) (h.proofs c sub)

/-- What a step does that finds dictionaries of constraints over `P`. -/
def Resolves (m : Module) (rt : Accessors) (θ : TypeVar → Ty) (P : TypeVar → Prop)
    (resolve : Constraint → Synth (ProgVar × List Goal)) : Prop :=
  ∀ (c : Constraint) (s s' : WitnessState) (v : ProgVar) (goals : List Goal), c.Over P →
    s.Ready P → Synth.Returns (resolve c) s (v, goals) s' →
      s'.Ready P ∧ BuildsFrom m rt θ s goals s' fun σ =>
        RecordsHold m rt θ σ s'.witnesses ∧ HoldsWitness m θ σ c v

variable {resolve : Constraint → Synth (ProgVar × List Goal)}

theorem Resolves.collect (hr : Resolves m rt θ P resolve) {cs : List Constraint}
    {vs : List ProgVar} (hcs : ∀ c ∈ cs, c.Over P) (hs : s.Ready P)
    (h : Synth.Returns (Synth.collect resolve cs) s (vs, goals) s') :
    s'.Ready P ∧ BuildsFrom m rt θ s goals s' fun σ =>
      RecordsHold m rt θ σ s'.witnesses ∧ Forall₂ (HoldsWitness m θ σ) cs vs := by
  induction cs generalizing s vs goals with
  | nil =>
    obtain ⟨heq, rfl⟩ := returns_collect_nil.1 h
    cases heq
    exact ⟨hs, fun σ hσ hw => .nil hσ ⟨hw, .nil⟩⟩
  | cons c cs ih =>
    obtain ⟨v, goals₁, s₁, vs, goals₂, h₁, h₂, heq⟩ := returns_collect_cons.1 h
    cases heq
    obtain ⟨hs₁, hb₁⟩ := hr _ _ _ _ _ (hcs c mem_cons_self) hs h₁
    obtain ⟨hs₂, hb₂⟩ := ih (fun d hd => hcs d (mem_cons_of_mem _ hd)) hs₁ h₂
    refine ⟨hs₂, fun σ hσ hw => (hb₁ σ hσ hw).append fun σ₁ _ hσ₁ ⟨hw₁, hv⟩ => ?_⟩
    exact (hb₂ σ₁ hσ₁ hw₁).imp fun σ₂ hk₂ ⟨hw₂, hvs⟩ => ⟨hw₂, .cons (hv.mono hk₂) hvs⟩

theorem IsWitness.ofInstance (hm : m.WellScoped) {f : TypeVar → Ty} {ds ss ts : List Value}
    (hcls : m.classes.find? c.classId = some cls) (hinst : m.instance? c.classId n = some inst)
    (hargs : Ty.mapVarsList f inst.types = c.args)
    (hds : Forall₂ (IsWitness m) ((inst.constraints.map (·.mapVars f)).map (·.mapVars θ)) ds)
    (hss : Forall₂ (IsWitness m) ((cls.supersOf c.args).map (·.mapVars θ)) ss)
    (hts : Ty.infoList? (Ty.mapVarsList θ c.args) = some ts) :
    IsWitness m (c.mapVars θ) (.cell .dictionary
      (.cell (.baseDictionary inst.owner c.classId n (Ty.instanceKeys inst.types)) [] ::
        ds ++ ss ++ ts)) := by
  obtain ⟨hclass, hlen⟩ := hm.classes c.classId cls hcls
  have hid := classId_mapVars θ c
  have hmatched : Ty.mapVarsList (fun v => (f v).mapVars θ) inst.types = (c.mapVars θ).args := by
    rw [← Ty.mapVarsList_mapVarsList, hargs]
    rfl
  -- The superclass constraints of an instantiated constraint are the instantiated
  -- ones, as the class's own variables are all among its parameters.
  rw [← supersOf_mapVars hclass hlen] at hss
  have hmap : (inst.constraints.map (·.mapVars f)).map (·.mapVars θ) =
      inst.constraints.map (·.mapVars fun v => (f v).mapVars θ) := by
    rw [map_map]
    exact map_congr_left fun d _ => mapVars_mapVars ..
  rw [← hid]
  exact .mk (hid ▸ hcls) (hid ▸ hinst) hmatched (hmap ▸ hds) hss hts

theorem Resolves.ofInstance (hm : env.env.WellScoped) (hr : Resolves env.env rt θ P resolve)
    (hc : c.Over P) (hs : s.Ready P) {n : Nat} {var : ProgVar}
    (h : Synth.MadeByInstance env context resolve c n s var goals s') :
    s'.Ready P ∧ BuildsFrom env.env rt θ s goals s' fun σ =>
      RecordsHold env.env rt θ σ s'.witnesses ∧ HoldsWitness env.env θ σ c var := by
  obtain @⟨inst, cls, subst, proofs, constraints, supers, ds, ss, ts, goals₁, goals₂, goals₃,
    s₁, s₂, s₃, hinst, hcls, hmatch, hproofs, hcs, h₁, hsupers, h₂, h₃⟩ := h
  have hi : inst.WellScoped := hm.instances c.classId n inst hinst
  obtain ⟨hclass, hlen⟩ := hm.classes c.classId cls hcls
  obtain ⟨hidem, hargs, himage⟩ := Subst.ofMatch_shift hmatch hi.types
    fun v hv => hs.declared v (hc v hv)
  -- What the instance brings with it is over the variables of its types.
  have hover : ∀ u ∈ Ty.occurrencesList inst.types, ∀ v ∈ (subst.after _ u).occurrences, P v :=
    fun u hu v hv => hc v (himage u hu v hv)
  obtain rfl : _ = constraints := Option.some.inj <|
    (mapM_eq_some_map fun d _ => shift_subst? hidem _ d).symm.trans hcs
  have hs₀ := hs.enter inst.scope proofs fun d sub hd v hv => by
    obtain ⟨e, he, -, hocc⟩ := ProofMap.mem_shift_subst? hidem hproofs hd
    obtain ⟨w, hw, hvw⟩ := hocc v hv
    exact hover w (hi.proofs e he w (mem_append_right _ hw)) v hvw
  obtain ⟨hs₁, hb₁⟩ := hr.collect (by
    intro d hd v hv
    obtain ⟨d, hd', rfl⟩ := mem_map.1 hd
    obtain ⟨u, hu, hvu⟩ := mem_occurrences_mapVars.1 hv
    exact hover u (hi.constraints d hd' u hu) v hvu) hs₀ h₁
  obtain rfl := Option.some.inj <|
    (ClassDefn.supersAt?_eq_some hclass hlen fun v hv => hs₁.declared v (hc v hv)).symm.trans
      hsupers
  obtain ⟨hs₂, hb₂⟩ := hr.collect (fun d hd v hv =>
    hc v (mem_supersOf_occurrences hclass hlen hd hv)) hs₁ h₂
  obtain ⟨ha₃, hb₃⟩ := typeInfos_build c.args h₃ fun v hv => hs₂.located v (hc v hv)
  refine ⟨(hs₂.addsVars ha₃).addsVars ((WitnessState.AddsVars.addVar ..).trans (.addVar ..)),
    fun σ hσ hw => ?_⟩
  simp only [WitnessState.size_addVar]
  rw [append_assoc, append_assoc]
  refine (hb₁ σ hσ hw).append fun σ₁ _ hσ₁ ⟨hw₁, hds⟩ => ?_
  refine (hb₂ σ₁ hσ₁ hw₁).append fun σ₂ hk₂ hσ₂ ⟨hw₂, hss⟩ => ?_
  obtain ⟨zs, hinfos, hts⟩ := hw₂.infos fun v hv => hs₂.located v (hc v hv)
  refine (hb₃ σ₂ zs hσ₂ hinfos).append fun σ₃ hk₃ hσ₃ hzs => ?_
  obtain ⟨xs, hxs, hds⟩ := HoldsWitness.values hds
  obtain ⟨ys, hys, hss⟩ := HoldsWitness.values hss
  refine .construct hσ₃ rfl rfl fun σ₄ hk₄ hσ₄ hbase => ?_
  have hcell : (s₃.nextVar :: ds ++ ss ++ ts).mapM σ₄ = some (.cell (.baseDictionary inst.owner
      c.classId n (Ty.instanceKeys inst.types)) [] :: xs ++ ys ++ zs) := by
    simp [mapM_append, hbase, ((hk₂.trans hk₃).trans hk₄).mapM hxs,
      (hk₃.trans hk₄).mapM hys, hk₄.mapM hzs]
  refine .construct hσ₄ rfl hcell fun σ₅ hk₅ hσ₅ hvar => .nil hσ₅ ⟨?_, _, hvar, ?_⟩
  · exact ha₃.witnesses ▸ hw₂.mono ((hk₃.trans hk₄).trans hk₅)
  · exact .ofInstance hm hcls hinst hargs hds hss hts

theorem Resolves.ofSuperclass (hm : env.env.WellScoped) (hrt : ReadsSlots env.env rt)
    (hr : Resolves env.env rt θ P resolve) (hsub : sub.Over P) (hs : s.Ready P) {var : ProgVar}
    (h : Synth.MadeBySuperclass env context resolve c sub s var goals s') :
    s'.Ready P ∧ BuildsFrom env.env rt θ s goals s' fun σ =>
      RecordsHold env.env rt θ σ s'.witnesses ∧ HoldsWitness env.env θ σ c var := by
  obtain @⟨cls, supers, position, whole, goals₁, s₁, h₁, hcls, hsupers, hposition⟩ := h
  obtain ⟨hclass, hlen⟩ := hm.classes sub.classId cls hcls
  obtain ⟨hs₁, hb₁⟩ := hr _ _ _ _ _ hsub hs h₁
  obtain rfl := Option.some.inj <|
    (ClassDefn.supersAt?_eq_some hclass hlen fun v hv => hs₁.declared v (hsub v hv)).symm.trans
      hsupers
  -- The position at which the constraint was found is the position of its
  -- dictionary among those of the superclasses.
  have hget : (cls.supersOf (sub.mapVars θ).args)[position]? = some (c.mapVars θ) := by
    obtain ⟨hlt, hc, -⟩ := List.findIdx?_eq_some_iff_getElem.1 hposition
    have := supersOf_mapVars hclass hlen θ
    rw [Constraint.mapVars, this, List.getElem?_map, List.getElem?_eq_getElem hlt, eq_of_beq hc]
    rfl
  refine ⟨hs₁.addsVars ((WitnessState.AddsVars.addVar ..).trans (.addVar ..)), fun σ hσ hw => ?_⟩
  simp only [WitnessState.size_addVar]
  refine (hb₁ σ hσ hw).append fun σ₁ _ hσ₁ hwhole => ?_
  obtain ⟨hw₁, x, hx, hwitness⟩ := hwhole
  obtain ⟨y, hy, hyc⟩ := hwitness.superclass hrt (by rwa [classId_mapVars]) hget
  refine Builds.imp (.slot (by simp [dictionaryAccessors]) hσ₁ hx hy) fun σ₂ hk₂ hvar => ?_
  exact ⟨hw₁.mono hk₂, y, hvar, hyc⟩

/-- A search for a dictionary finds one, however deep it goes: what it puts on
    record on the way is what it says. -/
theorem dictionaryWithin_resolves (hm : env.env.WellScoped) (hrt : ReadsSlots env.env rt)
    (depth : Nat) (pending : List Constraint) :
    Resolves env.env rt θ P (Synth.dictionaryWithin env context depth pending) := by
  induction depth generalizing pending with
  | zero =>
    intro c s s' v goals _ hs h
    rcases dictionaryWithin_cases h with ⟨hw, rfl, rfl⟩ | ⟨n, _, _, hn, -⟩
    · exact ⟨hs, fun σ hσ hr => .nil hσ ⟨hr, hr.dictionary c v hw⟩⟩
    · cases hn
  | succ n ih =>
    intro c s s' v goals hc hs h
    rcases dictionaryWithin_cases h with ⟨hw, rfl, rfl⟩ |
      ⟨_, proof, s₁, hn, -, -, hproof, rfl, hmade⟩
    · exact ⟨hs, fun σ hσ hr => .nil hσ ⟨hr, hr.dictionary c v hw⟩⟩
    · cases hn
      -- Either proof asks for further dictionaries with one level less to go.
      have hmade : s₁.Ready P ∧ BuildsFrom env.env rt θ s goals s₁ fun σ =>
          RecordsHold env.env rt θ σ s₁.witnesses ∧ HoldsWitness env.env θ σ c v := by
        rcases hmade with ⟨i, rfl, hmade⟩ | ⟨sub, rfl, hmade⟩
        · exact (ih (c :: pending)).ofInstance hm hc hs hmade
        · exact (ih (c :: pending)).ofSuperclass hm hrt (hs.proofs c sub hproof) hs hmade
      obtain ⟨hs₁, hb⟩ := hmade
      refine ⟨⟨hs₁.declared, hs₁.located, hs₁.proofs⟩, fun σ hσ hr => ?_⟩
      refine (hb σ hσ hr).imp fun σ' _ ⟨hr', hv⟩ => ⟨⟨fun d w hd => ?_, hr'.direct, hr'.slot⟩, hv⟩
      -- On record now are the new dictionary and what was on record before.
      have hd : (s₁.witnesses.dictionaries.insert c v).find? d = some w := hd
      rw [Assoc.find?_insert] at hd
      split at hd
      · next hdc =>
        cases hd
        exact hdc ▸ hv
      · exact hr'.dictionary d w hd

/-- Dictionary synthesis is correct: whatever the goals are that come with the
    dictionaries of constraints, and from whatever store that holds what is on
    record they are run, they run through and leave dictionaries of the
    constraints, in order, in the variables that come with them. Everything on
    record is where it says afterwards, and so it is once any such dictionary
    is put on record itself. -/
theorem dictionaries_hold_witnesses (hm : env.env.WellScoped) (hrt : ReadsSlots env.env rt)
    {cs : List Constraint} {vs : List ProgVar}
    (hcs : ∀ c ∈ cs, ∀ v ∈ c.occurrences, v.index < s.scope.size ∧ s.Located v)
    (hproofs : ∀ e ∈ s.proofs.entries, ∀ v ∈ e.1.occurrences ++ e.2.occurrences,
      v.index < s.scope.size ∧ s.Located v)
    (h : Synth.Returns (Synth.dictionaries env context cs) s (vs, goals) s')
    (hσ : σ.Below s.vars.size) (hw : RecordsHold env.env rt θ σ s.witnesses) :
    Builds rt goals σ s'.vars.size fun σ' =>
      List.Forall₂ (HoldsWitness env.env θ σ') cs vs ∧
      RecordsHold env.env rt θ σ' s'.witnesses ∧
      ∀ c v t t', HoldsWitness env.env θ σ' c v → RecordsHold env.env rt θ σ' t.witnesses →
        Synth.Returns (Synth.recordDictionary env c v) t () t' →
          RecordsHold env.env rt θ σ' t'.witnesses := by
  obtain ⟨depth, s₁, h₁, rfl⟩ := Synth.dictionaries_cases h
  have hs : s.Ready fun v => v.index < s.scope.size ∧ s.Located v :=
    ⟨fun v hv => hv.1, fun v hv => hv.2, fun c sub hc v hv =>
      hproofs _ (Assoc.mem_of_firstValue hc) v (List.mem_append_right _ hv)⟩
  obtain ⟨-, hb⟩ := (dictionaryWithin_resolves hm hrt depth []).collect hcs hs h₁
  refine (hb σ hσ hw).imp fun σ' hk ⟨hw', hvs⟩ => ⟨hvs, ?_, fun c v t t' hv ht hrec => ?_⟩
  · exact ⟨fun c v hc => (hw.dictionary c v hc).mono hk, hw'.direct, hw'.slot⟩
  · obtain ⟨cls, hcls, rfl⟩ := Synth.returns_recordDictionary.1 hrec
    exact ht.record hrt hcls hv

end

/-- A reader of slots as the run-time system has it. -/
def Module.readSlot (m : Module) : Accessors
  | _, .cell .dictionary (.cell (.baseDictionary _ cls n _) [] :: fields), .ofNat (i + 1) =>
    (m.instance? cls n).bind fun inst => fields[inst.constraints.length + i]?
  | _, _, _ => none

theorem readsSlots_readSlot (m : Module) : ReadsSlots m m.readSlot := by
  intro p _ owner cls n key inst fields i hinst
  show (m.instance? cls n).bind _ = _
  rw [hinst]
  rfl

theorem Module.WellScoped.of_entries {m : Module}
    (hc : ∀ e ∈ m.classes.entries, e.2.WellScoped ∧ e.2.params.length = e.1.arity)
    (hi : ∀ e ∈ m.instances.entries, ∀ inst ∈ e.2, inst.WellScoped) : m.WellScoped where
  classes id cls h := hc (id, cls) (mem_of_firstValue h)
  instances id n inst h := by
    cases hid : m.instances.find? id with
    | none => simp [instance?, hid] at h
    | some insts =>
      rw [instance?, hid] at h
      exact hi (id, insts) (mem_of_firstValue hid) inst (mem_of_getElem? h)

instance : Decidable cls.WellScoped :=
  decidable_of_iff (_ ∧ _) ⟨fun h => ⟨h.1, h.2⟩, fun h => ⟨h.1, h.2⟩⟩

instance : Decidable inst.WellScoped :=
  decidable_of_iff (_ ∧ _ ∧ _) ⟨fun h => ⟨h.1, h.2.1, h.2.2⟩, fun h => ⟨h.1, h.2, h.3⟩⟩

namespace OrderedLists

/-- A constraint of the class of types with an equality. -/
def eq (t : Ty) : Constraint := ⟨.unqualified "eq", [t]⟩

/-- A constraint of the class of types with an order, which have an
    equality. -/
def ord (t : Ty) : Constraint := ⟨.unqualified "ord", [t]⟩

def list (t : Ty) : Ty := .defined (.unqualified "list") [t]

/-- Lists have an equality if their members do; integers have an order. -/
def orders : Module where
  name := "order"
  classes := .ofList [
    ((eq .int).classId, ⟨[⟨0⟩], [], .ofNames ["T"]⟩),
    ((ord .int).classId, ⟨[⟨0⟩], [eq (.var ⟨0⟩)], .ofNames ["T"]⟩)]
  instances := .ofList [
    ((eq .int).classId, [
      ⟨.unqualified "order", [], [.int], .empty, ∅⟩,
      ⟨.unqualified "order", [eq (.var ⟨0⟩)], [list (.var ⟨0⟩)], .ofNames ["T"], ∅⟩]),
    ((ord .int).classId, [⟨.unqualified "order", [], [.int], .empty, ∅⟩])]

/-- The type variable has an order by the only variable, and lists of it have
    an equality by the instance. -/
def state : WitnessState where
  vars := ⟨#[⟨none, .dictionary⟩]⟩
  scope := .ofNames ["A"]
  witnesses := {
    typeInfos := .ofList [(⟨0⟩, .slot ⟨0⟩ 2)]
    dictionaries := .ofList [(ord (.var ⟨0⟩), ⟨0⟩)] }
  proofs := .ofList [(eq (list (.var ⟨0⟩)), .byInstance 1),
    (eq (.var ⟨0⟩), .bySuperclass (ord (.var ⟨0⟩)))]

theorem wellScoped_orders : orders.WellScoped :=
  .of_entries (by decide +kernel) (by decide +kernel)

/-- The dictionary of a constraint on integers, from those of its superclass
    constraints. -/
def intDictionary (c : Constraint) (supers : List Value) : Value :=
  .cell .dictionary
    (.cell (.baseDictionary (.unqualified "order") c.classId 0 (Ty.instanceKeys [.int])) [] ::
      supers ++ [.cell (.typeCtorInfo (.defined (.ofName builtinModule "int" 0))) []])

def intOrder : Value := intDictionary (ord .int) [intDictionary (eq .int) []]

theorem isWitness_intOrder : IsWitness orders (ord .int) intOrder := by
  have heq : IsWitness orders (eq .int) (intDictionary (eq .int) []) :=
    @IsWitness.mk orders (eq .int) _ 0 _ .var [] [] _ rfl rfl rfl .nil .nil rfl
  exact @IsWitness.mk orders (ord .int) _ 0 _ .var [] [_] _ rfl rfl rfl .nil (.cons heq .nil) rfl

/-- The dictionary of the order is all that there is. -/
def store : Store := fun v => if v = ⟨0⟩ then some intOrder else none

theorem recordsHold_store :
    RecordsHold orders orders.readSlot (fun _ => .int) store state.witnesses where
  dictionary c v h := by
    have := mem_entries_ofList (mem_of_firstValue h)
    obtain ⟨rfl, rfl⟩ : c = _ ∧ v = _ := by simpa using this
    exact ⟨intOrder, rfl, isWitness_intOrder⟩
  direct t v h := by
    have := mem_entries_ofList (mem_of_firstValue h)
    simp at this
  slot t v i h := by
    have := mem_entries_ofList (mem_of_firstValue h)
    obtain ⟨rfl, rfl, rfl⟩ : t = _ ∧ v = _ ∧ i = _ := by simpa using this
    exact ⟨intOrder, _, rfl, rfl, rfl⟩

/-- The dictionary of the equality of lists is built on the one that the order
    of their members holds. -/
theorem dictionaries_hold_witnesses_list :
    ∃ vs goals s', Synth.Returns (Synth.dictionaries ⟨orders, ""⟩ {} [eq (list (.var ⟨0⟩))]) state
        (vs, goals) s' ∧
      Builds orders.readSlot goals store s'.vars.size fun σ' =>
        List.Forall₂ (HoldsWitness orders (fun _ => .int) σ') [eq (list (.var ⟨0⟩))] vs := by
  obtain ⟨⟨⟨vs, goals⟩, s'⟩, h⟩ : ∃ r, (Synth.dictionaries ⟨orders, ""⟩ {}
      [eq (list (.var ⟨0⟩))]).run state = .ok r := exists_of_isOk (by decide +kernel)
  refine ⟨vs, goals, s', h, ?_⟩
  have hlocated : ∀ v : TypeVar, v = ⟨0⟩ → v.index < state.scope.size ∧ state.Located v := by
    rintro _ rfl
    exact ⟨by decide, _, rfl⟩
  have hbelow : store.Below state.vars.size := by
    intro v x hv
    by_cases hv' : v = ⟨0⟩
    · rw [hv']; decide
    · simp [store, hv'] at hv
  refine (dictionaries_hold_witnesses wellScoped_orders (readsSlots_readSlot orders) ?_ ?_ h hbelow
    recordsHold_store).imp fun _ _ h => h.1
  · intro c hc v hv
    obtain rfl := List.mem_singleton.1 hc
    exact hlocated v (List.mem_singleton.1 hv)
  · intro e he v hv
    have := Assoc.mem_entries_ofList he
    simp only [List.mem_cons, List.not_mem_nil, or_false] at this
    rcases this with rfl | rfl
    · have hv : v ∈ [⟨0⟩] := hv
      exact hlocated v (by simpa using hv)
    · have hv : v ∈ [⟨0⟩, ⟨0⟩] := hv
      exact hlocated v (by simpa using hv)

end OrderedLists

end Clausal
