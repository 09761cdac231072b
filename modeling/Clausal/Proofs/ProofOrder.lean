import Clausal.Proofs.Dictionaries
import Clausal.Proofs.Steady

/-!
# The order of proofs

Proof maps are listed in some order. Renumbering and instantiating one gives the same
map whichever order that is, exactly if constraints that become equal have proofs that
become equal (`ProofMap.Coherent`): otherwise the entry that is listed last replaces
the others. Dictionaries are then made alike whichever way the proofs of a predicate
and of the instances are listed (`Synth.dictionaries_steady_of_reordered`).
-/

namespace Clausal

open List WitnessState

/-! ### Maps made of lists -/

namespace Assoc

variable {κ ν : Type} {m m' : Assoc κ ν} {es es' : List (κ × ν)} {k : κ} {v : ν}

/-- Entries with the same key have the same value. -/
def Consistent (es : List (κ × ν)) : Prop := ∀ e ∈ es, ∀ e' ∈ es, e.1 = e'.1 → e.2 = e'.2

theorem Consistent.subset (h : Consistent es) (hsub : es' ⊆ es) : Consistent es' :=
  fun e he e' he' => h e (hsub he) e' (hsub he')

variable [DecidableEq κ]

theorem Consistent.firstValue_iff (h : Consistent es) :
    firstValue k es = some v ↔ (k, v) ∈ es := by
  refine ⟨mem_of_firstValue, fun hv => ?_⟩
  have hsome : (firstValue k es).isSome := firstValue_isSome.2 (mem_map.2 ⟨(k, v), hv, rfl⟩)
  obtain ⟨w, hw⟩ := Option.isSome_iff_exists.1 hsome
  rw [hw]
  exact congrArg some (h (k, w) (mem_of_firstValue hw) (k, v) hv rfl)

/-- The maps have the same entries, one for each key. -/
structure SameAs (m m' : Assoc κ ν) : Prop where
  consistent : Consistent m.entries
  subset : m.entries ⊆ m'.entries
  supset : m'.entries ⊆ m.entries

omit [DecidableEq κ] in
theorem SameAs.symm (h : m.SameAs m') : m'.SameAs m :=
  ⟨h.consistent.subset h.supset, h.supset, h.subset⟩

theorem SameAs.find?_eq (h : m.SameAs m') : m'.find? = m.find? := by
  funext k
  refine Option.ext fun v => ?_
  rw [find?, find?, (h.consistent.subset h.supset).firstValue_iff, h.consistent.firstValue_iff]
  exact ⟨fun hv => h.supset hv, fun hv => h.subset hv⟩

theorem Consistent.mem_ofList (h : Consistent es) {e : κ × ν} :
    e ∈ (ofList es).entries ↔ e ∈ es := by
  refine ⟨mem_entries_ofList, fun he => mem_of_firstValue (v := e.2) (k := e.1) ?_⟩
  have hfind := find?_ofList es e.1
  rw [(h.subset (reverse_subset.2 (Subset.refl es))).firstValue_iff.2 (mem_reverse.2 he)] at hfind
  exact hfind

theorem Consistent.ofList (h : Consistent es) (hsub : es ⊆ es') (hsup : es' ⊆ es) :
    (ofList es).SameAs (.ofList es') where
  consistent := h.subset fun _ => h.mem_ofList.1
  subset _ he := (h.subset hsup).mem_ofList.2 (hsub (h.mem_ofList.1 he))
  supset _ he := h.mem_ofList.2 (hsup ((h.subset hsup).mem_ofList.1 he))

/-- Any entry of a list can be made to replace the others with its key. -/
theorem exists_perm_find? {e : κ × ν} (he : e ∈ es) :
    ∃ es', es'.Perm es ∧ (Assoc.ofList es').find? e.1 = some e.2 := by
  obtain ⟨pre, post, rfl⟩ := append_of_mem he
  refine ⟨pre ++ post ++ [e], ?_, ?_⟩
  · rw [append_assoc]
    exact (perm_append_singleton e post).append_left pre
  · simp [find?_ofList, firstValue]

end Assoc

/-! ### Proof maps -/

namespace ProofMap

variable {m m' : ProofMap}
  {f : Constraint × ConstraintProof → Option (Constraint × ConstraintProof)}

/-- Two listings of one map: the same entries, with different keys. -/
structure Reorders (m m' : ProofMap) : Prop where
  perm : m.entries.Perm m'.entries
  keys : (m.entries.map Prod.fst).Nodup

theorem Reorders.sameAs (h : m.Reorders m') : m.SameAs m' :=
  ⟨fun _ he _ he' hkey => congrArg Prod.snd (inj_on_of_nodup_map h.keys he he' hkey),
    h.perm.subset, h.perm.symm.subset⟩

theorem Reorders.symm (h : m.Reorders m') : m'.Reorders m :=
  ⟨h.perm.symm, (h.perm.map Prod.fst).nodup_iff.1 h.keys⟩

/-- The map with its entries changed. -/
def mapEntries? (f : Constraint × ConstraintProof → Option (Constraint × ConstraintProof))
    (m : ProofMap) : Option ProofMap :=
  (m.toList.mapM f).map Assoc.ofList

def shiftEntry (r : Shift) (e : Constraint × ConstraintProof) :
    Option (Constraint × ConstraintProof) :=
  some (e.1.shift r, e.2.shift r)

def substEntry (θ : Subst) (e : Constraint × ConstraintProof) :
    Option (Constraint × ConstraintProof) := do
  return (← e.1.subst? θ, ← e.2.subst? θ)

theorem mapEntries?_shiftEntry (r : Shift) (m : ProofMap) :
    m.mapEntries? (shiftEntry r) = some (m.shift r) :=
  congrArg (Option.map Assoc.ofList) (mapM_eq_some_map fun _ _ => rfl)

theorem mapEntries?_substEntry (θ : Subst) (m : ProofMap) :
    m.mapEntries? (substEntry θ) = m.subst? θ :=
  Option.map_eq_bind ..

/-- Entries that come to have the same key come to have the same proof. -/
def Coherent (f : Constraint × ConstraintProof → Option (Constraint × ConstraintProof))
    (m : ProofMap) : Prop :=
  ∀ es, m.toList.mapM f = some es → Assoc.Consistent es

theorem mapM_subset {α β : Type} {f : α → Option β} {as : List α} {bs : List β}
    (h : as.mapM f = some bs) (as' : List α) (hsub : as' ⊆ as) :
    ∃ bs', as'.mapM f = some bs' ∧ bs' ⊆ bs := by
  induction as' with
  | nil => exact ⟨[], rfl, nil_subset _⟩
  | cons a as' ih =>
    obtain ⟨ha, hsub⟩ := cons_subset.1 hsub
    obtain ⟨bs', hbs', hbs⟩ := ih hsub
    obtain ⟨b, hb, hab⟩ := exists_of_forall₂ (mapM_eq_some_iff.1 h).flip ha
    exact ⟨b :: bs', by simp [mapM_cons, hab, hbs'], cons_subset.2 ⟨hb, hbs⟩⟩

theorem mapM_sameAs (hm : m.SameAs m') {es : List (Constraint × ConstraintProof)}
    (h : m.toList.mapM f = some es) : ∃ es', m'.toList.mapM f = some es' ∧ es ⊆ es' ∧ es' ⊆ es := by
  obtain ⟨es', hes', hsup⟩ := mapM_subset h m'.toList fun e he =>
    mem_reverse.2 (hm.supset (mem_reverse.1 he))
  obtain ⟨es₁, hes₁, hsub⟩ := mapM_subset hes' m.toList fun e he =>
    mem_reverse.2 (hm.subset (mem_reverse.1 he))
  obtain rfl := Option.some.inj (hes₁.symm.trans h)
  exact ⟨es', hes', hsub, hsup⟩

/-- A coherent map is changed alike whichever way it is listed. -/
theorem Coherent.sameAs (h : m.Coherent f) (hm : m.SameAs m') {p : ProofMap}
    (hp : m.mapEntries? f = some p) : ∃ p', m'.mapEntries? f = some p' ∧ p.SameAs p' := by
  obtain ⟨es, hes, rfl⟩ := Option.map_eq_some_iff.1 hp
  obtain ⟨es', hes', hsub, hsup⟩ := mapM_sameAs hm hes
  exact ⟨_, Option.map_eq_some_iff.2 ⟨es', hes', rfl⟩, (h es hes).ofList hsub hsup⟩

theorem Coherent.of_sameAs (h : m.Coherent f) (hm : m.SameAs m') : m'.Coherent f := by
  intro es' hes'
  obtain ⟨es, hes, hsub, -⟩ := mapM_sameAs hm.symm hes'
  exact (h es hes).subset hsub

/-- A map with different keys is changed alike whichever way it is listed, exactly if
    it is coherent. -/
theorem coherent_iff (hkeys : (m.entries.map Prod.fst).Nodup) :
    m.Coherent f ↔ ∀ m', m.Reorders m' →
      (m'.mapEntries? f).map Assoc.find? = (m.mapEntries? f).map Assoc.find? := by
  constructor
  · intro h m' hm
    cases hp : m.mapEntries? f with
    | some p =>
      obtain ⟨p', hp', hsame⟩ := h.sameAs hm.sameAs hp
      rw [hp', Option.map_some, Option.map_some, hsame.find?_eq]
    | none =>
      cases hp' : m'.mapEntries? f with
      | none => rfl
      | some p' =>
        obtain ⟨p, hp₁, -⟩ := (h.of_sameAs hm.sameAs).sameAs hm.symm.sameAs hp'
        cases hp.symm.trans hp₁
  · intro h es hes e he e' he' hkey
    -- Either entry can be made the last one.
    have hlast : ∀ {d}, d ∈ es → (Assoc.ofList es).find? d.1 = some d.2 := fun {d} hd => by
      obtain ⟨es', hperm, hfind⟩ := Assoc.exists_perm_find? hd
      obtain ⟨as, has, hperm'⟩ := perm_comp_forall₂ hperm (mapM_eq_some_iff.1 hes).flip
      have heq := h ⟨as.reverse⟩
        ⟨((reverse_perm as).trans (hperm'.trans (reverse_perm _))).symm, hkeys⟩
      rw [mapEntries?, mapEntries?, hes, Assoc.toList, reverse_reverse,
        mapM_eq_some_iff.2 has.flip] at heq
      rw [← Option.some.inj heq, hfind]
    exact Option.some.inj ((hlast he).symm.trans (hkey ▸ hlast he'))

end ProofMap

/-! ### Dictionaries -/

/-- The states are the same but for the listing of their proofs. -/
def WitnessState.SameProofs (s t : WitnessState) : Prop :=
  ∃ q : ProofMap, q.find? = s.proofs.find? ∧ t = { s with proofs := q }

instance : Similarity SameProofs fun _ => True where
  vars h := by obtain ⟨_, -, rfl⟩ := h; rfl
  witnesses h := by obtain ⟨_, -, rfl⟩ := h; rfl
  varName h _ := by obtain ⟨_, -, rfl⟩ := h; rfl
  setWitnesses w h := by obtain ⟨q, hq, rfl⟩ := h; exact ⟨q, hq, rfl⟩
  addVar name h _ := by obtain ⟨q, hq, rfl⟩ := h; exact ⟨q, hq, rfl⟩

theorem WitnessState.SameProofs.addProofs {s t : WitnessState} (h : s.SameProofs t)
    {p p' : ProofMap} (hp : p.SameAs p') : (s.addProofs p).SameProofs (t.addProofs p') := by
  obtain ⟨q, hq, rfl⟩ := h
  refine ⟨q.shadowMany p'.toList, funext fun c => ?_, rfl⟩
  have hfind := congrFun hp.find?_eq c
  rw [Assoc.find?, Assoc.find?] at hfind
  rw [WitnessState.addProofs, Assoc.find?_shadowMany, Assoc.find?_shadowMany, hq, Assoc.toList,
    Assoc.toList, reverse_reverse, reverse_reverse, hfind]

namespace InstanceDefn

/-- However an instance is renumbered and matched with types, its proofs stay coherent. -/
def Coherent (inst : InstanceDefn) : Prop :=
  ∀ (scope : TypeScope) (args : List Ty) (θ : Subst),
    Subst.ofMatch (inst.types.map (·.shift (scope.shiftOf inst.scope))) args = .ok θ →
      inst.proofs.Coherent (ProofMap.shiftEntry (scope.shiftOf inst.scope)) ∧
      (inst.proofs.shift (scope.shiftOf inst.scope)).Coherent (ProofMap.substEntry θ)

/-- The instance with its proofs listed in another way. -/
def Reorders (inst inst' : InstanceDefn) : Prop :=
  inst.proofs.Reorders inst'.proofs ∧ inst' = { inst with proofs := inst'.proofs }

variable {inst inst' : InstanceDefn} {scope : TypeScope} {args : List Ty} {θ : Subst}

theorem Coherent.proofs_sameAs (h : inst.Coherent) (hinst : inst.Reorders inst')
    (hmatch : Subst.ofMatch (inst.types.map (·.shift (scope.shiftOf inst.scope))) args = .ok θ)
    {p : ProofMap} (hp : (inst.proofs.shift (scope.shiftOf inst.scope)).subst? θ = some p) :
    ∃ p', (inst'.proofs.shift (scope.shiftOf inst.scope)).subst? θ = some p' ∧ p.SameAs p' := by
  obtain ⟨hshift, hsubst⟩ := h scope args θ hmatch
  obtain ⟨q, hq, hsame⟩ := hshift.sameAs hinst.1.sameAs (ProofMap.mapEntries?_shiftEntry _ _)
  obtain rfl := Option.some.inj ((ProofMap.mapEntries?_shiftEntry _ _).symm.trans hq)
  rw [← ProofMap.mapEntries?_substEntry] at hp ⊢
  exact hsubst.sameAs hsame hp

theorem Reorders.symm (h : inst.Reorders inst') : inst'.Reorders inst :=
  ⟨h.1.symm, by rw [h.2]⟩

theorem Coherent.of_reorders (h : inst.Coherent) (hinst : inst.Reorders inst') :
    inst'.Coherent := by
  rw [hinst.2]
  intro scope args θ hmatch
  obtain ⟨hshift, hsubst⟩ := h scope args θ hmatch
  obtain ⟨q, hq, hsame⟩ := hshift.sameAs hinst.1.sameAs (ProofMap.mapEntries?_shiftEntry _ _)
  obtain rfl := Option.some.inj ((ProofMap.mapEntries?_shiftEntry _ _).symm.trans hq)
  exact ⟨hshift.of_sameAs hinst.1.sameAs, hsubst.of_sameAs hsame⟩

end InstanceDefn

/-- The module with the proofs of its instances listed in other ways. -/
structure Module.Reorders (m m' : Module) : Prop where
  instances : Forall₂ (fun e e' => e'.1 = e.1 ∧ Forall₂ InstanceDefn.Reorders e.2 e'.2)
    m.instances.entries m'.instances.entries
  rest : m' = { m with instances := m'.instances }

namespace Module

variable {m m' : Module}

/-- The instances of a class. -/
def instancesOf (m : Module) (cls : ClassId) : List InstanceDefn :=
  (m.instances.find? cls).getD []

theorem Reorders.instancesOf (h : m.Reorders m') (cls : ClassId) :
    Forall₂ InstanceDefn.Reorders (m.instancesOf cls) (m'.instancesOf cls) := by
  have hall : ∀ {es es'}, Forall₂ (fun (e e' : ClassId × List InstanceDefn) =>
      e'.1 = e.1 ∧ Forall₂ InstanceDefn.Reorders e.2 e'.2) es es' →
      Forall₂ InstanceDefn.Reorders ((Assoc.firstValue cls es).getD [])
        ((Assoc.firstValue cls es').getD []) := by
    intro es es' h
    induction h with
    | nil => exact .nil
    | cons he _ ih =>
      rw [Assoc.firstValue, Assoc.firstValue, he.1]
      split
      · exact he.2
      · exact ih
  exact hall h.instances

theorem Reorders.symm (h : m.Reorders m') : m'.Reorders m :=
  ⟨h.instances.flip.imp fun _ _ he =>
    ⟨he.1.symm, he.2.flip.imp fun _ _ => InstanceDefn.Reorders.symm⟩, by rw [h.rest]⟩

theorem Reorders.instanceProofCount_eq (h : m.Reorders m') :
    Synth.instanceProofCount m' = Synth.instanceProofCount m := by
  have hvalues : Forall₂ (Forall₂ InstanceDefn.Reorders) m.instances.values m'.instances.values :=
    forall₂_map_left_iff.2 (forall₂_map_right_iff.2
      ((rel_reverse h.instances).imp fun _ _ => And.right))
  exact (rel_foldl (P := Eq) (fun _ _ hn _ _ hinst => by rw [hn, hinst.1.perm.length_eq]) rfl
    (rel_flatten hvalues)).symm

end Module

namespace Synth

variable {e e' : WitnessEnv} {context : Context} {c : Constraint}
  {resolve resolve' : Constraint → Synth (ProgVar × List Goal)}

theorem renameApart_sameProofs {β : Type} {other : TypeScope} {f f' : Shift → Synth β}
    (hf : ∀ scope : TypeScope, Steady SameProofs (f (scope.shiftOf other))
      (f' (scope.shiftOf other))) :
    Steady SameProofs (renameApart other >>= f) (renameApart other >>= f') :=
  .bind_of fun {s t r _} hR h => by
    obtain ⟨rfl, rfl⟩ := returns_renameApart.1 h
    obtain ⟨q, hq, rfl⟩ := hR
    exact ⟨_, _, ⟨q, hq, rfl⟩, returns_renameApart.2 ⟨rfl, rfl⟩, hf s.scope⟩

section

variable (he : e.env.Reorders e'.env)

include he

theorem findClass_sameProofs (cls : ClassId) :
    Steady SameProofs (findClass e cls) (findClass e' cls) := by
  have hclasses : e'.env.classes = e.env.classes := by rw [he.rest]
  rw [findClass, findClass, hclasses]
  split
  · exact .pure _
  · exact .breach

theorem instanceDictionary_sameProofs
    (hcoherent : ∀ cls, ∀ inst ∈ e.env.instancesOf cls, inst.Coherent)
    (hr : ∀ b, Steady SameProofs (resolve b) (resolve' b)) (c : Constraint) (n : Nat) :
    Steady SameProofs (instanceDictionary e context resolve c n)
      (instanceDictionary e' context resolve' c n) := by
  have hrel := forall₂_getElem? (he.instancesOf c.classId) n
  generalize hi' : (e'.env.instancesOf c.classId)[n]? = found at hrel
  cases hi : (e.env.instancesOf c.classId)[n]? with
  | none =>
    rw [instanceDictionary, ← Module.instancesOf, hi]
    exact .breach
  | some inst =>
    rw [hi] at hrel
    cases hrel with
    | some hinst =>
    next inst' =>
    rw [instanceDictionary, instanceDictionary, ← Module.instancesOf, hi, ← Module.instancesOf, hi',
      hinst.2]
    refine (findClass_sameProofs he _).bind fun cls => renameApart_sameProofs fun scope => ?_
    cases hmatch : Subst.ofMatch (inst.types.map (·.shift (scope.shiftOf inst.scope))) c.args with
    | error err => exact .never fun s a s₁ h => by simp at h
    | ok subst =>
      simp only [pure_bind]
      refine .bind_of fun {_ t p _} hR h => ?_
      obtain ⟨hp, rfl⟩ := returns_ofOption.1 h
      obtain ⟨p', hp', hsame⟩ :=
        (hcoherent c.classId inst (mem_of_getElem? hi)).proofs_sameAs hinst hmatch hp
      refine ⟨p', t, hR, returns_ofOption.2 ⟨hp', rfl⟩, ?_⟩
      refine Steady.bind (.modify fun s t hR => hR.addProofs hsame) fun _ =>
        .ofOption_bind fun cs _ => ?_
      refine (Steady.collect fun b _ => hr b).bind fun _ => .ofGet fun s t hR => ?_
      obtain ⟨q, hq, rfl⟩ := hR
      refine .ofOption_bind fun supers _ => (Steady.collect fun b _ => hr b).bind fun _ => ?_
      exact (typeInfos_steady fun _ _ => trivial).bind fun _ =>
        (newGround_steady _ rfl).bind fun _ => (newDictionary_steady _).bind fun _ => .pure _

theorem superclassDictionary_sameProofs {sub : Constraint}
    (hr : Steady SameProofs (resolve sub) (resolve' sub)) :
    Steady SameProofs (superclassDictionary e context resolve c sub)
      (superclassDictionary e' context resolve' c sub) := by
  refine hr.bind fun _ => (findClass_sameProofs he _).bind fun cls => .ofGet fun s t hR => ?_
  obtain ⟨q, hq, rfl⟩ := hR
  refine .ofOption_bind fun supers _ => ?_
  split
  · exact (takeSlot_steady _ _ _ _ (newDictionary_steady _)).bind fun _ => .pure _
  · exact .breach

theorem dictionariesWithin_sameProofs
    (hcoherent : ∀ cls, ∀ inst ∈ e.env.instancesOf cls, inst.Coherent) (depth : Nat)
    (cs : List Constraint) :
    Steady SameProofs (dictionariesWithin e depth context cs)
      (dictionariesWithin e' depth context cs) := by
  have hsearch : ∀ c, Steady SameProofs (dictionaryWithin e context depth [] c)
      (dictionaryWithin e' context depth [] c) := fun c => by
    refine search_steady (P := fun _ => True) (fun h => ?_) (fun _ _ => trivial)
      (fun hr _ _ n => instanceDictionary_sameProofs he hcoherent (fun b => hr b trivial) _ n)
      (fun hr _ => superclassDictionary_sameProofs he hr) depth [] trivial
    obtain ⟨q, hq, rfl⟩ := h
    exact hq
  refine .ofGet fun before t hbefore => (Steady.collect fun c _ => hsearch c).bind fun _ =>
    Steady.bind (.modify fun s t hR => ?_) fun _ => .pure _
  obtain ⟨q, hq, rfl⟩ := hbefore
  obtain ⟨q', -, rfl⟩ := hR
  exact ⟨q, hq, rfl⟩

end

theorem dictionaries_sameProofs (he : e.env.Reorders e'.env)
    (hcoherent : ∀ cls, ∀ inst ∈ e.env.instancesOf cls, inst.Coherent) {s t s' : WitnessState}
    {cs : List Constraint} {r : List ProgVar × List Goal} (hproofs : s.proofs.Reorders t.proofs)
    (hs : t = { s with proofs := t.proofs }) (h : Returns (dictionaries e context cs) s r s') :
    ∃ t', Returns (dictionaries e' context cs) t r t' := by
  simp only [dictionaries, returns_bind, returns_get] at h ⊢
  obtain ⟨_, _, ⟨rfl, rfl⟩, h⟩ := h
  obtain ⟨t', -, h'⟩ := dictionariesWithin_sameProofs he hcoherent _ cs
    ⟨_, hproofs.sameAs.find?_eq, hs⟩ h
  refine ⟨t', t, t, ⟨rfl, rfl⟩, ?_⟩
  rwa [he.instanceProofCount_eq, ← hproofs.perm.length_eq]

end Synth

/-- Listing the entries of a proof map in another order, the map that renumbering or
    instantiating gives is the same exactly if constraints that become equal have
    proofs that become equal. If the proofs of instances stay so, dictionaries are
    made alike whichever way proofs are listed. -/
theorem synthesis_ignores_proof_order :
    (∀ m : ProofMap, (m.entries.map Prod.fst).Nodup →
      (∀ r, (∀ m', m.Reorders m' → (m'.shift r).find? = (m.shift r).find?) ↔
        m.Coherent (ProofMap.shiftEntry r)) ∧
      ∀ θ, (∀ m', m.Reorders m' → (m'.subst? θ).map Assoc.find? = (m.subst? θ).map Assoc.find?) ↔
        m.Coherent (ProofMap.substEntry θ)) ∧
    ∀ (e e' : WitnessEnv) (s t : WitnessState), e.env.Reorders e'.env →
      (∀ cls, ∀ inst ∈ e.env.instancesOf cls, inst.Coherent) →
      s.proofs.Reorders t.proofs → t = { s with proofs := t.proofs } →
      ∀ context cs result,
        (∃ s', (Synth.dictionaries e context cs).Returns s result s') ↔
          ∃ t', (Synth.dictionaries e' context cs).Returns t result t' := by
  refine ⟨fun m hkeys => ⟨fun r => ?_, fun θ => ?_⟩, fun e e' s t he hcoherent hproofs hs context cs
    result => ⟨?_, ?_⟩⟩
  · simp only [ProofMap.coherent_iff hkeys, ProofMap.mapEntries?_shiftEntry, Option.map_some,
      Option.some.injEq]
  · simp only [ProofMap.coherent_iff hkeys, ProofMap.mapEntries?_substEntry]
  · rintro ⟨s', h⟩
    exact Synth.dictionaries_sameProofs he hcoherent hproofs hs h
  · rintro ⟨t', h⟩
    refine Synth.dictionaries_sameProofs he.symm (fun cls inst' hinst' => ?_) hproofs.symm
      (by rw [hs]) h
    obtain ⟨inst, hinst, hreorders⟩ := exists_of_forall₂ (he.instancesOf cls) hinst'
    exact (hcoherent cls inst hinst).of_reorders hreorders

namespace OrderedLists

/-- The state with its proofs listed the other way. -/
def turned : WitnessState := { state with proofs := ⟨state.proofs.entries.reverse⟩ }

theorem no_instance_proofs : ∀ e ∈ orders.instances.entries, ∀ inst ∈ e.2, inst.proofs = ∅ := by
  decide +kernel

/-- It makes the same dictionaries. -/
theorem turned_makes_same :
    ∃ result, ∀ s ∈ [state, turned], ∃ s',
      (Synth.dictionaries ⟨orders, ""⟩ {} [eq (list (.var ⟨0⟩))]).Returns s result s' := by
  obtain ⟨⟨result, s'⟩, h⟩ : ∃ r, (Synth.dictionaries ⟨orders, ""⟩ {}
      [eq (list (.var ⟨0⟩))]).run state = .ok r := exists_of_isOk (by decide +kernel)
  have hturned := synthesis_ignores_proof_order.2 ⟨orders, ""⟩ ⟨orders, ""⟩ state turned
    ⟨forall₂_same.2 fun e he => ⟨rfl, forall₂_same.2 fun inst hinst => ⟨?_, rfl⟩⟩, rfl⟩
    (fun cls inst hinst => ?_) ⟨(reverse_perm _).symm, by decide +kernel⟩ rfl {}
    [eq (list (.var ⟨0⟩))] result
  · exact ⟨result, forall_mem_cons.2 ⟨⟨s', h⟩, forall_mem_singleton.2 (hturned.1 ⟨s', h⟩)⟩⟩
  · rw [no_instance_proofs e he inst hinst]
    exact ⟨.nil, .nil⟩
  · have hempty : inst.proofs = ∅ := by
      unfold Module.instancesOf at hinst
      cases hfind : orders.instances.find? cls with
      | none =>
        rw [hfind] at hinst
        cases hinst
      | some insts =>
        rw [hfind] at hinst
        exact no_instance_proofs _ (Assoc.mem_of_firstValue hfind) inst hinst
    have hnone : ∀ f, ProofMap.Coherent f ∅ := fun f es hes => by
      cases hes
      simp [Assoc.Consistent]
    intro scope args θ _
    rw [hempty]
    exact ⟨hnone _, hnone _⟩

/-- If two type variables come to stand for one type, the proof that is listed last
    replaces the other. -/
theorem merged_proofs_follow_order :
    let first : Constraint × ConstraintProof := (eq (.var ⟨0⟩), .byInstance 0)
    let second : Constraint × ConstraintProof := (eq (.var ⟨1⟩), .byInstance 1)
    let θ : Subst := .ofList [(⟨0⟩, .int), (⟨1⟩, .int)]
    ProofMap.Reorders ⟨[first, second]⟩ ⟨[second, first]⟩ ∧
      ((ProofMap.subst? θ ⟨[first, second]⟩).bind (·.find? (eq .int))) = some (.byInstance 0) ∧
      ((ProofMap.subst? θ ⟨[second, first]⟩).bind (·.find? (eq .int))) = some (.byInstance 1) := by
  refine ⟨⟨.swap .., by decide⟩, by decide +kernel, by decide +kernel⟩

end OrderedLists

end Clausal
