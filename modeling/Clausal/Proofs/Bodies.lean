import Clausal.Proofs.Setup
import Clausal.Proofs.Subgoals

/-!
# What becomes of goals

The goals that need witnesses get them in one of a few ways, whatever it is
that they do: witnesses are made for what they take, new variables are added
for what they bind, and what they bind goes on record. For each kind of goal
there is what it becomes (`callGoal_cases` and its kin).
-/

namespace Clausal

open List VarTable WitnessState

variable {lhs v : ProgVar} {u u' : PUnit} {args vs : List ProgVar} {callee : Predicate}
  {info : GoalInfo} {name : SymName} {g g' : Goal} {kind : Unification} {head : LambdaHead}
  {vars : VarSet} {gs : List Goal} {c : Constraint} {r : List Goal × VarSet}

/-! ### New variables -/

/-- Variables are added, and nothing is taken back. -/
structure WitnessState.Advances (s s' : WitnessState) : Prop extends Grows s s', Keeps s s'

/-- The variables are added to the state, all of one type. -/
structure WitnessState.Adds (s : WitnessState) (type : Ty) (vs : List ProgVar)
    (s' : WitnessState) : Prop where
  grows : s.Grows s'
  witnesses : s'.witnesses = s.witnesses
  scope : s'.scope = s.scope
  new : ∀ v ∈ vs, s.vars.size ≤ v.index ∧ s'.vars.type v = .ok type

/-- The variables go on record, as dictionaries or as type-infos. -/
structure WitnessState.Records (s : WitnessState) (dicts infos : List ProgVar)
    (s' : WitnessState) : Prop where
  vars : s'.vars = s.vars
  heads : s'.headWitnesses = s.headWitnesses
  keeps : s.Keeps s'
  records : ∀ Q, (∀ v ∈ dicts, Q .dictionary v) → (∀ v ∈ infos, Q .typeInfo v) →
    s.witnesses.All Q → s'.witnesses.All Q

section

variable {α : Type} {s s₁ s' : WitnessState} {env : WitnessEnv} {context : Context}
  {dicts dicts' infos infos' : List ProgVar}

theorem WitnessState.Advances.refl (s : WitnessState) : s.Advances s := ⟨.refl s, .refl s⟩

theorem WitnessState.Advances.trans (h : s.Advances s₁) (h' : s₁.Advances s') : s.Advances s' :=
  ⟨h.toGrows.trans h'.toGrows, h.toKeeps.trans h'.toKeeps⟩

/-- What steps do that add variables. -/
structure WitnessState.Growing (R : WitnessState → WitnessState → Prop) : Prop where
  refl : ∀ s, R s s
  trans : ∀ {s s₁ s'}, R s s₁ → R s₁ s' → R s s'
  vars : ∀ {s s'}, R s s' → s.vars.Extends s'.vars

theorem WitnessState.Grows.growing : Growing Grows := ⟨.refl, .trans, (·.vars)⟩

theorem WitnessState.Advances.growing : Growing Advances := ⟨.refl, .trans, (·.vars)⟩

theorem WitnessState.Records.refl (s : WitnessState) (dicts infos : List ProgVar) :
    s.Records dicts infos s :=
  ⟨rfl, rfl, .refl s, fun _ _ _ h => h⟩

theorem WitnessState.Records.trans (h : s.Records dicts infos s₁)
    (h' : s₁.Records dicts infos s') : s.Records dicts infos s' :=
  ⟨h'.vars.trans h.vars, h'.heads.trans h.heads, h.keeps.trans h'.keeps,
    fun Q hd hi hQ => h'.records Q hd hi (h.records Q hd hi hQ)⟩

theorem WitnessState.Records.mono (h : s.Records dicts infos s')
    (hd : ∀ v ∈ dicts, v ∈ dicts') (hi : ∀ v ∈ infos, v ∈ infos') : s.Records dicts' infos' s' :=
  ⟨h.vars, h.heads, h.keeps, fun Q hd' hi' hQ =>
    h.records Q (fun v hv => hd' v (hd v hv)) (fun v hv => hi' v (hi v hv)) hQ⟩

/-- New variables that go on record are what growing allows. -/
theorem WitnessState.Records.grows (h : s₁.Records dicts infos s') (hs : s.Grows s₁)
    (hd : ∀ v ∈ dicts, s.vars.size ≤ v.index ∧ s₁.vars.type v = .ok .dictionary)
    (hi : ∀ v ∈ infos, s.vars.size ≤ v.index ∧ s₁.vars.type v = .ok .typeInfo) : s.Grows s' where
  vars := h.vars ▸ hs.vars
  records Q hQ hnew := by
    have hnew : s.NewIn s₁ Q := fun type v hv ht => hnew type v hv (h.vars ▸ ht)
    exact h.records Q (fun v hv => hnew _ v (hd v hv).1 (hd v hv).2)
      (fun v hv => hnew _ v (hi v hv).1 (hi v hv).2) (hs.records Q hQ hnew)
  heads := h.heads ▸ hs.heads
  blank hb := hs.blank (h.keeps.blank hb)

theorem WitnessState.Records.leaves (h : s₁.Records dicts infos s') {bound : List ProgVar}
    (hs : s.LeavesAll bound s₁) (hnew : ∀ v ∈ dicts ++ infos, s.vars.size ≤ v.index ∧
      v.index < s₁.vars.size ∧ v ∉ bound) : s.LeavesAll bound s' where
  new := by
    rw [h.vars]
    exact hs.new
  nodup := hs.nodup
  records X hX hfresh := by
    rw [h.vars] at hfresh
    have hrecorded : ∀ v ∈ dicts ++ infos, X v := fun v hv =>
      hfresh v (hnew v hv).1 (hnew v hv).2.1 (hnew v hv).2.2
    rw [forall_mem_append] at hrecorded
    exact h.records (fun _ => X) hrecorded.1 hrecorded.2 (hs.records X hX hfresh)

namespace WitnessMap

variable {w : WitnessMap} {Q : Ty → ProgVar → Prop}

theorem InfosIn.insertIfNew {v : TypeVar} {source : TypeInfoSource} (h : w.InfosIn Q)
    (hQ : Q source.type source.var) :
    WitnessMap.InfosIn { w with typeInfos := w.typeInfos.insertIfNew v source } Q := by
  intro t src ht
  rcases Assoc.of_find?_insertIfNew ht with ht | ⟨-, rfl⟩
  · exact h t src ht
  · exact hQ

theorem record_spec (w : WitnessMap) (supers : Nat) (c : Constraint) (v : ProgVar) :
    (∀ t source, w.typeInfos.find? t = some source →
      (w.record supers c v).typeInfos.find? t = some source) ∧
    (∀ d u, w.dictionaries.find? d = some u →
      (w.record supers c v).dictionaries.find? d = some u) ∧
    ∀ Q : Ty → ProgVar → Prop, Q .dictionary v → w.All Q → (w.record supers c v).All Q := by
  refine record_induction (P := fun w' =>
    (∀ t source, w.typeInfos.find? t = some source → w'.typeInfos.find? t = some source) ∧
    (∀ d u, w.dictionaries.find? d = some u → w'.dictionaries.find? d = some u) ∧
    ∀ Q : Ty → ProgVar → Prop, Q .dictionary v → w.All Q → w'.All Q) ?_ ?_
  · refine ⟨fun _ _ h => h, fun d u hdu => Assoc.find?_insertIfNew_of_some hdu, fun Q hv h => ?_⟩
    refine ⟨h.1, fun d u hdu => ?_⟩
    rcases Assoc.of_find?_insertIfNew hdu with hdu | ⟨-, rfl⟩
    · exact h.2 d u hdu
    · exact hv
  · -- What goes on record further is a slot of the same dictionary.
    rintro w' i t ⟨hinfos, hdicts, hall⟩ -
    refine ⟨fun t source ht => Assoc.find?_insertIfNew_of_some (hinfos t source ht), hdicts,
      fun Q hv h => ?_⟩
    obtain ⟨hi, hd⟩ := hall Q hv h
    exact ⟨hi.insertIfNew hv, hd⟩

end WitnessMap

namespace Synth

theorem recordDictionary_records {u : Unit} (h : Returns (recordDictionary env c v) s u s') :
    s.Records [v] [] s' := by
  obtain ⟨cls, -, rfl⟩ := returns_recordDictionary.1 h
  obtain ⟨hi, hd, hq⟩ := s.witnesses.record_spec cls.supers.length c v
  exact ⟨rfl, rfl, ⟨.refl _, hi, hd⟩, fun Q hv _ hQ => hq Q (hv v (by simp)) hQ⟩

theorem addTypeInfo_records {t : TypeVar} {u : Unit}
    (h : Returns (addTypeInfo t (.direct v)) s u s') : s.Records [] [v] s' := by
  obtain rfl := returns_addTypeInfo.1 h
  exact ⟨rfl, rfl, ⟨.refl _, fun t source ht => Assoc.find?_insertIfNew_of_some ht, fun _ _ h => h⟩,
    fun Q _ hv hQ => ⟨hQ.1.insertIfNew (hv v (by simp)), hQ.2⟩⟩

theorem forIn_records {as : List α} {f : α → PUnit → Synth (ForInStep PUnit)}
    (hf : ∀ a ∈ as, ∀ u s r s', Returns (f a u) s r s' →
      (∃ u', r = .yield u') ∧ s.Records dicts infos s') (h : Returns (forIn as u f) s u' s') :
    s.Records dicts infos s' := by
  induction as generalizing s u with
  | nil =>
    rw [forIn_nil] at h
    obtain ⟨-, rfl⟩ := returns_pure.1 h
    exact .refl ..
  | cons a as ih =>
    rw [forIn_cons, returns_bind] at h
    obtain ⟨r, s₁, h₁, h₂⟩ := h
    obtain ⟨⟨u₁, rfl⟩, hr⟩ := hf a mem_cons_self u s r s₁ h₁
    exact hr.trans (ih (fun b hb => hf b (mem_cons_of_mem _ hb)) h₂)

theorem mapM_newVars {as : List α} {f : α → Synth ProgVar} {type : α → Ty}
    (hf : ∀ a s v s', Returns (f a) s v s' → v = s.nextVar ∧ ∃ name, s' = s.addVar name (type a))
    (h : Returns (as.mapM f) s vs s') :
    s.Grows s' ∧ s'.witnesses = s.witnesses ∧ s'.scope = s.scope ∧
      Forall₂ (fun a v => s.vars.size ≤ v.index ∧ s'.vars.type v = .ok (type a)) as vs := by
  induction as generalizing s vs with
  | nil =>
    obtain ⟨rfl, rfl⟩ := returns_mapM_nil.1 h
    exact ⟨.refl _, rfl, rfl, .nil⟩
  | cons a as ih =>
    obtain ⟨v, s₁, vs, h₁, h₂, rfl⟩ := returns_mapM_cons.1 h
    obtain ⟨rfl, name, rfl⟩ := hf a s v s₁ h₁
    obtain ⟨hg, hw, hscope, hvs⟩ := ih h₂
    have hstep := WitnessState.Grows.addVar s name (type a)
    refine ⟨hstep.trans hg, hw, hscope, .cons ⟨Nat.le_refl _, ?_⟩ (hvs.imp fun b v hv => ?_)⟩
    · exact hg.vars.type_eq (type_addVar rfl ..)
    · exact ⟨Nat.le_trans hstep.vars.size_le hv.1, hv.2⟩

theorem mapM_adds {as : List α} {f : α → Synth ProgVar} {type : Ty}
    (hf : ∀ a s v s', Returns (f a) s v s' → v = s.nextVar ∧ ∃ name, s' = s.addVar name type)
    (h : Returns (as.mapM f) s vs s') : vs.length = as.length ∧ s.Adds type vs s' := by
  obtain ⟨hg, hw, hscope, hvs⟩ := mapM_newVars hf h
  refine ⟨hvs.length_eq.symm, hg, hw, hscope, fun v hv => ?_⟩
  obtain ⟨a, -, ha⟩ := exists_of_forall₂ hvs hv
  exact ha

theorem mapM_record {α : Type} {as : List α} {f : α → Synth ProgVar} {type : Ty}
    {R : WitnessState → WitnessState → Prop} (hR : Growing R)
    (hf : ∀ a s v s', Returns (f a) s v s' →
      R s s' ∧ s.vars.size ≤ v.index ∧ s'.vars.type v = .ok type)
    (h : Returns (as.mapM f) s vs s') :
    vs.length = as.length ∧ R s s' ∧
      ∀ v ∈ vs, s.vars.size ≤ v.index ∧ s'.vars.type v = .ok type := by
  induction as generalizing s vs with
  | nil =>
    obtain ⟨rfl, rfl⟩ := returns_mapM_nil.1 h
    exact ⟨rfl, hR.refl _, by simp⟩
  | cons a as ih =>
    obtain ⟨v, s₁, vs, h₁, h₂, rfl⟩ := returns_mapM_cons.1 h
    obtain ⟨hg₁, hv, ht⟩ := hf a s v s₁ h₁
    obtain ⟨hl, hg₂, hvs⟩ := ih h₂
    refine ⟨by simp [hl], hR.trans hg₁ hg₂, fun w hw => ?_⟩
    rcases mem_cons.1 hw with rfl | hw
    · exact ⟨hv, (hR.vars hg₂).type_eq ht⟩
    · exact ⟨Nat.le_trans (hR.vars hg₁).size_le (hvs w hw).1, (hvs w hw).2⟩

theorem newTypeInfo_record {name : String}
    (h : (s.addVar name .typeInfo).Records [] [s.nextVar] s') :
    s.Advances s' ∧ s.vars.size ≤ s.nextVar.index ∧ s'.vars.type s.nextVar = .ok .typeInfo := by
  have ht : (s.addVar name .typeInfo).vars.type s.nextVar = .ok .typeInfo :=
    type_addVar rfl ..
  refine ⟨⟨h.grows (.addVar ..) (by simp) (fun v hv => ?_), ⟨h.keeps.scope, h.keeps.infos,
    h.keeps.dicts⟩⟩, Nat.le_refl _, h.vars ▸ ht⟩
  rw [mem_singleton.1 hv]
  exact ⟨Nat.le_refl _, ht⟩

theorem newDictionary_record (h : Returns (do
      let var ← newDictionary c.className.name
      recordDictionary env c var
      return var) s v s') :
    s.Advances s' ∧ s.vars.size ≤ v.index ∧ s'.vars.type v = .ok .dictionary := by
  simp only [returns_bind, returns_newDictionary, returns_pure] at h
  obtain ⟨_, _, ⟨rfl, rfl⟩, _, _, hr, rfl, rfl⟩ := h
  have hrec := recordDictionary_records hr
  have ht : (s.addVar ("TypeClassInfo_for_" ++ c.className.name) .dictionary).vars.type s.nextVar =
      .ok .dictionary := type_addVar rfl ..
  refine ⟨⟨hrec.grows (.addVar ..) (fun v hv => ?_) (by simp), ⟨hrec.keeps.scope, hrec.keeps.infos,
    hrec.keeps.dicts⟩⟩, Nat.le_refl _, hrec.vars ▸ ht⟩
  rw [mem_singleton.1 hv]
  exact ⟨Nat.le_refl _, ht⟩

end Synth

/-! ### The witnesses of calls -/

/-- The witnesses that a predicate takes, part by part. -/
structure WitnessParts (callee : Predicate) where
  univDicts : List ProgVar
  existDicts : List ProgVar
  univInfos : List ProgVar
  existInfos : List ProgVar
  length_univDicts : univDicts.length = callee.constraints.universal.length
  length_existDicts : existDicts.length = callee.constraints.existential.length
  length_univInfos : univInfos.length = callee.bareTypeVars.1.length
  length_existInfos : existInfos.length = callee.bareTypeVars.2.length

namespace WitnessParts

variable (parts : WitnessParts callee)

/-- All of them, in order. -/
def all : List ProgVar :=
  parts.univDicts ++ parts.existDicts ++ parts.univInfos ++ parts.existInfos

/-- Those that are taken. -/
def inputs : List ProgVar := parts.univDicts ++ parts.univInfos

/-- Those that are bound. -/
def outputs : List ProgVar := parts.existDicts ++ parts.existInfos

/-- The witnesses are of a kind, given their types. -/
def In (Q : Ty → ProgVar → Prop) : Prop :=
  (∀ v ∈ parts.univDicts ++ parts.existDicts, Q .dictionary v) ∧
    ∀ v ∈ parts.univInfos ++ parts.existInfos, Q .typeInfo v

variable {parts}

theorem mem_all : v ∈ parts.all ↔ v ∈ parts.inputs ++ parts.outputs := by
  simp only [all, inputs, outputs, mem_append]
  tauto

theorem In.of_mem {X : ProgVar → Prop} (h : parts.In fun _ => X) (hv : v ∈ parts.all) : X v := by
  simp only [In, all, mem_append] at h hv
  rcases hv with ((hv | hv) | hv) | hv
  · exact h.1 v (.inl hv)
  · exact h.1 v (.inr hv)
  · exact h.2 v (.inl hv)
  · exact h.2 v (.inr hv)

end WitnessParts

/-- A goal gets witnesses: those that it takes come with a set-up, and those that
    it binds are not bound there. -/
structure Serves (context : Context) (s : WitnessState) (inputs outputs : List ProgVar)
    (setup : List Goal) (s' : WitnessState) : Prop where
  advances : s.Advances s'
  made : ∀ X : ProgVar → Prop, s.witnesses.All (fun _ => X) → s.NewIn s' (fun _ => X) →
    ∀ v ∈ inputs ++ outputs, X v
  empty : inputs = [] → setup = []
  feeds : Feeds inputs setup
  block : ∃ bound, s.LeavesAll bound s' ∧ (∀ v ∈ outputs, v ∉ bound) ∧
    ∀ X, s'.witnesses.All (fun _ => X) →
      Setup context X setup bound ∧ ∀ v ∈ inputs, v ∈ bound ∨ X v

theorem Provides.serves {inputs : List ProgVar} {setup : List Goal}
    (h : Provides context s dicts infos setup s')
    (hinputs : ∀ v, v ∈ inputs ↔ v ∈ dicts ∨ v ∈ infos) : Serves context s inputs [] setup s' where
  advances := ⟨h.grows, h.keeps⟩
  made X hrec hnew v hv := by
    obtain ⟨hd, hi⟩ := h.results (fun _ => X) hrec hnew
    exact ((hinputs v).1 (by simpa using hv)).elim (hd v) (hi v)
  empty hnone := h.empty (eq_nil_iff_forall_not_mem.2 fun v hv => by
    simpa [hnone] using (hinputs v).2 (mem_append.1 hv))
  feeds := h.feeds.mono fun v hv => (hinputs v).2 (mem_append.1 hv)
  block := by
    obtain ⟨bound, hbound, hsetup⟩ := h.block
    refine ⟨bound, hbound, by simp, fun X hX => ⟨(hsetup X hX).1, fun v hv => ?_⟩⟩
    exact (hsetup X hX).2 v (mem_append.2 ((hinputs v).1 hv))

/-- No goals are needed for witnesses that are on record or new. -/
theorem Serves.bare {inputs outputs : List ProgVar} (h : s.Advances s')
    (hinputs : ∀ X, s'.witnesses.All (fun _ => X) → ∀ v ∈ inputs, X v)
    (houtputs : ∀ v ∈ outputs, s.vars.size ≤ v.index ∧ v.index < s'.vars.size) :
    Serves context s inputs outputs [] s' where
  advances := h
  made X hrec hnew := forall_mem_append.2 ⟨hinputs X (h.records _ hrec hnew), fun v hv => by
    obtain ⟨type, htype⟩ := exists_type_of_lt (houtputs v hv).2
    exact hnew type v (houtputs v hv).1 htype⟩
  empty _ := rfl
  feeds := trivial
  block := ⟨[], .ofGrows h.toGrows, by simp,
    fun X hX => ⟨.nil, fun v hv => .inr (hinputs X hX v hv)⟩⟩

/-- The witnesses of a call, which are as many as the callee takes. -/
structure WitnessedCall (context : Context) {callee : Predicate} (args : List ProgVar)
    (s : WitnessState) (w : CallWitnesses) (s' : WitnessState) (parts : WitnessParts callee) :
    Prop where
  vars : w.vars = parts.all
  outputs : w.outputs = parts.outputs
  foreignNames : w.foreignNames = callee.foreignWitnessNames
  arity : args.length = callee.argTypes.length
  results : ∀ Q, s.witnesses.All Q → s.NewIn s' Q → parts.In Q
  serves : Serves context s parts.inputs parts.outputs w.setup s'

theorem Subst.length_eq_of_ofMatch {general specific : List Ty} {subst : Subst}
    (h : Subst.ofMatch general specific = .ok subst) : general.length = specific.length := by
  unfold Subst.ofMatch at h
  split at h
  · assumption
  · cases h

namespace Synth

theorem recordDictionaries_records {cs : List Constraint}
    (h : Returns (forIn (cs.zip vs) u fun p _ => do
      recordDictionary env p.1 p.2
      pure (.yield PUnit.unit)) s u' s') : s.Records vs [] s' := by
  refine forIn_records (fun p hp u s r s' h => ?_) h
  simp only [returns_bind, returns_pure] at h
  obtain ⟨_, s₁, h₁, rfl, rfl⟩ := h
  refine ⟨⟨_, rfl⟩, (recordDictionary_records h₁).mono (fun v hv => ?_) (by simp)⟩
  rw [mem_singleton.1 hv]
  exact (of_mem_zip hp).2

theorem recordTypeInfos_records {ts : List Ty} (h : Returns (forIn (ts.zip vs) u fun p _ =>
      match p.1 with
      | .var v => do
        addTypeInfo v (.direct p.2)
        pure (.yield PUnit.unit)
      | _ => pure (.yield PUnit.unit)) s u' s') : s.Records [] vs s' := by
  refine forIn_records (fun p hp u s r s' h => ?_) h
  obtain ⟨t, w⟩ := p
  have hw : w ∈ vs := (of_mem_zip hp).2
  cases t with
  | var v =>
    simp only [returns_bind, returns_pure] at h
    obtain ⟨_, s₁, h₁, rfl, rfl⟩ := h
    refine ⟨⟨_, rfl⟩, (addTypeInfo_records h₁).mono (by simp) fun v hv => ?_⟩
    rwa [mem_singleton.1 hv]
  | defined n ts =>
    obtain ⟨rfl, rfl⟩ := returns_pure.1 h
    exact ⟨⟨_, rfl⟩, .refl ..⟩
  | tuple ts =>
    obtain ⟨rfl, rfl⟩ := returns_pure.1 h
    exact ⟨⟨_, rfl⟩, .refl ..⟩
  | higherOrder k ts =>
    obtain ⟨rfl, rfl⟩ := returns_pure.1 h
    exact ⟨⟨_, rfl⟩, .refl ..⟩

/-- The witnesses of a call come in the parts that its callee declares. -/
theorem callWitnesses_cases {w : CallWitnesses}
    (h : Returns (callWitnesses env callee args context) s w s') :
    ∃ parts : WitnessParts callee, WitnessedCall context args s w s' parts := by
  simp only [callWitnesses, returns_bind, returns_renameApart, returns_varTypes] at h
  obtain ⟨_, _, ⟨rfl, rfl⟩, actual, _, ⟨hactual, rfl⟩, h⟩ := h
  split at h
  · next subst hsubst =>
    simp only [returns_bind, returns_pure, returns_mapM_ofOption] at h
    obtain ⟨_, _, ⟨rfl, rfl⟩, cs, _, ⟨hcs, rfl⟩, ⟨ud, goals₁⟩, _, h₁, es, s₁, ⟨hes, rfl⟩, ed, _,
      h₂, ts, s₂, ⟨hts, rfl⟩, ⟨ut, goals₂⟩, _, h₃, ets, s₃, ⟨hets, rfl⟩, et, s₄, h₄, _, s₅, h₅, _,
      s₆, h₆, rfl, rfl⟩ := h
    obtain ⟨hed, had⟩ := mapM_adds (fun c s v s' h => ⟨(returns_newDictionary.1 h).1, _,
      (returns_newDictionary.1 h).2⟩) h₂
    obtain ⟨het, hat⟩ := mapM_adds (fun c s v s' h => ⟨(returns_newTypeInfo.1 h).1, _,
      (returns_newTypeInfo.1 h).2⟩) h₄
    have hstart : Makes context s [] [] [] (s.mergeScope callee.scope) :=
      .idle (.of_eq rfl rfl rfl) rfl (Keeps.mergeScope ..).scope
    have hmade : Makes context s ud ut (goals₁ ++ goals₂) s₃ := by
      have := ((hstart.append (dictionaries_makes h₁)).append
        (.idle had.grows had.witnesses (had.scope ▸ .refl _))).append (typeInfos_makes ts h₃)
      simpa using this
    have hrecord : s₄.Records ed et s' :=
      ((recordDictionaries_records h₅).mono (fun _ h => h) (by simp)).trans
        ((recordTypeInfos_records h₆).mono (by simp) fun _ h => h)
    -- What the call binds is new, and stays of its type.
    have hs₁ : s.vars.size ≤ s₁.vars.size :=
      (hstart.append (dictionaries_makes h₁)).grows.vars.size_le
    have hed_new : ∀ v ∈ ed, s.vars.size ≤ v.index ∧ s₄.vars.type v = .ok .dictionary :=
      fun v hv => ⟨Nat.le_trans hs₁ (had.new v hv).1, hat.grows.vars.type_eq
        ((typeInfos_makes ts h₃).grows.vars.type_eq (had.new v hv).2)⟩
    have het_new : ∀ v ∈ et, s.vars.size ≤ v.index ∧ s₄.vars.type v = .ok .typeInfo :=
      fun v hv => ⟨Nat.le_trans hmade.grows.vars.size_le (hat.new v hv).1, (hat.new v hv).2⟩
    have harity : args.length = callee.argTypes.length := by
      rw [(types_eq_ok.1 hactual).length_eq, ← Subst.length_eq_of_ofMatch hsubst,
        length_map]
    have hkeeps₃ : s₃.Keeps s' := (WitnessState.Keeps.of_eq hat.witnesses
      (hat.scope ▸ .refl _)).trans hrecord.keeps
    have hresults : ∀ Q, s.witnesses.All Q → s.NewIn s' Q →
        (∀ v ∈ ud ++ ed, Q .dictionary v) ∧ ∀ v ∈ ut ++ et, Q .typeInfo v := by
      intro Q hQ hnew
      have hnew₄ : s.NewIn s₄ Q := fun type v hv ht => hnew type v hv (hrecord.vars ▸ ht)
      obtain ⟨hd, hi⟩ := hmade.results Q hQ
        (hnew₄.mono hmade.grows.vars.size_le hat.grows.vars).1
      exact ⟨forall_mem_append.2 ⟨hd, fun v hv => hnew₄ _ v (hed_new v hv).1 (hed_new v hv).2⟩,
        forall_mem_append.2 ⟨hi, fun v hv => hnew₄ _ v (het_new v hv).1 (het_new v hv).2⟩⟩
    let parts : WitnessParts callee :=
      ⟨ud, ed, ut, et, by rw [length_dictionaries h₁, (mapM_eq_some_iff.1 hcs).length_eq],
        by rw [hed, (mapM_eq_some_iff.1 hes).length_eq],
        by rw [length_typeInfos h₃, (mapM_eq_some_iff.1 hts).length_eq], het⟩
    refine ⟨parts, rfl, rfl, rfl, harity, hresults,
      ⟨⟨hrecord.grows (hmade.grows.trans hat.grows) hed_new het_new, hmade.keeps.trans hkeeps₃⟩,
        fun X hX hnew v hv => ?_, fun hnone => ?_, hmade.feeds, ?_⟩⟩
    · have hall : parts.In fun _ => X := hresults _ hX hnew
      exact hall.of_mem (WitnessParts.mem_all.2 hv)
    · obtain ⟨rfl, rfl⟩ : ud = [] ∧ ut = [] := append_eq_nil_iff.1 hnone
      rw [(dictionaries_provides h₁).empty rfl, (typeInfos_provides h₃).empty rfl]
      rfl
    · -- The goals of the two requests bind variables that are added before and
      -- between those that the call binds.
      obtain ⟨bound₁, hb₁, hsetup₁⟩ := (dictionaries_provides h₁).block
      obtain ⟨bound₂, hb₂, hsetup₂⟩ := (typeInfos_provides h₃).block
      have hs₂ := had.grows.vars.size_le
      have hs₃ := (typeInfos_makes ts h₃).grows.vars.size_le
      have hs₄ := hat.grows.vars.size_le
      have hfree : ∀ v ∈ ed ++ et, s.vars.size ≤ v.index ∧ v.index < s₄.vars.size ∧
          v ∉ bound₁ ++ bound₂ := by
        intro v hv
        rw [mem_append]
        rcases mem_append.1 hv with hv | hv
        · have hlt := lt_size_of_type (had.new v hv).2
          have hle := (had.new v hv).1
          refine ⟨by omega, by omega, fun hb => ?_⟩
          rcases hb with hb | hb
          · have := (hb₁.new v hb).2
            omega
          · have := (hb₂.new v hb).1
            omega
        · have hlt := lt_size_of_type (hat.new v hv).2
          have hle := (hat.new v hv).1
          refine ⟨by omega, by omega, fun hb => ?_⟩
          rcases hb with hb | hb
          · have := (hb₁.new v hb).2
            omega
          · have := (hb₂.new v hb).2
            omega
      have hleaves : s.LeavesAll (bound₁ ++ bound₂) s₄ := by
        have hb₁ : s.LeavesAll bound₁ s₁ := ⟨hb₁.new, hb₁.nodup, hb₁.records⟩
        simpa using ((hb₁.append hs₁ hs₂ (.ofGrows had.grows)).append (by omega) hs₃ hb₂).append
          (by omega) hs₄ (.ofGrows hat.grows)
      have hkeeps₁ : s₁.Keeps s' := ((WitnessState.Keeps.of_eq had.witnesses
        (had.scope ▸ .refl _)).trans (typeInfos_makes ts h₃).keeps).trans hkeeps₃
      refine ⟨bound₁ ++ bound₂, hrecord.leaves hleaves hfree, fun v hv => (hfree v hv).2.2,
        fun X hX => ?_⟩
      obtain ⟨hg₁, hv₁⟩ := hsetup₁ X ⟨hkeeps₁.infosIn hX.1, hkeeps₁.dictsIn hX.2⟩
      obtain ⟨hg₂, hv₂⟩ := hsetup₂ X ⟨hkeeps₃.infosIn hX.1, hkeeps₃.dictsIn hX.2⟩
      refine ⟨hg₁.append (hg₂.mono fun v hv => .inr hv), fun v hv => ?_⟩
      rcases mem_append.1 hv with hv | hv
      · exact (hv₁ v (mem_append_left _ hv)).imp_left (mem_append_left _)
      · exact (hv₂ v (mem_append_right _ hv)).imp_left (mem_append_right _)
  · simp at h

end Synth

/-! ### Goals with their set-ups -/

namespace Synth

/-- A call stays as it is, or gets the witnesses of its callee. -/
theorem callGoal_cases {callee : ProcRef}
    (h : Returns (callGoal env info callee name args) s g' s') :
    ∃ pred, env.env.pred callee.pred = .ok pred ∧
      (pred.witnessCount = 0 ∧ g' = .call info callee name args ∧ s' = s ∨
        pred.witnessCount ≠ 0 ∧ ∃ w, ∃ parts : WitnessParts pred,
          WitnessedCall info.context args s w s' parts ∧
          g' = .withSetup w.setup (.call (addWitnesses info parts.all parts.outputs) callee name
            (parts.all ++ args))) := by
  simp only [callGoal, returns_bind, returns_lift] at h
  obtain ⟨pred, _, ⟨hpred, rfl⟩, h⟩ := h
  refine ⟨pred, hpred, ?_⟩
  split at h
  · next hz =>
    obtain ⟨rfl, rfl⟩ := returns_pure.1 h
    exact .inl ⟨hz, rfl, rfl⟩
  · next hz =>
    simp only [returns_bind, returns_pure] at h
    obtain ⟨w, _, hw, rfl, rfl⟩ := h
    obtain ⟨parts, hparts⟩ := callWitnesses_cases hw
    exact .inr ⟨hz, w, parts, hparts, by rw [hparts.vars, hparts.outputs]⟩

theorem length_foreignWitnessNames (parts : WitnessParts callee) :
    callee.foreignWitnessNames.length = parts.all.length := by
  simp [Predicate.foreignWitnessNames, WitnessParts.all, parts.length_univDicts,
    parts.length_existDicts, parts.length_univInfos, parts.length_existInfos]

/-- The witnesses of foreign code, as its arguments. -/
def foreignWitnesses {callee : Predicate} (parts : WitnessParts callee) : List ForeignArg :=
  (parts.all.zip callee.foreignWitnessNames).map fun (var, name) =>
    ⟨var, some name, if parts.outputs.contains var then .output else .input⟩

theorem map_var_foreignWitnesses (parts : WitnessParts callee) :
    (foreignWitnesses parts).map (·.var) = parts.all := by
  rw [foreignWitnesses, map_map]
  exact map_fst_zip (Nat.le_of_eq (length_foreignWitnessNames parts).symm)

theorem foreignGoal_cases {code : ForeignCode} (h : Returns (foreignGoal env info code) s g' s') :
    ∃ pred, env.env.pred code.callee.pred = .ok pred ∧
      (pred.witnessCount = 0 ∧ g' = .foreign info code ∧ s' = s ∨
        pred.witnessCount ≠ 0 ∧ ∃ w, ∃ parts : WitnessParts pred,
          WitnessedCall info.context (code.args.map (·.var)) s w s' parts ∧
          g' = .withSetup w.setup (.foreign (addWitnesses info parts.all parts.outputs)
            { code with args := foreignWitnesses parts ++ code.args })) := by
  simp only [foreignGoal, returns_bind, returns_lift] at h
  obtain ⟨pred, _, ⟨hpred, rfl⟩, h⟩ := h
  refine ⟨pred, hpred, ?_⟩
  split at h
  · next hz =>
    obtain ⟨rfl, rfl⟩ := returns_pure.1 h
    exact .inl ⟨hz, rfl, rfl⟩
  · next hz =>
    simp only [returns_bind, returns_pure] at h
    obtain ⟨w, _, hw, rfl, rfl⟩ := h
    obtain ⟨parts, hparts⟩ := callWitnesses_cases hw
    exact .inr ⟨hz, w, parts, hparts, by
      rw [hparts.vars, hparts.outputs, hparts.foreignNames]; rfl⟩

theorem genericGoal_cases {callee : GenericCallee} {modes : List Mode}
    (h : Returns (genericGoal env info callee args modes) s g' s') :
    g' = .genericCall info callee args modes ∧ s' = s ∨
      ∃ infos setup, Serves info.context s infos [] setup s' ∧
        g' = .withSetup setup (.genericCall (addWitnesses info infos []) callee (infos ++ args)
          (infos.map (fun _ => .input) ++ modes)) := by
  unfold genericGoal at h
  split at h
  · exact .inl (returns_pure.1 h)
  · split at h
    · simp at h
    · simp only [returns_bind, returns_pure, returns_varTypes] at h
      obtain ⟨types, _, ⟨-, rfl⟩, ⟨infos, setup⟩, _, hi, rfl, rfl⟩ := h
      exact .inr ⟨infos, setup, (typeInfos_provides hi).serves (by simp), rfl⟩

theorem consumeCellWitnesses_cases {types : List Ty} {constraints : List Constraint}
    (h : Returns (consumeCellWitnesses env types constraints) s vs s') :
    s.Advances s' ∧ ∀ v ∈ vs, s.vars.size ≤ v.index ∧ v.index < s'.vars.size := by
  simp only [consumeCellWitnesses, returns_bind, returns_pure] at h
  obtain ⟨infos, s₁, h₁, dicts, _, h₂, rfl, rfl⟩ := h
  obtain ⟨-, hg₁, hinfos⟩ := mapM_record Advances.growing (fun t s v s' h => by
    split at h
    · simp only [returns_bind, returns_get, returns_newTypeInfo, returns_pure] at h
      obtain ⟨_, s, ⟨rfl, rfl⟩, _, _, ⟨rfl, rfl⟩, _, _, hr, rfl, rfl⟩ := h
      exact newTypeInfo_record (addTypeInfo_records hr)
    · obtain ⟨rfl, rfl⟩ := returns_newTypeInfo.1 h
      exact ⟨⟨.addVar .., .of_eq rfl (.refl _)⟩, Nat.le_refl _, type_addVar rfl ..⟩) h₁
  obtain ⟨-, hg₂, hdicts⟩ :=
    mapM_record Advances.growing (fun c s v s' h => newDictionary_record h) h₂
  refine ⟨hg₁.trans hg₂, fun v hv => ?_⟩
  rcases mem_append.1 hv with hv | hv
  · exact ⟨(hinfos v hv).1, lt_size_of_type (hg₂.vars.type_eq (hinfos v hv).2)⟩
  · exact ⟨Nat.le_trans hg₁.vars.size_le (hdicts v hv).1,
      lt_size_of_type (hdicts v hv).2⟩

theorem produceCellWitnesses_cases {types : List Ty} {constraints : List Constraint}
    {setup : List Goal}
    (h : Returns (produceCellWitnesses env types constraints context) s (vs, setup) s') :
    ∃ dicts infos, vs = infos ++ dicts ∧ Provides context s dicts infos setup s' := by
  simp only [produceCellWitnesses, returns_bind, returns_pure, Prod.mk.injEq] at h
  obtain ⟨⟨infos, goals₁⟩, s₁, h₁, ⟨dicts, goals₂⟩, _, h₂, ⟨rfl, rfl⟩, rfl⟩ := h
  refine ⟨dicts, infos, rfl, ?_⟩
  simpa using (typeInfos_provides h₁).append (dictionaries_provides h₂)

/-- A cell stays as it is, or gets witnesses. They are taken if the cell is built,
    and bound if it is taken apart. -/
theorem consGoal_cases {arity : Nat}
    (h : Returns (consGoal env info lhs name arity args kind) s g' s') :
    g' = .unify info lhs (.functor (.cons name arity) args) kind ∧ s' = s ∨
    ∃ inputs outputs setup, Serves info.context s inputs outputs setup s' ∧
      ((∃ v f as, kind = .construct v f as) ∧ outputs = [] ∨
        (∀ v f as, kind ≠ .construct v f as) ∧ inputs = [] ∧ setup = []) ∧
      g' = .withSetup setup (.unify (addWitnesses info (inputs ++ outputs) outputs) lhs
        (.functor (.cons name arity) (inputs ++ outputs ++ args))
        (addCellArgs (inputs ++ outputs) kind)) := by
  simp only [consGoal, returns_bind, returns_get, returns_lift] at h
  obtain ⟨_, _, ⟨rfl, rfl⟩, lhsType, s, ⟨hlhs, rfl⟩, h⟩ := h
  split at h
  · next defn ctor hctor =>
    split at h
    · exact .inl (returns_pure.1 h)
    · simp only [returns_bind, returns_renameApart, returns_varTypes] at h
      obtain ⟨_, _, ⟨rfl, rfl⟩, argTypes, _, ⟨hargs, rfl⟩, h⟩ := h
      have hstart : s.Advances (s.mergeScope defn.scope) := ⟨.of_eq rfl rfl rfl, .mergeScope ..⟩
      split at h
      · simp only [returns_bind, returns_pure, returns_ofOption] at h
        obtain ⟨_, _, ⟨rfl, rfl⟩, constraints, _, ⟨-, rfl⟩, types, _, ⟨-, rfl⟩, h⟩ := h
        split at h
        · simp only [returns_bind, returns_pure] at h
          obtain ⟨⟨extra, setup⟩, _, hp, _, _, ⟨rfl, rfl⟩, rfl, rfl⟩ := h
          -- A cell that is built needs its witnesses made first.
          obtain ⟨dicts, infos, rfl, hm⟩ := produceCellWitnesses_cases hp
          have hserves : Serves info.context s (infos ++ dicts) [] setup _ :=
            ((Provides.idle hstart.toGrows rfl hstart.scope).append hm).serves (by simp [or_comm])
          exact .inr ⟨infos ++ dicts, [], setup, hserves, .inl ⟨⟨_, _, _, rfl⟩, rfl⟩, by simp⟩
        · next hk =>
          simp only [returns_bind, returns_pure] at h
          obtain ⟨extra, _, hc, _, _, ⟨rfl, rfl⟩, rfl, rfl⟩ := h
          -- A cell that is taken apart brings its witnesses along, in new
          -- variables.
          obtain ⟨hg, hv⟩ := consumeCellWitnesses_cases hc
          exact .inr ⟨[], extra, [], .bare (hstart.trans hg) (by simp) hv, .inr ⟨hk, rfl, rfl⟩, rfl⟩
      · simp at h
  · exact .inl (returns_pure.1 h)

theorem typeVarHolders_cases {vs : List TypeVar} {infos : List ProgVar}
    (h : Returns (vs.mapM typeVarHolder) s infos s') :
    s.Advances s' ∧ ∀ X, s'.witnesses.InfosIn (fun _ => X) → ∀ v ∈ infos, X v := by
  induction vs generalizing s infos with
  | nil =>
    obtain ⟨rfl, rfl⟩ := returns_mapM_nil.1 h
    exact ⟨.refl _, by simp⟩
  | cons v vs ih =>
    obtain ⟨var, s₁, infos, h₁, h₂, rfl⟩ := returns_mapM_cons.1 h
    obtain ⟨hg₂, hX₂⟩ := ih h₂
    have hfirst : s.Advances s₁ ∧ ∀ X, s₁.witnesses.InfosIn (fun _ => X) → X var := by
      simp only [typeVarHolder, returns_bind, returns_get] at h₁
      obtain ⟨_, s, ⟨rfl, rfl⟩, h₁⟩ := h₁
      split at h₁
      · next source hs =>
        obtain ⟨rfl, rfl⟩ := returns_pure.1 h₁
        exact ⟨.refl _, fun X hX => hX v source hs⟩
      · next hnone =>
        simp only [returns_bind, returns_pure] at h₁
        obtain ⟨⟨var, goals⟩, s₁, hinfo, rfl, rfl⟩ := h₁
        have hm := typeVarInfo_makes hinfo
        refine ⟨⟨hm.grows, hm.keeps⟩, fun X hX => ?_⟩
        rcases typeVarInfo_cases hinfo with ⟨hw, -⟩ | ⟨_, _, hw, -⟩ | ⟨-, rfl, -, rfl⟩
        · -- Nothing is on record, so only the last case of a type-info arises.
          rw [hnone] at hw; cases hw
        · rw [hnone] at hw; cases hw
        · exact hX v (.direct s.nextVar) (by simp [WitnessState.setWitnesses])
    obtain ⟨hg₁, hX₁⟩ := hfirst
    refine ⟨hg₁.trans hg₂, fun X hX w hw => ?_⟩
    rcases mem_cons.1 hw with rfl | hw
    · exact hX₁ X (hg₂.infosIn hX)
    · exact hX₂ X hX w hw

theorem unifyGoal_var_cases {rhs : ProgVar}
    (h : Returns (unifyGoal env info lhs (.var rhs) kind) s g' s') :
    g' = .unify info lhs (.var rhs) kind ∧ s' = s ∨
    ∃ canFail old infos, kind = .complicated canFail old ∧
      Serves info.context s infos [] [] s' ∧
      g' = .unify (addWitnesses info infos []) lhs (.var rhs) (.complicated canFail infos) := by
  cases kind with
  | complicated canFail old =>
    simp only [unifyGoal, returns_bind, returns_get, returns_lift, returns_pure] at h
    obtain ⟨_, _, ⟨rfl, rfl⟩, t, _, ⟨-, rfl⟩, infos, _, hi, rfl, rfl⟩ := h
    obtain ⟨hg, hX⟩ := typeVarHolders_cases hi
    exact .inr ⟨canFail, old, infos, rfl, .bare hg (fun X hrec => hX X hrec.1) (by simp), rfl⟩
  | construct v f args => exact .inl (returns_pure.1 h)
  | deconstruct v f args canFail => exact .inl (returns_pure.1 h)
  | assign target source => exact .inl (returns_pure.1 h)
  | test left right => exact .inl (returns_pure.1 h)

/-- The head of the lambda expression that a closure stands for. -/
structure ClosureHead (env : WitnessEnv) (var : ProgVar) (callee : ProcRef)
    (captured : List ProgVar) (s : WitnessState) (head : LambdaHead) (name : SymName)
    (s' : WitnessState) : Prop where
  proc : ∃ pred proc, env.env.proc callee = .ok (pred, proc) ∧ name = pred.symName ∧
    head.determinism = proc.determinism ∧ head.args.length ≤ proc.modes.length ∧
    head.modes = proc.modes.drop (proc.modes.length - head.args.length)
  purity : head.purity = .pure
  captured : head.captured = captured
  grows : s.Advances s'
  witnesses : s'.witnesses = s.witnesses
  args_new : ∀ v ∈ head.args, s.vars.size ≤ v.index ∧ v.index < s'.vars.size

theorem closureLambda_cases {var : ProgVar} {callee : ProcRef} {captured : List ProgVar}
    {outputs : List ProgVar}
    (h : Returns (closureLambda env var callee captured) s (head, outputs, name) s') :
    ClosureHead env var callee captured s head name s' ∧ ∀ v ∈ outputs, v ∈ head.args := by
  simp only [closureLambda, returns_bind, returns_lift, returns_get] at h
  obtain ⟨⟨pred, proc⟩, _, ⟨hproc, rfl⟩, _, _, ⟨rfl, rfl⟩, t, s, ⟨ht, rfl⟩, h⟩ := h
  split at h
  · next kind argTypes =>
    simp only [returns_bind] at h
    obtain ⟨args, s₁, hargs, h⟩ := h
    split at h
    · simp at h
    · -- The arguments that the closure is yet to take become variables of the
      -- head, and their modes are the last ones of the procedure.
      next hlen =>
      simp only [returns_pure, Prod.mk.injEq] at h
      obtain ⟨⟨rfl, rfl, rfl⟩, rfl⟩ := h
      obtain ⟨hg, hw, hscope, hvs⟩ := mapM_newVars (fun p s v s' h => ⟨(returns_newVar.1 h).1, _,
        (returns_newVar.1 h).2⟩) hargs
      refine ⟨⟨⟨pred, proc, hproc, rfl, rfl, Nat.le_of_not_lt hlen, rfl⟩, rfl, rfl,
        ⟨hg, .of_eq hw (hscope ▸ .refl _)⟩, hw, fun v hv => ?_⟩, fun v hv => ?_⟩
      · obtain ⟨p, -, hp⟩ := exists_of_forall₂ hvs hv
        exact ⟨hp.1, lt_size_of_type hp.2⟩
      · obtain ⟨p, hp, rfl⟩ := mem_map.1 hv
        exact (of_mem_zip (mem_filter.1 hp).1).1
  · simp only [returns_bind] at h
    obtain ⟨_, _, -, h⟩ := h
    simp at h

/-- A lambda expression captures more variables: the witnesses that the whole
    procedure can refer to, of those that occur in its body. -/
theorem returns_lambdaGoal {body : Goal}
    (h : Returns (lambdaGoal info lhs head body kind) s g' s') :
    s' = s ∧ ∃ captured, (∀ v, v ∈ captured ↔
        v ∈ head.captured ∨ v ∈ body.freeVars ∧ v ∉ head.args ∧ s.isOuterWitness v) ∧
      g' = .lambda (addWitnesses info captured []) lhs { head with captured } body kind := by
  simp only [lambdaGoal, returns_bind, returns_get, returns_pure] at h
  obtain ⟨_, _, ⟨rfl, rfl⟩, rfl, rfl⟩ := h
  refine ⟨rfl, _, fun v => ?_, rfl⟩
  simp only [mem_append, mem_filter, ← VarSet.mem_iff, Bool.and_eq_true,
    Bool.not_eq_true', contains_eq_mem, decide_eq_false_iff_not]
  tauto

theorem unifyGoal_closure_cases {callee : ProcRef}
    (h : Returns (unifyGoal env info lhs (.functor (.closure callee) args) kind) s g' s') :
    ∃ pred, env.env.pred callee.pred = .ok pred ∧
      (pred.witnessCount = 0 ∧ g' = .unify info lhs (.functor (.closure callee) args) kind ∧
        s' = s ∨
      pred.witnessCount ≠ 0 ∧ ∃ head name s₁ callInfo body captured,
        ClosureHead env lhs callee args s head name s₁ ∧
        (callInfo.context = info.context ∧
          ∀ v, v ∈ callInfo.nonlocals ∨ v ∈ callInfo.bound → v ∈ args ++ head.args) ∧
        (∀ v, v ∈ captured ↔
          v ∈ args ∨ v ∈ body.freeVars ∧ v ∉ head.args ∧ s'.isOuterWitness v) ∧
        Returns (callGoal env callInfo callee name (args ++ head.args)) s₁ body s' ∧
        g' = .lambda (addWitnesses info captured []) lhs { head with captured } body kind) := by
  -- The branch of the definition, with the pair of a head and a call that it takes
  -- apart written as projections.
  replace h : Returns (do
      let pred ← env.env.pred callee.pred
      if pred.witnessCount = 0 then return .unify info lhs (.functor (.closure callee) args) kind
      let r ← closureLambda env lhs callee args
      let body := Goal.callProc callee r.2.2 (args ++ r.1.args) r.2.1
        { determinism := r.1.determinism } info.context
      lambdaGoal info lhs r.1 (← callGoal env body.info callee r.2.2 (args ++ r.1.args)) kind)
      s g' s' := h
  simp only [returns_bind, returns_lift] at h
  obtain ⟨pred, _, ⟨hpred, rfl⟩, h⟩ := h
  refine ⟨pred, hpred, ?_⟩
  split at h
  · next hz =>
    obtain ⟨rfl, rfl⟩ := returns_pure.1 h
    exact .inl ⟨hz, rfl, rfl⟩
  · next hz =>
    simp only [returns_bind] at h
    obtain ⟨⟨head, outputs, name⟩, s₁, hhead, body, s₂, hbody, hlambda⟩ := h
    obtain ⟨rfl, captured, hcaptured, rfl⟩ := returns_lambdaGoal hlambda
    obtain ⟨hhead, houtputs⟩ := closureLambda_cases hhead
    refine .inr ⟨hz, head, name, s₁, _, body, captured, hhead, ?_, ?_, hbody, rfl⟩
    · refine ⟨rfl, fun v hv => ?_⟩
      rcases hv with hv | hv
      · simpa [Goal.callProc, Goal.exposeFree, Goal.setNonlocals, Goal.freeVars] using hv
      · exact mem_append_right _ (houtputs v (VarSet.mem_ofList.1 hv))
    · exact hhead.captured ▸ hcaptured

/-! ### Bodies -/

@[simp] theorem returns_absorb {vars' : VarSet} {part : Goal} :
    Returns (absorb vars part) s vars' s' ↔
      vars' = vars ∪ part.info.nonlocals.filter s.isOuterWitness ∧ s' = s := by
  simp only [absorb, returns_bind, returns_get, returns_pure]
  constructor
  · rintro ⟨_, _, ⟨rfl, rfl⟩, rfl, rfl⟩
    exact ⟨rfl, rfl⟩
  · rintro ⟨rfl, rfl⟩
    exact ⟨_, _, ⟨rfl, rfl⟩, rfl, rfl⟩

/-- Goals are worked on one after the other. -/
inductive Worked (env : WitnessEnv) : WitnessState → List Goal → List Goal → WitnessState → Prop
  | nil {s : WitnessState} : Worked env s [] [] s
  | cons {s s₁ s' : WitnessState} {g g' : Goal} {gs gs' : List Goal}
      (first : Returns (goal env g) s g' s₁) (rest : Worked env s₁ gs gs' s') :
      Worked env s (g :: gs) (g' :: gs') s'

theorem Returns.worked (h : Returns (goals env vars gs) s r s') : Worked env s gs r.1 s' := by
  induction gs generalizing s vars r with
  | nil =>
    obtain ⟨rfl, rfl⟩ := returns_pure.1 (goals.eq_1 env vars ▸ h)
    exact .nil
  | cons g gs ih =>
    simp only [goals, returns_bind, returns_absorb, returns_pure] at h
    obtain ⟨g', _, hg, _, s₁, ⟨-, rfl⟩, r', _, hgs, rfl, rfl⟩ := h
    exact .cons hg (ih hgs)

theorem arms_goals {cases : List (Symbol × Goal)} {r : List (Symbol × Goal) × VarSet}
    (h : Returns (arms env vars cases) s r s') :
    Returns (goals env vars (cases.map Prod.snd)) s (r.1.map Prod.snd, r.2) s' ∧
      r.1.map Prod.fst = cases.map Prod.fst := by
  induction cases generalizing s vars r with
  | nil =>
    rw [arms, returns_pure] at h
    obtain ⟨rfl, rfl⟩ := h
    exact ⟨returns_pure.2 ⟨rfl, rfl⟩, rfl⟩
  | cons arm rest ih =>
    simp only [arms, goals, map_cons, returns_bind, returns_absorb, returns_pure] at h ⊢
    obtain ⟨g', _, hg, vars₁, s₁, ⟨rfl, rfl⟩, r', _, hr, rfl, rfl⟩ := h
    obtain ⟨hgoals, hsymbols⟩ := ih hr
    exact ⟨⟨g', _, hg, _, _, ⟨rfl, rfl⟩, _, _, hgoals, rfl, rfl⟩, congrArg _ hsymbols⟩

/-- A compound goal is worked on part by part. -/
theorem returns_compound (hg : g.isCompound) (h : Returns (goal env g) s g' s') :
    ∃ gs' nonlocals, Returns (goals env g.info.nonlocals g.parts) s (gs', nonlocals) s' ∧
      g.Refilled nonlocals gs' g' := by
  cases g with
  | conj | disj =>
    simp only [goal, returns_bind, returns_pure] at h
    obtain ⟨r, _, hr, rfl, rfl⟩ := h
    exact ⟨_, _, hr, by constructor⟩
  | switch =>
    simp only [goal, returns_bind, returns_pure] at h
    obtain ⟨r, _, hr, rfl, rfl⟩ := h
    exact ⟨_, _, (arms_goals hr).1, .switch (arms_goals hr).2⟩
  | negation | scope =>
    simp only [goal, returns_bind, returns_absorb, returns_pure] at h
    obtain ⟨k, _, hk, _, _, ⟨rfl, rfl⟩, rfl, rfl⟩ := h
    refine ⟨[k], _, ?_, by constructor⟩
    simp only [Goal.parts, Goal.children, goals, returns_bind, returns_absorb, returns_pure]
    exact ⟨k, _, hk, _, _, ⟨rfl, rfl⟩, _, _, ⟨rfl, rfl⟩, rfl, rfl⟩
  | ite info locals c y n =>
    simp only [goal, returns_bind, returns_absorb, returns_pure] at h
    obtain ⟨c', _, hc, _, s₁, ⟨rfl, rfl⟩, y', _, hy, _, s₂, ⟨rfl, rfl⟩, n', _, hn, _, _, ⟨rfl, rfl⟩,
      rfl, rfl⟩ := h
    refine ⟨[c', y', n'], _, ?_, by constructor⟩
    simp only [Goal.parts, Goal.children, goals, returns_bind, returns_absorb, returns_pure]
    exact ⟨c', _, hc, _, _, ⟨rfl, rfl⟩, _, _, ⟨y', _, hy, _, _, ⟨rfl, rfl⟩, _, _,
      ⟨n', _, hn, _, _, ⟨rfl, rfl⟩, _, _, ⟨rfl, rfl⟩, rfl, rfl⟩, rfl, rfl⟩, rfl, rfl⟩
  | _ => cases hg

theorem returns_lambda {body : Goal}
    (h : Returns (goal env (.lambda info lhs head body kind)) s g' s') :
    ∃ body' captured, Returns (goal env body) s body' s' ∧
      (∀ v, v ∈ captured ↔
        v ∈ head.captured ∨ v ∈ body'.freeVars ∧ v ∉ head.args ∧ s'.isOuterWitness v) ∧
      g' = .lambda (addWitnesses info captured []) lhs { head with captured } body' kind := by
  simp only [goal, returns_bind] at h
  obtain ⟨body', s₁, hb, hl⟩ := h
  obtain ⟨rfl, captured, hcaptured, rfl⟩ := returns_lambdaGoal hl
  exact ⟨body', captured, hb, hcaptured, rfl⟩

end Synth

end

end Clausal
