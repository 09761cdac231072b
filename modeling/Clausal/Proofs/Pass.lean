import Clausal.Proofs.Atoms

/-!
# What the witness pass does to a module

The pass changes one procedure after the other, each of them once, and then
puts the types of the witnesses into the declarations. Declarations are the
same before and after the first part (`Module.SameDecls`), so it makes no
difference to a procedure how far the pass had come when it was its turn: it
is changed as `Synth.procedure` says (`Module.Changes`).
-/

namespace Clausal

open List Predicate

variable {α β : Type} {out : WitnessHead} {body : Goal} {i : PredId} {p pred q : Predicate}
  {rs : List ProcRef}

namespace Predicate

/-- The modes of the witnesses that a predicate takes. -/
def witnessModes (p : Predicate) : List Mode :=
  p.constraints.universal.map (fun _ => .input) ++
    p.constraints.existential.map (fun _ => .output) ++
    p.bareTypeVars.1.map (fun _ => .input) ++ p.bareTypeVars.2.map (fun _ => .output)

/-- The types of the witnesses that a predicate takes. -/
def witnessTypes (p : Predicate) : List Ty :=
  p.constraints.universal.map (fun _ => .dictionary) ++
    p.constraints.existential.map (fun _ => .dictionary) ++
    p.bareTypeVars.1.map (fun _ => .typeInfo) ++ p.bareTypeVars.2.map (fun _ => .typeInfo)

end Predicate

section

variable {s s₁ s' : WitnessState} {env : WitnessEnv} {proc : Procedure} {context : Context}

/-! ### Heads -/

theorem map_const_eq {γ : Type} {as : List α} {bs : List β} (h : as.length = bs.length) (c : γ) :
    as.map (fun _ => c) = bs.map fun _ => c := by
  rw [map_const', map_const', h]

theorem WitnessParts.modes_eq (parts : WitnessParts pred) :
    parts.univDicts.map (fun _ => Mode.input) ++ parts.existDicts.map (fun _ => .output) ++
      parts.univInfos.map (fun _ => .input) ++ parts.existInfos.map (fun _ => .output) =
        pred.witnessModes := by
  rw [Predicate.witnessModes, map_const_eq parts.length_univDicts,
    map_const_eq parts.length_existDicts, map_const_eq parts.length_univInfos,
    map_const_eq parts.length_existInfos]

theorem forall₂_map_const {γ : Type} {R : γ → β → Prop} {as : List α} {bs : List β} {c : γ}
    (hl : bs.length = as.length) (h : ∀ b ∈ bs, R c b) : Forall₂ R (as.map fun _ => c) bs := by
  induction bs generalizing as with
  | nil =>
    obtain rfl := length_eq_zero_iff.1 hl.symm
    exact .nil
  | cons b bs ih =>
    cases as with
    | nil => cases hl
    | cons a as =>
      exact .cons (h b mem_cons_self) (ih (Nat.succ.inj hl) fun b' hb' =>
        h b' (mem_cons_of_mem _ hb'))

theorem WitnessParts.In.forall₂ {parts : WitnessParts pred} {Q : Ty → ProgVar → Prop}
    (h : parts.In Q) : Forall₂ Q pred.witnessTypes parts.all := by
  have hd := fun v hv => h.1 v (mem_append.2 hv)
  have hi := fun v hv => h.2 v (mem_append.2 hv)
  exact rel_append (rel_append (rel_append
    (forall₂_map_const parts.length_univDicts fun v hv => hd v (.inl hv))
    (forall₂_map_const parts.length_existDicts fun v hv => hd v (.inr hv)))
    (forall₂_map_const parts.length_univInfos fun v hv => hi v (.inl hv)))
    (forall₂_map_const parts.length_existInfos fun v hv => hi v (.inr hv))

theorem Predicate.length_witnessTypes (h : pred.isExempt = false) :
    pred.witnessTypes.length = pred.witnessCount := by
  simp [witnessTypes, witnessCount, h, Nat.add_assoc]

/-- The head of a procedure with its witnesses: new variables in front of the
    old head. -/
structure WitnessedHead (pred : Predicate) (proc : Procedure) (s : WitnessState)
    (out : WitnessHead) (s' : WitnessState) (parts : WitnessParts pred) : Prop where
  head : out.head = parts.all ++ proc.head
  modes : out.modes = pred.witnessModes ++ proc.modes
  existDictionaries : out.existDictionaries = parts.existDicts
  existTypeInfos : out.existTypeInfos = parts.existInfos
  existVars : out.existVars = pred.bareTypeVars.2
  grows : s.Grows s'
  new : parts.In fun type v => s.vars.size ≤ v.index ∧ s'.vars.type v = .ok type

namespace Synth

theorem checkLocated_records {cs : List Constraint} {u : Unit}
    (h : Returns (checkLocated env cs) s u s') : s.Records [] [] s' := by
  simp only [checkLocated, returns_bind, returns_get] at h
  obtain ⟨_, s, ⟨rfl, rfl⟩, _, s₁, h, hu⟩ := h
  obtain ⟨-, rfl⟩ := returns_pure.1 hu
  refine forIn_records (fun c _ u s r s' h => ?_) h
  simp only [returns_bind, returns_pure] at h
  obtain ⟨_, s₁, h, rfl, rfl⟩ := h
  refine ⟨⟨_, rfl⟩, forIn_records (fun v _ u s r s' h => ?_) h⟩
  split at h
  · simp at h
  · obtain ⟨rfl, rfl⟩ := returns_pure.1 h
    exact ⟨⟨_, rfl⟩, .refl ..⟩

theorem newTypeInfo_put (s : WitnessState) (v : TypeVar) (name : String) :
    let s' := (s.addVar name .typeInfo).setWitnesses { s.witnesses with
      typeInfos := s.witnesses.typeInfos.insert v (.direct s.nextVar) }
    s.Grows s' ∧ s.vars.size ≤ s.nextVar.index ∧ s'.vars.type s.nextVar = .ok .typeInfo := by
  have ht : (s.addVar name .typeInfo).vars.type s.nextVar = .ok .typeInfo :=
    WitnessState.type_addVar rfl ..
  refine ⟨⟨.add .., fun Q hQ hnew => ⟨fun t source hs => ?_, hQ.2⟩, fun _ => .inl,
    fun hb => (hb.1 v _ (Assoc.find?_insert_self ..)).elim⟩, Nat.le_refl _, ht⟩
  have hs : (s.witnesses.typeInfos.insert v (.direct s.nextVar)).find? t = some source := hs
  rw [Assoc.find?_insert] at hs
  split at hs
  · cases hs
    exact hnew _ _ (Nat.le_refl _) ht
  · exact hQ.1 t source hs

theorem setupHead_cases (h : Returns (setupHead env pred proc) s out s') :
    ∃ parts : WitnessParts pred, WitnessedHead pred proc s out s' parts := by
  simp only [setupHead, returns_bind, returns_modify, returns_pure] at h
  obtain ⟨ed, s₁, h₁, ud, s₂, h₂, _, s₃, h₃, ut, s₄, h₄, et, s₅, h₅, _, _, rfl, rfl, rfl⟩ := h
  obtain ⟨hed, had⟩ := mapM_adds (fun c s v s' h => ⟨(returns_newDictionary.1 h).1, _,
    (returns_newDictionary.1 h).2⟩) h₁
  obtain ⟨hud, hadvances, hud_new⟩ := mapM_record WitnessState.Advances.growing
    (fun c s v s' h => newDictionary_record h) h₂
  have hg₂ := hadvances.toGrows
  -- The check that every variable is located puts nothing on record.
  have hg₃ : s₂.Grows s₃ := (checkLocated_records h₃).grows (.refl _) (by simp) (by simp)
  obtain ⟨hut, hg₄, hut_new⟩ := mapM_record WitnessState.Grows.growing (fun v s var s' h => by
    simp only [returns_bind, returns_get, returns_newTypeInfo, returns_putTypeInfo,
      returns_pure] at h
    obtain ⟨_, s, ⟨rfl, rfl⟩, _, _, ⟨rfl, rfl⟩, _, _, rfl, rfl, rfl⟩ := h
    exact newTypeInfo_put ..) h₄
  obtain ⟨het, hat⟩ := mapM_adds (fun v s var s' h => by
    simp only [returns_bind, returns_get, returns_newTypeInfo] at h
    obtain ⟨_, s, ⟨rfl, rfl⟩, rfl, rfl⟩ := h
    exact ⟨rfl, _, rfl⟩) h₅
  have hg₁₃ := (had.grows.trans hg₂).trans hg₃
  have hg₁₅ := hg₁₃.trans (hg₄.trans hat.grows)
  let parts : WitnessParts pred := ⟨ud, ed, ut, et, hud, hed, hut, het⟩
  have hnew : parts.In fun type v => s.vars.size ≤ v.index ∧ s₅.vars.type v = .ok type := by
    -- Each group of variables is newer than what was there before its own step,
    -- and the later steps leave its types as they are.
    constructor
    · intro v hv
      rcases mem_append.1 hv with hv | hv
      · exact ⟨Nat.le_trans had.grows.vars.size_le (hud_new v hv).1,
          (hg₃.trans (hg₄.trans hat.grows)).vars.type_eq (hud_new v hv).2⟩
      · exact ⟨(had.new v hv).1,
          ((hg₂.trans hg₃).trans (hg₄.trans hat.grows)).vars.type_eq (had.new v hv).2⟩
    · intro v hv
      rcases mem_append.1 hv with hv | hv
      · exact ⟨Nat.le_trans hg₁₃.vars.size_le (hut_new v hv).1,
          hat.grows.vars.type_eq (hut_new v hv).2⟩
      · exact ⟨Nat.le_trans (hg₁₃.trans hg₄).vars.size_le (hat.new v hv).1, (hat.new v hv).2⟩
  refine ⟨parts, rfl, congrArg (· ++ proc.modes) parts.modes_eq, rfl, rfl, rfl,
    ⟨hg₁₅.vars, hg₁₅.records, fun v hv => ?_, hg₁₅.blank⟩, hnew⟩
  rcases VarSet.mem_insertMany.1 hv with hv | hv
  · exact .inr ((show parts.In fun _ v => s.vars.size ≤ v.index from
      ⟨fun v hv => (hnew.1 v hv).1, fun v hv => (hnew.2 v hv).1⟩).of_mem hv)
  · exact hg₁₅.heads v hv

end Synth

/-! ### Procedures -/

/-- A body and the goals that follow it, as they are put together: of what does
    not depend on how a conjunction is made and quantified, it is no more than
    the sequence of its parts. -/
theorem Goal.apply_body_eq {F : Goal → β} {G : List Goal → β} (hsingle : ∀ g, F g = G [g])
    (hconjoin : ∀ gs context, F (.conjoin gs context) = G gs)
    (hrequantify : ∀ g outside, F (g.requantify outside) = F g) {g : Goal} {more : List Goal}
    {outside : VarSet} (h : body = (if more.isEmpty then g else .conjoin (g :: more) context) ∨
      body = (if more.isEmpty then g else .conjoin (g :: more) context).requantify outside) :
    F body = G (g :: more) := by
  have hjoined : F (if more.isEmpty then g else .conjoin (g :: more) context) = G (g :: more) := by
    cases more with
    | nil => exact hsingle g
    | cons k ks => exact hconjoin (g :: k :: ks) context
  rcases h with rfl | rfl
  · exact hjoined
  · rw [hrequantify, hjoined]

/-- Assignments of one list of variables to another. -/
def Goal.assigns (targets sources : List ProgVar) (context : Context) : List Goal :=
  (targets.zip sources).map fun (target, source) => .assign target source context

namespace Synth

theorem produceExistentials_cases {declared : List ProgVar} {goals : List Goal}
    (h : Returns (produceExistentials env pred declared out context) s goals s') :
    goals = [] ∧ s' = s ∨ ∃ dicts infos goals₁ goals₂ s₁,
      Serves context s dicts [] goals₁ s₁ ∧ Serves context s₁ infos [] goals₂ s' ∧
      dicts.length = pred.constraints.existential.length ∧ infos.length = out.existVars.length ∧
      goals = goals₁ ++ Goal.assigns out.existDictionaries dicts context ++ goals₂ ++
        Goal.assigns out.existTypeInfos infos context := by
  simp only [produceExistentials] at h
  split at h
  · exact .inl (returns_pure.1 h)
  · simp only [returns_bind, returns_varTypes] at h
    obtain ⟨actual, s, ⟨-, rfl⟩, h⟩ := h
    -- Without a substitution of its own, a unification predicate goes on with the empty one.
    split at h
    case h_3 => simp at h
    all_goals
      simp only [returns_bind, returns_ofOption, returns_pure] at h
      obtain ⟨_, _, ⟨rfl, rfl⟩, cs, _, ⟨hcs, rfl⟩, ⟨dicts, goals₁⟩, _, h₁, types, s₁, ⟨hts, rfl⟩,
        ⟨infos, goals₂⟩, _, h₂, rfl, rfl⟩ := h
      refine .inr ⟨dicts, infos, goals₁, goals₂, s₁, (dictionaries_provides h₁).serves (by simp),
        (typeInfos_provides h₂).serves (by simp), ?_, ?_, rfl⟩
      · rw [length_dictionaries h₁, (mapM_eq_some_iff.1 hcs).length_eq]
      · rw [length_typeInfos h₂, (mapM_eq_some_iff.1 hts).length_eq]

/-- The body of a procedure gets its witnesses and then those that it has to
    bind; it may be quantified anew. -/
theorem procedure_cases (h : Returns (procedure env pred proc) s (out, body) s') :
    ∃ s₁, Returns (setupHead env pred proc) s out s₁ ∧
      (pred.status = .imported ∧ body = proc.body ∧ s' = s₁ ∨
      pred.status ≠ .imported ∧ ∃ g s₂ existentials, Returns (goal env proc.body) s₁ g s₂ ∧
        Returns (produceExistentials env pred proc.head out proc.body.info.context) s₂
          existentials s' ∧
        ∃ g', (g' = if existentials.isEmpty then g
            else .conjoin (g :: existentials) proc.body.info.context) ∧
          (body = g' ∨ body = g'.requantify (.ofList out.head))) := by
  simp only [procedure, returns_bind] at h
  obtain ⟨out', s₁, h₁, h⟩ := h
  split at h
  · -- An imported procedure keeps its body.
    next himp =>
    simp only [returns_pure, Prod.mk.injEq] at h
    obtain ⟨⟨rfl, rfl⟩, rfl⟩ := h
    exact ⟨_, h₁, .inl ⟨himp, rfl, rfl⟩⟩
  · next himp =>
    simp only [returns_bind, returns_get] at h
    obtain ⟨g, s₂, h₂, existentials, _, h₃, _, _, ⟨rfl, rfl⟩, h⟩ := h
    split at h
    · simp only [returns_pure, Prod.mk.injEq] at h
      obtain ⟨⟨rfl, rfl⟩, rfl⟩ := h
      exact ⟨s₁, h₁, .inr ⟨himp, g, s₂, existentials, h₂, h₃, _, rfl, .inl rfl⟩⟩
    · simp only [returns_pure, Prod.mk.injEq] at h
      obtain ⟨⟨rfl, rfl⟩, rfl⟩ := h
      exact ⟨s₁, h₁, .inr ⟨himp, g, s₂, existentials, h₂, h₃, _, rfl, .inr rfl⟩⟩

theorem produceExistentials_grows {declared : List ProgVar} {goals : List Goal}
    (h : Returns (produceExistentials env pred declared out context) s goals s') : s.Grows s' := by
  rcases produceExistentials_cases h with ⟨-, rfl⟩ | ⟨_, _, _, _, _, hm₁, hm₂, -⟩
  · exact .refl _
  · exact (hm₁.advances.trans hm₂.advances).toGrows

theorem procedure_head (h : Returns (procedure env pred proc) s (out, body) s') :
    ∃ s₁, ∃ parts : WitnessParts pred, WitnessedHead pred proc s out s₁ parts ∧ s₁.Grows s' := by
  obtain ⟨s₁, hhead, hrest⟩ := procedure_cases h
  obtain ⟨parts, hparts⟩ := setupHead_cases hhead
  refine ⟨s₁, parts, hparts, ?_⟩
  obtain ⟨-, -, rfl⟩ | ⟨-, g, s₂, existentials, hg, hex, -⟩ := hrest
  · exact .refl _
  · exact (goal_grows proc.body hg).trans (produceExistentials_grows hex)

end Synth

end

/-! ### Declarations -/

theorem Predicate.procs_setProc (p : Predicate) (i : ProcId) (proc : Procedure) (j : Nat) :
    (p.setProc i proc).procs[j]? =
      if i.index = j then p.procs[j]?.map fun _ => proc else p.procs[j]? := by
  show (p.procs.setIfInBounds i.index proc)[j]? = _
  rw [Array.getElem?_setIfInBounds]
  split
  · next h =>
    subst h
    by_cases hlt : i.index < p.procs.size <;> simp [hlt]
  · rfl

/-- Two states of a predicate that declare the same: only the scope may have
    been added to, and the procedures changed, whose modes may have come to
    have others in front. -/
structure Predicate.SameDecl (p q : Predicate) : Prop where
  decl : q = { p with scope := q.scope, procs := q.procs }
  size : q.procs.size = p.procs.size
  modes : ∀ (i : Nat) (k k' : Procedure), p.procs[i]? = some k → q.procs[i]? = some k' →
    k.modes <:+ k'.modes

namespace Predicate.SameDecl

variable {r : Predicate}

theorem refl (p : Predicate) : p.SameDecl p := by
  refine ⟨rfl, rfl, fun i k k' hk hk' => ?_⟩
  rw [hk, Option.some.injEq] at hk'
  exact hk' ▸ suffix_refl _

section

variable (h : p.SameDecl q)

include h

theorem trans (h' : q.SameDecl r) : p.SameDecl r := by
  refine ⟨?_, h'.size.trans h.size, fun i k k' hk hk' => ?_⟩
  · conv => lhs; rw [h'.decl, h.decl]
  · have hlt : i < q.procs.size := h.size ▸ (Array.getElem?_eq_some_iff.1 hk).1
    have hq : q.procs[i]? = some q.procs[i] := Array.getElem?_eq_getElem hlt
    exact (h.modes i k _ hk hq).trans (h'.modes i _ k' hq hk')

theorem isExempt_eq : q.isExempt = p.isExempt := by
  rw [h.decl]
  rfl

theorem argTypes_eq : q.argTypes = p.argTypes := by rw [h.decl]

theorem status_eq : q.status = p.status := by rw [h.decl]

theorem witnessCount_eq : q.witnessCount = p.witnessCount := by
  rw [h.decl]
  rfl

theorem witnessModes_eq : q.witnessModes = p.witnessModes := by
  rw [h.decl]
  rfl

theorem witnessTypes_eq : q.witnessTypes = p.witnessTypes := by
  rw [h.decl]
  rfl

end

theorem setProc {i : ProcId} {proc proc' : Procedure} {scope : TypeScope}
    (hproc : p.procs[i.index]? = some proc) (hmodes : proc.modes <:+ proc'.modes) :
    p.SameDecl ({ p with scope }.setProc i proc') := by
  refine ⟨rfl, by simp [Predicate.setProc], fun j k k' hk hk' => ?_⟩
  have hk' : (if i.index = j then p.procs[j]?.map fun _ => proc' else p.procs[j]?) = some k' := by
    rw [← hk', procs_setProc]
  split at hk'
  · next hij =>
    subst hij
    rw [hproc, Option.some.injEq] at hk
    rw [hproc, Option.map_some, Option.some.injEq] at hk'
    rwa [← hk, ← hk']
  · rw [hk, Option.some.injEq] at hk'
    exact hk' ▸ suffix_refl _

end Predicate.SameDecl

namespace Module

variable {m m₁ m' : Module} {r r' : ProcRef}

/-- The procedure that a reference names. -/
def procAt? (m : Module) (r : ProcRef) : Option Procedure := (m.findProc? r).map Prod.snd

theorem procAt?_eq : m.procAt? r = (m.findPred? r.pred).bind fun p => p.procs[r.proc.index]? := by
  rw [procAt?, findProc?]
  cases m.findPred? r.pred with
  | none => rfl
  | some p => cases h : p.procs[r.proc.index]? <;> simp [h]

/-- Two states of a module that declare the same. -/
structure SameDecls (m m' : Module) : Prop where
  rest : m' = { m with preds := m'.preds }
  size : m'.preds.size = m.preds.size
  preds : ∀ i p q, m.findPred? i = some p → m'.findPred? i = some q → p.SameDecl q

theorem SameDecls.refl (m : Module) : m.SameDecls m := by
  refine ⟨rfl, rfl, fun i p q hp hq => ?_⟩
  rw [hp, Option.some.injEq] at hq
  exact hq ▸ .refl p

/-- A predicate that is declared stays declared. -/
theorem SameDecls.findPred? (h : m.SameDecls m') (hp : m.findPred? i = some p) :
    ∃ q, m'.findPred? i = some q ∧ p.SameDecl q := by
  obtain ⟨hlt, -⟩ := Array.getElem?_eq_some_iff.1 hp
  have hlt' : i.index < m'.preds.size := by rwa [h.size]
  have hq : m'.findPred? i = some m'.preds[i.index] := Array.getElem?_eq_getElem hlt'
  exact ⟨_, hq, h.preds i p _ hp hq⟩

theorem SameDecls.of_findPred? (h : m.SameDecls m') (hq : m'.findPred? i = some q) :
    ∃ p, m.findPred? i = some p ∧ p.SameDecl q := by
  obtain ⟨hlt, -⟩ := Array.getElem?_eq_some_iff.1 hq
  have hlt' : i.index < m.preds.size := h.size ▸ hlt
  have hp : m.findPred? i = some m.preds[i.index] := Array.getElem?_eq_getElem hlt'
  exact ⟨_, hp, h.preds i _ q hp hq⟩

theorem SameDecls.trans (h : m.SameDecls m₁) (h' : m₁.SameDecls m') : m.SameDecls m' := by
  refine ⟨?_, h'.size.trans h.size, fun i p q hp hq => ?_⟩
  · conv => lhs; rw [h'.rest, h.rest]
  · obtain ⟨p₁, hp₁, hd⟩ := h.findPred? hp
    exact hd.trans (h'.preds i p₁ q hp₁ hq)

theorem pred_eq_ok : m.pred i = .ok p ↔ m.findPred? i = some p := by
  unfold pred
  cases m.findPred? i <;> simp

theorem proc_eq_ok {p : Predicate × Procedure} : m.proc r = .ok p ↔ m.findProc? r = some p := by
  unfold proc
  cases m.findProc? r <;> simp

theorem findProc?_eq_some {p : Predicate × Procedure} :
    m.findProc? r = some p ↔
      m.findPred? r.pred = some p.1 ∧ p.1.procs[r.proc.index]? = some p.2 := by
  rw [findProc?]
  cases m.findPred? r.pred with
  | none => simp
  | some q =>
    cases hq : q.procs[r.proc.index]? with
    | none =>
      simp only [Option.bind_eq_bind, Option.bind_some, hq, Option.bind_none, reduceCtorEq,
        Option.some.injEq, false_iff, not_and]
      rintro rfl h
      rw [hq] at h
      cases h
    | some proc =>
      simp only [Option.bind_eq_bind, Option.bind_some, hq, Option.pure_def, Option.some.injEq]
      constructor
      · rintro rfl
        exact ⟨rfl, hq⟩
      · rintro ⟨rfl, h⟩
        rw [hq, Option.some.injEq] at h
        rw [h]

theorem findPred?_setPred (m : Module) (i j : PredId) (p : Predicate) :
    (m.setPred i p).findPred? j =
      if i = j then (m.findPred? j).map fun _ => p else m.findPred? j := by
  show (m.preds.setIfInBounds i.index p)[j.index]? = _
  rw [Array.getElem?_setIfInBounds]
  by_cases hij : i = j
  · subst hij
    by_cases hlt : i.index < m.preds.size
    · simp [findPred?, hlt]
    · simp [findPred?, hlt]
  · have : i.index ≠ j.index := fun h => hij (by cases i; cases j; exact congrArg _ h)
    rw [if_neg this, if_neg hij, findPred?]

theorem SameDecls.setPred (hp : m.findPred? i = some p) (h : p.SameDecl q) :
    m.SameDecls (m.setPred i q) := by
  refine ⟨rfl, by simp [Module.setPred], fun j p' q' hp' hq' => ?_⟩
  rw [findPred?_setPred] at hq'
  split at hq'
  · next hij =>
    subst hij
    rw [hp, Option.some.injEq] at hp'
    rw [hp, Option.map_some, Option.some.injEq] at hq'
    rwa [← hp', ← hq']
  · rw [hp', Option.some.injEq] at hq'
    exact hq' ▸ .refl p'

theorem procAt?_setProc {proc proc' : Procedure} {scope : TypeScope}
    (hp : m.findPred? r.pred = some p) (hproc : p.procs[r.proc.index]? = some proc) :
    (m.setPred r.pred ({ p with scope }.setProc r.proc proc')).procAt? r' =
      if r' = r then some proc' else m.procAt? r' := by
  rw [procAt?_eq, procAt?_eq, findPred?_setPred]
  by_cases hpred : r.pred = r'.pred
  · rw [if_pos hpred, ← hpred, hp, Option.map_some, Option.bind_some, Option.bind_some,
      procs_setProc]
    by_cases hindex : r.proc.index = r'.proc.index
    · obtain rfl : r' = r := by
        obtain ⟨⟨i⟩, ⟨j⟩⟩ := r
        obtain ⟨⟨i'⟩, ⟨j'⟩⟩ := r'
        simp only [PredId.mk.injEq] at hpred hindex
        rw [hpred, hindex]
      rw [if_pos rfl, if_pos rfl, hproc, Option.map_some]
    · rw [if_neg hindex, if_neg]
      rintro rfl
      exact hindex rfl
  · rw [if_neg hpred, if_neg]
    rintro rfl
    exact hpred rfl

/-! ### One procedure after the other -/

theorem except_bind_eq_ok {ε : Type} {x : Except ε α} {f : α → Except ε β} {b : β} :
    (x >>= f) = .ok b ↔ ∃ a, x = .ok a ∧ f a = .ok b := by
  cases x with
  | error e => simp [bind, Except.bind]
  | ok a => simp [bind, Except.bind]

/-- What becomes of a procedure, in some state of the module that declares the
    same. -/
structure Changes (m : Module) (r : ProcRef) (proc : Procedure) (env : Module)
    (pred : Predicate) (out : WitnessHead) (body : Goal) (s : WitnessState) : Prop where
  decls : m.SameDecls env
  pred_found : env.findPred? r.pred = some pred
  returns : Synth.Returns (Synth.procedure ⟨env, pred.describe⟩ pred proc) (.ofProc pred proc)
    (out, body) s

/-- A procedure with what has become of it. -/
def changed (proc : Procedure) (out : WitnessHead) (body : Goal) (s : WitnessState) : Procedure :=
  { proc with
    vars := s.vars, head := out.head, modes := out.modes, body, witnesses := s.witnesses }

theorem addProcWitnesses_cases (h : m.addProcWitnesses r = .ok m₁) :
    ∃ pred proc out body s, m.procAt? r = some proc ∧ Changes m r proc m pred out body s ∧
      m₁ = m.setPred r.pred ({ pred with scope := s.scope }.setProc r.proc
        (changed proc out body s)) := by
  simp only [addProcWitnesses, except_bind_eq_ok] at h
  obtain ⟨⟨pred, proc⟩, hproc, ⟨⟨out, body⟩, s⟩, hrun, heq⟩ := h
  rw [proc_eq_ok] at hproc
  cases heq
  exact ⟨pred, proc, out, body, s, by rw [procAt?, hproc]; rfl,
    ⟨.refl m, (findProc?_eq_some.1 hproc).1, hrun⟩, rfl⟩

theorem addProcWitnesses_spec (h : m.addProcWitnesses r = .ok m₁) :
    m.SameDecls m₁ ∧ (∀ r', r' ≠ r → m₁.procAt? r' = m.procAt? r') ∧
      ∃ pred proc out body s, m.procAt? r = some proc ∧ Changes m r proc m pred out body s ∧
        m₁.procAt? r = some (changed proc out body s) := by
  obtain ⟨pred, proc, out, body, s, hproc, hc, rfl⟩ := addProcWitnesses_cases h
  have hget : pred.procs[r.proc.index]? = some proc := by
    rwa [procAt?_eq, hc.pred_found, Option.bind_some] at hproc
  obtain ⟨_, parts, hparts, -⟩ := Synth.procedure_head hc.returns
  refine ⟨.setPred hc.pred_found (.setProc hget ⟨_, hparts.modes.symm⟩), fun r' hr' => ?_,
    pred, proc, out, body, s, hproc, hc, ?_⟩
  · rw [procAt?_setProc hc.pred_found hget, if_neg hr']
  · rw [procAt?_setProc hc.pred_found hget, if_pos rfl]

theorem foldlM_addProcWitnesses (h : rs.foldlM addProcWitnesses m = .ok m') :
    m.SameDecls m' ∧ ∀ r, r ∉ rs → m'.procAt? r = m.procAt? r := by
  induction rs generalizing m with
  | nil =>
    cases h
    exact ⟨.refl _, fun _ _ => rfl⟩
  | cons r rs ih =>
    rw [foldlM_cons, except_bind_eq_ok] at h
    obtain ⟨m₁, h₁, h₂⟩ := h
    obtain ⟨hd₁, hne, -⟩ := addProcWitnesses_spec h₁
    obtain ⟨hd₂, hrest⟩ := ih h₂
    refine ⟨hd₁.trans hd₂, fun r' hr' => ?_⟩
    rw [hrest r' fun hmem => hr' (mem_cons_of_mem _ hmem),
      hne r' fun heq => hr' (heq ▸ mem_cons_self)]

/-- A procedure that is worked on once becomes what `Changes` says. -/
theorem changes_of_mem (h : rs.foldlM addProcWitnesses m = .ok m') (hnodup : rs.Nodup)
    (hr : r ∈ rs) :
    ∃ env pred proc out body s, m.procAt? r = some proc ∧ Changes m r proc env pred out body s ∧
      m'.procAt? r = some (changed proc out body s) := by
  induction rs generalizing m with
  | nil => cases hr
  | cons r₁ rs ih =>
    rw [foldlM_cons, except_bind_eq_ok] at h
    obtain ⟨m₁, h₁, h₂⟩ := h
    obtain ⟨hd, hne, pred, proc, out, body, s, hproc, hc, hchanged⟩ := addProcWitnesses_spec h₁
    obtain ⟨hnot, hnodup⟩ := nodup_cons.1 hnodup
    rcases mem_cons.1 hr with rfl | hmem
    · refine ⟨m, pred, proc, out, body, s, hproc, hc, ?_⟩
      rw [(foldlM_addProcWitnesses h₂).2 r hnot, hchanged]
    · obtain ⟨env, pred, proc, out, body, s, hproc, hc, hchanged⟩ := ih h₂ hnodup hmem
      have hr₁ : r ≠ r₁ := fun heq => hnot (heq ▸ hmem)
      exact ⟨env, pred, proc, out, body, s, (hne r hr₁) ▸ hproc,
        ⟨hd.trans hc.decls, hc.pred_found, hc.returns⟩, hchanged⟩

theorem nodup_allProcs (m : Module) : m.allProcs.Nodup := by
  rw [allProcs, nodup_flatMap]
  constructor
  · rintro ⟨p, i⟩ _
    refine List.Nodup.map (fun j j' h => ?_) nodup_range
    cases h
    rfl
  · refine List.Pairwise.imp (R := fun p q => p.2 ≠ q.2) (fun {p q} hne => ?_) ?_
    · intro r hr hr'
      obtain ⟨j, -, rfl⟩ := mem_map.1 hr
      obtain ⟨j', -, h⟩ := mem_map.1 hr'
      simp only [ProcRef.mk.injEq, PredId.mk.injEq] at h
      exact hne h.1.symm
    · have := nodup_range' (s := 0) (n := m.preds.toList.length)
      rw [← zipIdx_map_snd 0 m.preds.toList] at this
      exact pairwise_map.1 this

theorem mem_allProcs : r ∈ m.allProcs ↔ (m.procAt? r).isSome := by
  rw [allProcs, mem_flatMap]
  constructor
  · rintro ⟨⟨pred, i⟩, hp, hr⟩
    obtain ⟨j, hj, rfl⟩ := mem_map.1 hr
    have hpred : m.findPred? ⟨i⟩ = some pred := by
      have := mem_zipIdx_iff_getElem?.1 hp
      rwa [Array.getElem?_toList] at this
    rw [procAt?_eq, hpred, Option.bind_some]
    simpa using hj
  · intro hproc
    rw [procAt?_eq] at hproc
    cases hpred : m.findPred? r.pred with
    | none =>
      rw [hpred] at hproc
      cases hproc
    | some pred =>
      rw [hpred, Option.bind_some] at hproc
      refine ⟨(pred, r.pred.index), mem_zipIdx_iff_getElem?.2 ?_, mem_map.2
        ⟨r.proc.index, ?_, rfl⟩⟩
      · rwa [Array.getElem?_toList]
      · simpa using hproc

theorem nodup_witnessProcs (m : Module) : m.witnessProcs.Nodup := (nodup_allProcs m).filter _

theorem mem_witnessProcs : r ∈ m.witnessProcs ↔
    ∃ pred, m.findPred? r.pred = some pred ∧ (m.procAt? r).isSome ∧ pred.isExempt = false := by
  rw [witnessProcs, mem_filter, mem_allProcs]
  constructor
  · rintro ⟨hproc, hex⟩
    cases hpred : m.findPred? r.pred with
    | none =>
      rw [procAt?_eq, hpred] at hproc
      cases hproc
    | some pred => exact ⟨pred, rfl, hproc, by simpa [hpred] using hex⟩
  · rintro ⟨pred, hpred, hproc, hex⟩
    exact ⟨hproc, by simp [hpred, hex]⟩

/-! ### Declared types -/

theorem addWitnessTypes_cases (h : m.addWitnessTypes i = .ok m₁) :
    ∃ pred, m.findPred? i = some pred ∧
      ((pred.witnessCount = 0 ∨ pred.procs[0]? = none) ∧ m₁ = m ∨
      ∃ proc types, pred.witnessCount ≠ 0 ∧ pred.procs[0]? = some proc ∧
        proc.vars.types (proc.head.take pred.witnessCount) = .ok types ∧
        m₁ = m.setPred i { pred with argTypes := types ++ pred.argTypes }) := by
  simp only [addWitnessTypes, except_bind_eq_ok] at h
  obtain ⟨pred, hpred, h⟩ := h
  refine ⟨pred, pred_eq_ok.1 hpred, ?_⟩
  by_cases hz : pred.witnessCount = 0
  · rw [hz] at h
    cases h
    exact .inl ⟨.inl hz, rfl⟩
  · cases hproc : pred.procs[0]? with
    | none =>
      simp only [hproc] at h
      cases h
      exact .inl ⟨.inr rfl, rfl⟩
    | some proc =>
      simp only [hproc] at h
      split at h
      · cases h
      · obtain ⟨types, htypes, heq⟩ := except_bind_eq_ok.1 h
        cases heq
        exact .inr ⟨proc, types, hz, rfl, htypes, rfl⟩

/-- The types that are put in front of the declared ones: those of the first
    variables of the first procedure. -/
def AddedTypes (pred : Predicate) (types : List Ty) : Prop :=
  (pred.witnessCount = 0 ∨ pred.procs[0]? = none) ∧ types = [] ∨
    ∃ proc, pred.witnessCount ≠ 0 ∧ pred.procs[0]? = some proc ∧
      proc.vars.types (proc.head.take pred.witnessCount) = .ok types

/-- Types are put in front of the declared ones, and nothing else changes. -/
structure AddsTypes (m m' : Module) (is : List Nat) : Prop where
  rest : m' = { m with preds := m'.preds }
  size : m'.preds.size = m.preds.size
  preds : ∀ i p, m.findPred? i = some p → ∃ types,
    m'.findPred? i = some { p with argTypes := types ++ p.argTypes } ∧
      (i.index ∉ is → types = []) ∧ (i.index ∈ is → AddedTypes p types)

theorem addWitnessTypes_spec {i : Nat} (h : m.addWitnessTypes ⟨i⟩ = .ok m₁) :
    AddsTypes m m₁ [i] := by
  obtain ⟨pred, hpred, ⟨hz, rfl⟩ | ⟨proc, types, hnz, hproc, htypes, rfl⟩⟩ :=
    addWitnessTypes_cases h
  · refine ⟨rfl, rfl, fun j p hp => ⟨[], hp, fun _ => rfl, fun hj => .inl ⟨?_, rfl⟩⟩⟩
    obtain rfl : j = ⟨i⟩ := by cases j; exact congrArg _ (mem_singleton.1 hj)
    rw [hpred, Option.some.injEq] at hp
    exact hp ▸ hz
  · refine ⟨rfl, by simp [setPred], fun j p hp => ?_⟩
    rw [findPred?_setPred]
    split
    · next hj =>
      subst hj
      rw [hpred, Option.some.injEq] at hp
      subst hp
      exact ⟨types, by rw [hpred]; rfl, fun hn => absurd (mem_singleton.2 rfl) hn,
        fun _ => .inr ⟨proc, hnz, hproc, htypes⟩⟩
    · next hj =>
      refine ⟨[], hp, fun _ => rfl, fun hmem => absurd ?_ hj⟩
      cases j
      exact congrArg _ (mem_singleton.1 hmem).symm

theorem foldlM_addWitnessTypes {is : List Nat}
    (h : is.foldlM (fun (m : Module) i => m.addWitnessTypes ⟨i⟩) m = .ok m') (hn : is.Nodup) :
    AddsTypes m m' is := by
  induction is generalizing m with
  | nil =>
    cases h
    exact ⟨rfl, rfl, fun i p hp => ⟨[], hp, fun _ => rfl, fun hi => by cases hi⟩⟩
  | cons i is ih =>
    rw [foldlM_cons, except_bind_eq_ok] at h
    obtain ⟨m₁, h₁, h₂⟩ := h
    obtain ⟨hnot, hn⟩ := nodup_cons.1 hn
    have hs₁ := addWitnessTypes_spec h₁
    have hs₂ := ih h₂ hn
    refine ⟨?_, hs₂.size.trans hs₁.size, fun j p hp => ?_⟩
    · conv => lhs; rw [hs₂.rest, hs₁.rest]
    · obtain ⟨types₁, hp₁, hskip₁, hadd₁⟩ := hs₁.preds j p hp
      obtain ⟨types₂, hp₂, hskip₂, hadd₂⟩ := hs₂.preds j _ hp₁
      by_cases hj : j.index = i
      · -- Worked on now and not again.
        obtain rfl := hskip₂ (hj ▸ hnot)
        exact ⟨types₁, hp₂, fun hmem => absurd (hj ▸ mem_cons_self) hmem,
          fun _ => hadd₁ (hj ▸ mem_singleton.2 rfl)⟩
      · obtain rfl := hskip₁ fun hmem => hj (mem_singleton.1 hmem)
        exact ⟨types₂, hp₂, fun hmem => hskip₂ fun h => hmem (mem_cons_of_mem _ h),
          fun hmem => hadd₂ ((mem_cons.1 hmem).resolve_left hj)⟩

theorem addWitnesses_cases (h : m.addWitnesses = .ok m') :
    ∃ m₁, m.witnessProcs.foldlM addProcWitnesses m = .ok m₁ ∧ m.SameDecls m₁ ∧
      AddsTypes m₁ m' (List.range m₁.preds.size) := by
  simp only [addWitnesses, except_bind_eq_ok] at h
  obtain ⟨m₁, h₁, h₂⟩ := h
  exact ⟨m₁, h₁, (foldlM_addProcWitnesses h₁).1, foldlM_addWitnessTypes h₂ nodup_range⟩

/-! ### Whole modules -/

/-- The head of a changed procedure: new variables, of the types that the
    declaration says, in front of the old head. -/
theorem Changes.head {proc : Procedure} {env : Module} {s : WitnessState}
    (h : Changes m r proc env pred out body s) :
    ∃ w, out.head = w ++ proc.head ∧ out.modes = pred.witnessModes ++ proc.modes ∧
      Forall₂ (fun type v => proc.vars.size ≤ v.index ∧ s.vars.type v = .ok type)
        pred.witnessTypes w := by
  obtain ⟨s₁, parts, hparts, hgrows⟩ := Synth.procedure_head h.returns
  refine ⟨parts.all, hparts.head, hparts.modes, hparts.new.forall₂.imp fun type v hv => ?_⟩
  exact ⟨hv.1, hgrows.vars.type_eq hv.2⟩

theorem AddedTypes.eq {types : List Ty} (h : AddedTypes pred types) (hne : pred.procs[0]? ≠ none)
    (hexempt : pred.isExempt = false)
    (hfirst : ∀ proc, pred.procs[0]? = some proc → ∃ w rest, proc.head = w ++ rest ∧
      Forall₂ (fun type v => proc.vars.type v = .ok type) pred.witnessTypes w) :
    types = pred.witnessTypes := by
  rcases h with ⟨hz | hnone, rfl⟩ | ⟨proc, -, hproc, htypes⟩
  · exact (length_eq_zero_iff.1 (length_witnessTypes hexempt ▸ hz)).symm
  · exact absurd hnone hne
  · obtain ⟨w, rest, hhead, hw⟩ := hfirst proc hproc
    have hl : w.length = pred.witnessCount := by
      rw [← length_witnessTypes hexempt, hw.length_eq]
    rw [hhead, take_left' hl, VarTable.types_eq_ok.2 hw.flip, Except.ok.injEq] at htypes
    exact htypes.symm

theorem changed_of_nonexempt (h : m.witnessProcs.foldlM addProcWitnesses m = .ok m₁)
    (hpred : m.findPred? r.pred = some pred) (hexempt : pred.isExempt = false) {proc' : Procedure}
    (hproc' : m₁.procAt? r = some proc') :
    ∃ proc env p out body s, m.procAt? r = some proc ∧ Changes m r proc env p out body s ∧
      pred.SameDecl p ∧ proc' = changed proc out body s := by
  by_cases hr : r ∈ m.witnessProcs
  · obtain ⟨env, p, proc, out, body, s, hproc, hc, hchanged⟩ :=
      changes_of_mem h (nodup_witnessProcs m) hr
    rw [hchanged, Option.some.injEq] at hproc'
    exact ⟨proc, env, p, out, body, s, hproc, hc,
      hc.decls.preds r.pred pred p hpred hc.pred_found, hproc'.symm⟩
  · rw [(foldlM_addProcWitnesses h).2 r hr] at hproc'
    exact absurd (mem_witnessProcs.2 ⟨pred, hpred, by rw [hproc']; rfl, hexempt⟩) hr

/-- An exempt procedure is kept, and any other gets the witnesses of its predicate. -/
theorem addWitnesses_proc (h : m.addWitnesses = .ok m') {proc : Procedure}
    (hr : m.findProc? r = some (pred, proc)) :
    ∃ pred' proc', m'.findProc? r = some (pred', proc') ∧
      (pred.isExempt = true → pred'.argTypes = pred.argTypes ∧ proc' = proc) ∧
      (pred.isExempt = false → pred'.argTypes = pred.witnessTypes ++ pred.argTypes ∧
        ∃ env p out body s, Changes m r proc env p out body s ∧ pred.SameDecl p ∧
          proc' = changed proc out body s) := by
  obtain ⟨m₁, h₁, hd, hadds⟩ := addWitnesses_cases h
  obtain ⟨hpred, hproc⟩ := findProc?_eq_some.1 hr
  obtain ⟨p₁, hp₁, hsame⟩ := hd.findPred? hpred
  obtain ⟨types, hp', -, hadd⟩ := hadds.preds r.pred p₁ hp₁
  have hadded : AddedTypes p₁ types :=
    hadd (mem_range.2 (Array.getElem?_eq_some_iff.1 hp₁).1)
  have hlt : r.proc.index < p₁.procs.size :=
    hsame.size ▸ (Array.getElem?_eq_some_iff.1 hproc).1
  have hproc₁ : p₁.procs[r.proc.index]? = some p₁.procs[r.proc.index] :=
    Array.getElem?_eq_getElem hlt
  have hat : m₁.procAt? r = some p₁.procs[r.proc.index] := by
    rw [procAt?_eq, hp₁, Option.bind_some, hproc₁]
  have hold : m.procAt? r = some proc := by rw [procAt?_eq, hpred, Option.bind_some, hproc]
  refine ⟨_, _, findProc?_eq_some.2 ⟨hp', hproc₁⟩, fun hexempt => ?_, fun hexempt => ?_⟩
  · have hnone : types = [] := by
      rcases hadded with ⟨-, rfl⟩ | ⟨_, hnz, -⟩
      · rfl
      · exact absurd (by rw [hsame.witnessCount_eq, Predicate.witnessCount, if_pos hexempt]) hnz
    have hnot : r ∉ m.witnessProcs := by
      intro hmem
      obtain ⟨p, hp, -, hex⟩ := mem_witnessProcs.1 hmem
      rw [hpred, Option.some.injEq] at hp
      rw [← hp, hexempt] at hex
      cases hex
    rw [(foldlM_addProcWitnesses h₁).2 r hnot, hold, Option.some.injEq] at hat
    exact ⟨by rw [hnone, nil_append, hsame.argTypes_eq], hat.symm⟩
  · -- The types in front are read off the head of the first procedure, which has
    -- been through the pass as well.
    constructor
    · rw [← hsame.witnessTypes_eq, ← hsame.argTypes_eq]
      refine congrArg (· ++ _) (hadded.eq ?_ (hsame.isExempt_eq ▸ hexempt) fun proc₀ hproc₀ => ?_)
      · rw [Array.getElem?_eq_getElem (Nat.zero_lt_of_lt hlt)]
        exact Option.some_ne_none _
      · have hat₀ : m₁.procAt? ⟨r.pred, ⟨0⟩⟩ = some proc₀ := by
          rw [procAt?_eq, hp₁, Option.bind_some, hproc₀]
        obtain ⟨old, env, q, out, body, s, -, hc, hq, rfl⟩ :=
          changed_of_nonexempt (r := ⟨r.pred, ⟨0⟩⟩) h₁ hpred hexempt hat₀
        obtain ⟨w, hhead, -, hw⟩ := hc.head
        rw [hsame.witnessTypes_eq, ← hq.witnessTypes_eq]
        exact ⟨w, _, hhead, hw.imp fun _ _ hv => hv.2⟩
    · obtain ⟨old, env, q, out, body, s, hold', hc, hq, heq⟩ :=
        changed_of_nonexempt h₁ hpred hexempt hat
      rw [hold, Option.some.injEq] at hold'
      exact ⟨env, q, out, body, s, hold' ▸ hc, hq, hold' ▸ heq⟩

theorem findProc?_of_addWitnesses (h : m.addWitnesses = .ok m') {p' : Predicate × Procedure}
    (hr : m'.findProc? r = some p') : ∃ pred proc, m.findProc? r = some (pred, proc) := by
  obtain ⟨m₁, -, hd, hadds⟩ := addWitnesses_cases h
  obtain ⟨hpred', hproc'⟩ := findProc?_eq_some.1 hr
  have hlt : r.pred.index < m.preds.size := by
    rw [← hd.size, ← hadds.size]
    exact (Array.getElem?_eq_some_iff.1 hpred').1
  have hpred : m.findPred? r.pred = some m.preds[r.pred.index] := Array.getElem?_eq_getElem hlt
  obtain ⟨p₁, hp₁, hsame⟩ := hd.findPred? hpred
  obtain ⟨types, hp', -⟩ := hadds.preds r.pred p₁ hp₁
  rw [hp', Option.some.injEq] at hpred'
  rw [← hpred'] at hproc'
  have hlt' := (Array.getElem?_eq_some_iff.1 hproc').1
  rw [hsame.size] at hlt'
  exact ⟨_, _, findProc?_eq_some.2 ⟨hpred, Array.getElem?_eq_getElem hlt'⟩⟩

end Module

end Clausal
