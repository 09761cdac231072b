import Clausal.Proofs.Requantification

/-!
# Code without type variables

Nothing is done to code that needs no witnesses. Bodies are rebuilt goal by goal,
and come out as they were as long as nothing is on record: no goal has come to
share witnesses with its outside, and conjunctions have no conjunctions to take in.
-/

namespace Clausal

open List Goal

variable {m m' : Module} {vars : VarTable} {g g' : Goal} {gs : List Goal} {pred : Predicate}
  {proc : Procedure} {id : PredId}

/-- A goal needs no witnesses itself, and has no conjuncts to take in. -/
def Goal.NeedsNone (m : Module) (vars : VarTable) : Goal → Prop
  | .conj _ .plain gs => ∀ k ∈ gs, k.conjuncts = [k]
  | .call _ callee _ _ => (m.findPred? callee.pred).all (·.witnessCount = 0)
  | .foreign _ code => (m.findPred? code.callee.pred).all (·.witnessCount = 0)
  | .genericCall _ callee _ _ => ∃ v, callee = .closure v
  | .lambda info _ head _ _ => ∀ v ∈ head.captured, v ∈ info.nonlocals
  | .unify _ lhs (.var _) (.complicated _ infos) =>
    infos = [] ∧ ∀ t, vars.type lhs = .ok t → t.typeVars = []
  | .unify info lhs (.functor f args) kind =>
    (Goal.unify info lhs (.functor f args) kind).isPlain m vars
  | _ => True

/-- Neither a goal nor the goals in it need witnesses. -/
inductive Goal.Monomorphic (m : Module) (vars : VarTable) : Goal → Prop
  | intro {g : Goal} (here : g.NeedsNone m vars) (parts : ∀ c ∈ g.parts, Monomorphic m vars c) :
      Monomorphic m vars g

/-- Neither the declaration nor the bodies of a predicate need witnesses. -/
structure Predicate.Monomorphic (m : Module) (p : Predicate) : Prop where
  argTypes : Ty.typeVarsList p.argTypes = []
  constraints : p.constraints = {}
  existVars : p.existVars = []
  witnesses : ∀ proc ∈ p.procs, proc.witnesses = {}
  bodies : ∀ proc ∈ p.procs, proc.body.Monomorphic m proc.vars

theorem Goal.Monomorphic.of_mem_conjuncts (h : g.Monomorphic m vars) :
    ∀ k ∈ g.conjuncts, k.Monomorphic m vars ∧ k.conjuncts = [k] := by
  obtain ⟨here, parts⟩ := h
  have hself : g.conjuncts = [g] → ∀ k ∈ g.conjuncts, k.Monomorphic m vars ∧ k.conjuncts = [k] := by
    intro hg k hk
    rw [hg, mem_singleton] at hk
    exact hk ▸ ⟨.intro here parts, hg⟩
  cases g with
  | conj i kind gs =>
    cases kind with
    | plain => exact fun k hk => ⟨parts k hk, here k hk⟩
    | parallel => exact hself rfl
  | _ => exact hself rfl

/-- Conjunctions are put together so that they have no conjunctions to take in. -/
theorem Goal.Monomorphic.conjoin (h : ∀ g ∈ gs, g.Monomorphic m vars) (context : Context) :
    (conjoin gs context).Monomorphic m vars := by
  have hall : ∀ k ∈ gs.flatMap conjuncts, k.Monomorphic m vars ∧ k.conjuncts = [k] := by
    intro k hk
    obtain ⟨g, hg, hk⟩ := mem_flatMap.1 hk
    exact (h g hg).of_mem_conjuncts k hk
  rw [Goal.conjoin]
  split
  · next g hg => exact (hall g (hg ▸ mem_singleton_self g)).1
  · exact .intro (fun k hk => (hall k hk).2) fun k hk => (hall k hk).1

/-- A goal with its own parts and its own non-local variables is itself. -/
theorem Goal.Refilled.eq_self {nonlocals : VarSet} (h : g.Refilled nonlocals gs g')
    (hgs : gs = g.parts) (hnonlocals : nonlocals = g.info.nonlocals) (hg : g.NeedsNone m vars) :
    g' = g := by
  subst hnonlocals
  cases h with
  | @conj i k =>
    subst hgs
    cases k with
    | plain => exact congrArg (Goal.conj i .plain) (flatMap_conjuncts hg)
    | parallel => rfl
  | switch hsymbols =>
    congr 1
    exact (zip_of_prod hsymbols hgs).trans (zip_of_prod rfl rfl).symm
  | _ => cases hgs; rfl

namespace Synth

variable {env : WitnessEnv} {s s' : WitnessState} {out : WitnessHead}

theorem addWitnesses_of_mem {info : GoalInfo} {vs : List ProgVar}
    (h : ∀ v ∈ vs, v ∈ info.nonlocals) : addWitnesses info vs [] = info := by
  have : info.nonlocals.insertMany vs = info.nonlocals :=
    VarSet.ext fun v => by simpa using h v
  rw [addWitnesses, this]
  rfl

theorem absorb_none (hs : ∀ v, s.isOuterWitness v = false) (vars : VarSet) (g : Goal) :
    vars ∪ g.info.nonlocals.filter s.isOuterWitness = vars :=
  VarSet.ext fun v => by simp [hs v]

theorem goals_kept {vars : VarSet} {r : List Goal × VarSet} (hs : ∀ v, s.isOuterWitness v = false)
    (ih : ∀ c ∈ gs, ∀ {g' s'}, Returns (goal env c) s g' s' → g' = c ∧ s' = s)
    (h : Returns (goals env vars gs) s r s') : r = (gs, vars) ∧ s' = s := by
  induction gs generalizing r s' with
  | nil => exact returns_pure.1 (goals.eq_1 env vars ▸ h)
  | cons g gs ih' =>
    simp only [goals, returns_bind, returns_absorb, returns_pure] at h
    obtain ⟨g', _, hg, _, _, ⟨rfl, rfl⟩, r', _, hgs, rfl, rfl⟩ := h
    obtain ⟨rfl, rfl⟩ := ih g mem_cons_self hg
    rw [absorb_none hs] at hgs
    obtain ⟨rfl, rfl⟩ := ih' (fun c hc => ih c (mem_cons_of_mem _ hc)) hgs
    exact ⟨rfl, rfl⟩

theorem unifyGoal_kept {info : GoalInfo} {lhs : ProgVar} {rhs : UnifyRhs} {kind : Unification}
    (hd : m.SameDecls env.env) (hneeds : (Goal.unify info lhs rhs kind).NeedsNone m s.vars)
    (h : Returns (unifyGoal env info lhs rhs kind) s g' s') :
    g' = .unify info lhs rhs kind ∧ s' = s := by
  cases rhs with
  | var rhs =>
    cases kind with
    | complicated canFail infos =>
      obtain ⟨rfl, hground⟩ := hneeds
      simp only [unifyGoal, returns_bind, returns_get, returns_lift, returns_pure] at h
      obtain ⟨_, _, ⟨rfl, rfl⟩, t, _, ⟨ht, rfl⟩, infos, _, hinfos, rfl, rfl⟩ := h
      rw [hground t ht, mapM_nil] at hinfos
      obtain ⟨rfl, rfl⟩ := returns_pure.1 hinfos
      exact ⟨rfl, rfl⟩
    | _ => exact returns_pure.1 h
  | functor f args => exact unifyGoal_functor_plain hd hneeds (fun _ => id) h

/-- Where nothing is on record, a goal that needs no witnesses stays as it is. -/
theorem goal_kept (hd : m.SameDecls env.env) (hs : ∀ v, s.isOuterWitness v = false)
    (hg : g.Monomorphic m s.vars) :
    ∀ {g' s'}, Returns (goal env g) s g' s' → g' = g ∧ s' = s := by
  induction hg with
  | @intro g here _ ih =>
  intro g' s' h
  cases g with
  | conj | disj | switch | negation | scope | ite =>
    obtain ⟨gs', _, hr, hfill⟩ := returns_compound rfl h
    obtain ⟨heq, rfl⟩ := goals_kept hs ih hr
    cases heq
    exact ⟨hfill.eq_self rfl rfl here, rfl⟩
  | lambda i lhs head body kind =>
    simp only [goal, returns_bind, lambdaGoal, returns_get, returns_pure] at h
    obtain ⟨_, _, hb, _, _, ⟨rfl, rfl⟩, rfl, rfl⟩ := h
    obtain ⟨rfl, rfl⟩ := ih body mem_cons_self hb
    simp only [hs, Bool.and_false, filter_false, append_nil, addWitnesses_of_mem here, and_self]
  | call =>
    rw [goal] at h
    obtain ⟨_, hp, ⟨-, rfl, rfl⟩ | ⟨hnz, -⟩⟩ := callGoal_cases h
    · exact ⟨rfl, rfl⟩
    · exact absurd (hd.takesNone here hp) hnz
  | foreign =>
    rw [goal] at h
    obtain ⟨_, hp, ⟨-, rfl, rfl⟩ | ⟨hnz, -⟩⟩ := foreignGoal_cases h
    · exact ⟨rfl, rfl⟩
    · exact absurd (hd.takesNone here hp) hnz
  | genericCall =>
    obtain ⟨v, rfl⟩ := here
    rw [goal] at h
    exact returns_pure.1 h
  | unify => exact unifyGoal_kept hd here (by rwa [goal] at h)

theorem setupHead_kept (hpred : pred.Monomorphic m)
    (h : Returns (setupHead env pred proc) s out s') :
    out = ⟨proc.head, proc.modes, [], [], []⟩ ∧ s' = s := by
  have hvars : pred.bareTypeVars = ([], []) := by
    simp [Predicate.bareTypeVars, hpred.argTypes]
  simp only [setupHead, hvars, hpred.constraints, mapM_nil, returns_bind, returns_pure,
    returns_modify, checkLocated, returns_get, forIn_nil] at h
  obtain ⟨_, _, ⟨rfl, rfl⟩, _, _, ⟨rfl, rfl⟩, _, _, ⟨_, _, ⟨-, rfl⟩, _, _, ⟨-, rfl⟩, -, rfl⟩, _, _,
    ⟨rfl, rfl⟩, _, _, ⟨rfl, rfl⟩, _, _, rfl, rfl, rfl⟩ := h
  exact ⟨rfl, rfl⟩

/-- A procedure that needs no witnesses is kept as it is. -/
theorem procedure_kept {body : Goal} (hd : m.SameDecls env.env) (hpred : pred.Monomorphic m)
    (hproc : proc ∈ pred.procs)
    (h : Returns (procedure env pred proc) (.ofProc pred proc) (out, body) s') :
    Module.changed proc out body s' = proc ∧ s'.scope = pred.scope := by
  have hs : ∀ v, (WitnessState.ofProc pred proc).isOuterWitness v = false := by
    intro v
    rw [WitnessState.isOuterWitness, WitnessState.ofProc, hpred.witnesses proc hproc]
    rfl
  simp only [procedure, returns_bind] at h
  obtain ⟨out', s₁, h₁, h⟩ := h
  obtain ⟨rfl, rfl⟩ := setupHead_kept hpred h₁
  split at h
  · obtain ⟨heq, rfl⟩ := returns_pure.1 h
    cases heq
    exact ⟨rfl, rfl⟩
  · simp only [returns_bind, returns_get] at h
    obtain ⟨g, s₂, h₂, existentials, s₃, h₃, _, _, ⟨rfl, rfl⟩, h⟩ := h
    obtain ⟨rfl, rfl⟩ := goal_kept hd hs (hpred.bodies proc hproc) h₂
    rw [produceExistentials, hpred.constraints] at h₃
    obtain ⟨rfl, rfl⟩ := returns_pure.1 h₃
    rw [hpred.constraints, hpred.existVars, WitnessState.ofProc, hpred.witnesses proc hproc] at h
    obtain ⟨heq, rfl⟩ := returns_pure.1 h
    cases heq
    exact ⟨by rw [Module.changed, ← hpred.witnesses proc hproc]; rfl, rfl⟩

end Synth

namespace Module

theorem addProcWitnesses_kept {env env' : Module} {r : ProcRef} (hd : m.SameDecls env)
    (hp : env.findPred? id = some pred) (hmono : r.pred = id → pred.Monomorphic m)
    (h : env.addProcWitnesses r = .ok env') : env'.findPred? id = some pred := by
  obtain ⟨p, proc, out, body, s, hproc, hc, rfl⟩ := addProcWitnesses_cases h
  rw [findPred?_setPred]
  split
  · next hid =>
    rw [← hid, hc.pred_found, Option.some.injEq] at hp
    subst hp
    rw [procAt?_eq, hc.pred_found, Option.bind_some] at hproc
    obtain ⟨hchanged, hscope⟩ :=
      Synth.procedure_kept hd (hmono hid) (Array.mem_of_getElem? hproc) hc.returns
    rw [← hid, hc.pred_found, hchanged, hscope]
    have hprocs : (p.setProc r.proc proc).procs = p.procs := Array.ext_getElem? fun i => by
      rw [Predicate.procs_setProc]
      split
      · next hi => rw [← hi, hproc, Option.map_some]
      · rfl
    exact congrArg (fun procs => some { p with procs }) hprocs
  · exact hp

theorem foldlM_kept {rs : List ProcRef} {env env' : Module} (hd : m.SameDecls env)
    (hp : env.findPred? id = some pred) (hmono : ∀ r ∈ rs, r.pred = id → pred.Monomorphic m)
    (h : rs.foldlM addProcWitnesses env = .ok env') : env'.findPred? id = some pred := by
  induction rs generalizing env with
  | nil =>
    cases h
    exact hp
  | cons r rs ih =>
    rw [foldlM_cons, except_bind_eq_ok] at h
    obtain ⟨env₁, h₁, h₂⟩ := h
    obtain ⟨hr, hrs⟩ := forall_mem_cons.1 hmono
    exact ih (hd.trans (addProcWitnesses_spec h₁).1) (addProcWitnesses_kept hd hp hr h₁) hrs h₂

/-- Exempt predicates and those that need no witnesses stay as they are, with their
    procedures, whatever the other predicates are. -/
theorem monomorphic_kept (h : m.addWitnesses = .ok m') (hp : m.findPred? id = some pred)
    (hmono : pred.isExempt = true ∨ pred.Monomorphic m) : m'.findPred? id = some pred := by
  obtain ⟨m₁, h₁, -, hadds⟩ := addWitnesses_cases h
  have hcount : pred.witnessCount = 0 := by
    rw [Predicate.witnessCount]
    split
    · rfl
    · next hexempt =>
      have hpred := hmono.resolve_left hexempt
      simp [Predicate.bareTypeVars, hpred.argTypes, hpred.constraints]
  have hp₁ : m₁.findPred? id = some pred := by
    refine foldlM_kept (.refl m) hp (fun r hr hid => ?_) h₁
    obtain ⟨p, hfound, -, hexempt⟩ := mem_witnessProcs.1 hr
    rw [hid, hp, Option.some.injEq] at hfound
    subst hfound
    exact hmono.resolve_left (by simp [hexempt])
  obtain ⟨types, hp', -, hadded⟩ := hadds.preds id pred hp₁
  rcases hadded (mem_range.2 (Array.getElem?_eq_some_iff.1 hp₁).1) with ⟨-, rfl⟩ | ⟨_, hnz, -⟩
  · exact hp'
  · exact absurd hcount hnz

end Module

/-! ### An example -/

namespace HiddenType

/-- `Y = X, keep(Y)`. -/
def keepBody : Goal :=
  .conjoin [.assign ⟨1⟩ ⟨0⟩ context,
    .callProc ⟨⟨5⟩, ⟨0⟩⟩ (.unqualified "keep") [⟨1⟩] [] {} context] context

def keep : Predicate :=
  declared { name := "keep", args := [.input "X" .int], locals := [.named "Y" .int] } keepBody

def keeping : Module := { feeding with preds := feeding.preds.push keep }

/-- Type-infos are made in `feed`, and `keep` stays as it is. -/
theorem keep_kept : ∃ m', keeping.addWitnesses = .ok m' ∧ m'.findPred? ⟨5⟩ = some keep := by
  obtain ⟨m', h⟩ : ∃ m', keeping.addWitnesses = .ok m' := exists_of_isOk (by decide +kernel)
  have hbody : keepBody.Monomorphic keeping keep.procs[0].vars := by
    refine .conjoin (forall_mem_cons.2 ⟨?_, forall_mem_singleton.2 ?_⟩) _
    · exact .intro trivial fun c hc => absurd hc not_mem_nil
    · have hkeep : (keeping.findPred? ⟨5⟩).all (·.witnessCount = 0) := by decide +kernel
      exact .intro hkeep fun c hc => absurd hc not_mem_nil
  refine ⟨m', h, Module.monomorphic_kept h rfl (.inr ⟨rfl, rfl, rfl, ?_, ?_⟩)⟩
  · decide +kernel
  · intro proc hproc
    obtain rfl : proc = keep.procs[0] := Array.mem_singleton.1 hproc
    obtain ⟨here, parts⟩ := hbody
    exact .intro here parts

end HiddenType

end Clausal
