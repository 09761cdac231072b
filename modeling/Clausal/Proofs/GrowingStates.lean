import Clausal.Proofs.KeptDeterminism
import Clausal.Proofs.Requantification

/-!
# States only grow

Every step of making witnesses explicit leaves the variables, the type variables
and the records that it finds, and adds to them behind (`WitnessState.Advances`).
Whatever property the variables have that are on record, added, or in a goal, the
variables of the goal that it becomes have it (`Synth.goal_within`): the ones that it
mentions, and those that it is said to share with its outside or to bind. So all of them
are in the table of the state that is left.
-/

namespace Clausal

open List Goal WitnessState

variable {X : ProgVar → Prop} {g g' core : Goal} {gs setup : List Goal} {v : ProgVar}
  {context : Context} {s s₁ s' : WitnessState} {inputs outputs : List ProgVar}

namespace Goal

/-- All the variables of a goal have the property: those that it mentions, and those
    that it is said to share with its outside or to bind. -/
inductive Within (X : ProgVar → Prop) : Goal → Prop
  | intro {g : Goal} (own : ∀ v ∈ g.ownVars, X v) (nonlocals : ∀ v ∈ g.info.nonlocals, X v)
      (bound : ∀ v ∈ g.info.bound, X v) (parts : ∀ c ∈ g.parts, Within X c) : Within X g

namespace Within

theorem own (h : g.Within X) : ∀ v ∈ g.ownVars, X v := by cases h; assumption

theorem nonlocals (h : g.Within X) : ∀ v ∈ g.info.nonlocals, X v := by cases h; assumption

theorem bound (h : g.Within X) : ∀ v ∈ g.info.bound, X v := by cases h; assumption

theorem part {c : Goal} (h : g.Within X) (hc : c ∈ g.parts) : c.Within X := by
  cases h with
  | intro _ _ _ parts => exact parts c hc

theorem mono {Y : ProgVar → Prop} (h : g.Within X) (hXY : ∀ v, X v → Y v) : g.Within Y := by
  induction h with
  | intro own nonlocals bound _ ih =>
    exact .intro (fun v hv => hXY v (own v hv)) (fun v hv => hXY v (nonlocals v hv))
      (fun v hv => hXY v (bound v hv)) ih

theorem of_mem_freeVars (h : g.Within X) (hv : v ∈ g.freeVars) : X v := by
  replace hv := mem_vars_of_mem_freeVars g hv
  induction h with
  | intro own _ _ _ ih =>
    rcases mem_gather.1 hv with ⟨-, hv⟩ | ⟨c, hc, hv⟩
    · exact own v hv
    · exact ih c hc hv

theorem atom (hg : g.isAtom) (hown : ∀ v ∈ g.ownVars, X v)
    (hnonlocals : ∀ v ∈ g.info.nonlocals, X v) (hbound : ∀ v ∈ g.info.bound, X v) :
    g.Within X := by
  refine .intro hown hnonlocals hbound fun c hc => ?_
  cases g with
  | call | genericCall | foreign | unify => cases hc
  | _ => cases hg

theorem of_mem_flatMap (h : ∀ g ∈ gs, g.Within X) : ∀ k ∈ gs.flatMap conjuncts, k.Within X := by
  intro k hk
  obtain ⟨g, hg, hk⟩ := mem_flatMap.1 hk
  unfold conjuncts at hk
  split at hk
  · exact (h _ hg).part hk
  · exact mem_singleton.1 hk ▸ h _ hg

theorem setNonlocals (h : g.Within X) {vars : VarSet} (hvars : ∀ v ∈ vars, X v) :
    (g.setNonlocals vars).Within X := by
  obtain ⟨hown, -, hbound, hparts⟩ := h
  cases g <;> exact .intro hown hvars hbound hparts

theorem withSetup (hsetup : ∀ k ∈ setup, k.Within X) (hcore : core.Within X) :
    (withSetup setup core).Within X := by
  unfold Goal.withSetup
  split
  · exact hcore
  have hall := of_mem_flatMap (forall_mem_append.2 ⟨hsetup, forall_mem_singleton.2 hcore⟩)
  refine setNonlocals ?_ fun v hv => ?_
  · unfold Goal.conjoin
    split
    · next g hg => exact hall g (hg ▸ mem_singleton_self g)
    · have hconj : (Goal.conj (sequentialInfo ((setup ++ [core]).flatMap conjuncts)
          core.info.context) .plain ((setup ++ [core]).flatMap conjuncts)).Within X := by
        refine .intro (by simp [ownVars, atomVars]) (by simp [Goal.info, sequentialInfo])
          (fun v hv => ?_) hall
        obtain ⟨_, hb, hv⟩ := VarSet.mem_unions.1 hv
        obtain ⟨k, hk, rfl⟩ := mem_map.1 hb
        exact (hall k hk).bound v hv
      exact hconj.setNonlocals fun v hv => hconj.of_mem_freeVars hv
  · simp only [VarSet.mem_diff, VarSet.mem_union, VarSet.mem_unions, mem_map] at hv
    obtain ⟨hv | ⟨_, ⟨k, hk, rfl⟩, hv⟩, -⟩ := hv
    · exact hcore.nonlocals v hv
    · exact (hsetup k hk).nonlocals v hv

theorem refilled {nonlocals : VarSet} {gs' : List Goal} (h : g.Within X)
    (hfill : g.Refilled nonlocals gs' g') (hgs : ∀ k ∈ gs', k.Within X)
    (hnonlocals : ∀ v ∈ nonlocals, X v) : g'.Within X := by
  obtain ⟨hown, -, hbound, -⟩ := h
  refine .intro (by cases hfill <;> exact hown) (by cases hfill <;> exact hnonlocals)
    (by cases hfill <;> exact hbound) ?_
  cases hfill with
  | conj =>
    simp only [parts, children]
    split
    · exact of_mem_flatMap hgs
    · exact hgs
  | _ => exact hgs

end Within

end Goal

/-- The goals of a set-up stay within what they are given and what they bind. -/
theorem Setup.within {Y : ProgVar → Prop} {bound : List ProgVar} (h : Setup context Y setup bound)
    (hY : ∀ v, Y v → X v) (hbound : ∀ v ∈ bound, X v) : ∀ g ∈ setup, g.Within X := by
  have hexposed := h.exposed
  induction h with
  | nil => simp
  | construct _ hreads _ ih | accessor _ hreads _ ih =>
    obtain ⟨hv, hrest⟩ := forall_mem_cons.1 hbound
    obtain ⟨hg, hgoals⟩ := forall_mem_cons.1 hexposed
    refine forall_mem_cons.2 ⟨.atom rfl ?_ ?_ ?_, ih (fun w hw => ?_) hrest hgoals⟩
    · simp only [ownVars, atomVars, Goal.construct, Synth.accessor, callProc, exposeFree,
        setNonlocals, setInfo, Unification.vars, UnifyRhs.vars]
      grind
    · rw [hg]
      simp only [freeVars_construct, Synth.freeVars_accessor, VarSet.mem_ofList]
      grind
    · simpa using hv
    · exact hw.elim (fun hw => hw ▸ hv) (hY w)

/-- A property of what is on record and of what is added is one of what is made of them. -/
theorem Serves.within (h : Serves context s inputs outputs setup s')
    (hrec : s.witnesses.All fun _ => X) (hnew : s.NewIn s' fun _ => X) :
    ∀ g ∈ setup, g.Within X := by
  obtain ⟨bound, hbound, -, hsetup⟩ := h.block
  refine (hsetup X (h.advances.records _ hrec hnew)).1.within (fun _ => id) fun v hv => ?_
  exact hnew.of_lt (hbound.new v hv).1 (hbound.new v hv).2

namespace Synth

variable {env : WitnessEnv} {vars : VarSet} {r : List Goal × VarSet}

theorem GetsWitnesses.within (h : GetsWitnesses s g g' s') (hg : g.Within X)
    (hrec : s.witnesses.All fun _ => X) (hnew : s.NewIn s' fun _ => X) : g'.Within X := by
  obtain ⟨inputs, outputs, setup, core, hs, hcore, rfl⟩ := h
  have hmade := hs.made X hrec hnew
  refine .withSetup (hs.within hrec hnew) (.atom hcore.atom (fun v hv => ?_) (fun v hv => ?_)
    fun v hv => ?_)
  · exact (hcore.vars v hv).elim (hmade v) (hg.own v)
  · exact (hcore.nonlocals v hv).elim (hmade v) (hg.nonlocals v)
  · exact (hcore.bound v hv).elim (fun hv => hmade v (mem_append_right _ hv)) (hg.bound v)

/-- A lambda expression may come to capture what its body mentions. -/
theorem lambda_within {info : GoalInfo} {lhs : ProgVar} {head : LambdaHead} {body : Goal}
    {kind : Unification} {captured old : List ProgVar}
    (hinfo : (∀ v ∈ info.nonlocals, X v) ∧ ∀ v ∈ info.bound, X v)
    (hown : ∀ v ∈ lhs :: old ++ head.args ++ kind.vars, X v) (hbody : body.Within X)
    (hcaptured : ∀ v ∈ captured, v ∈ old ∨ v ∈ body.freeVars) :
    (lambda (addWitnesses info captured []) lhs { head with captured } body kind).Within X := by
  have hall : ∀ v ∈ captured, X v := fun v hv =>
    (hcaptured v hv).elim (fun hv => hown v (by simp [hv])) hbody.of_mem_freeVars
  refine .intro (fun v hv => ?_) (fun v hv => ?_) (fun v hv => ?_) (forall_mem_singleton.2 hbody)
  · have hv : v ∈ lhs :: captured ++ head.args ++ kind.vars := hv
    simp only [cons_append, mem_cons, mem_append] at hv hown
    grind
  · exact (VarSet.mem_insertMany.1 hv).elim (hall v) (hinfo.1 v)
  · exact hinfo.2 v (by simpa [addWitnesses, Goal.info] using hv)

theorem goals_within (ih : ∀ c ∈ gs, ∀ {g' s s'}, Returns (goal env c) s g' s' → c.Within X →
      s.witnesses.All (fun _ => X) → s.NewIn s' (fun _ => X) → g'.Within X)
    (h : Returns (goals env vars gs) s r s') (hgs : ∀ c ∈ gs, c.Within X)
    (hvars : ∀ v ∈ vars, X v) (hrec : s.witnesses.All fun _ => X)
    (hnew : s.NewIn s' fun _ => X) : (∀ c ∈ r.1, c.Within X) ∧ ∀ v ∈ r.2, X v := by
  induction gs generalizing vars s r with
  | nil =>
    obtain ⟨rfl, rfl⟩ := returns_pure.1 (goals.eq_1 env vars ▸ h)
    exact ⟨by simp, hvars⟩
  | cons g gs ih' =>
    simp only [goals, returns_bind, returns_absorb, returns_pure] at h
    obtain ⟨g', _, hg, _, s₁, ⟨rfl, rfl⟩, r', _, hr, rfl, rfl⟩ := h
    obtain ⟨ihg, ihgs⟩ := forall_mem_cons.1 ih
    obtain ⟨hwithin, hrest⟩ := forall_mem_cons.1 hgs
    have hgrows := goal_grows g hg
    obtain ⟨hnew₁, hnew₂⟩ := hnew.mono hgrows.vars.size_le hr.worked.grows.vars
    have hg' := ihg hg hwithin hrec hnew₁
    have hvars₁ : ∀ v ∈ vars ∪ g'.info.nonlocals.filter s₁.isOuterWitness, X v := fun v hv =>
      (VarSet.mem_union.1 hv).elim (hvars v) fun hv => hg'.nonlocals v (VarSet.mem_filter.1 hv).1
    obtain ⟨hall, hvars'⟩ := ih' ihgs hr hrest hvars₁ (hgrows.records _ hrec hnew₁) hnew₂
    exact ⟨forall_mem_cons.2 ⟨hg', hall⟩, hvars'⟩

/-- A property of the variables of a goal, of those on record and of those that are
    added is one of the variables of what the goal becomes. -/
theorem goal_within (g : Goal) : ∀ {g' s s'}, Returns (goal env g) s g' s' → g.Within X →
    s.witnesses.All (fun _ => X) → s.NewIn s' (fun _ => X) → g'.Within X := by
  induction g using parts_induction with
  | step g ih =>
  intro g' s s' h hg hrec hnew
  rcases g.shape with hshape | ⟨i, lhs, head, body, kind, rfl⟩ | hatom
  · obtain ⟨gs', nonlocals, hr, hfill⟩ := returns_compound hshape h
    obtain ⟨hgs', hnonlocals⟩ := goals_within ih hr (fun c hc => hg.part hc) hg.nonlocals hrec hnew
    exact hg.refilled hfill hgs' hnonlocals
  · obtain ⟨body', captured, hb, hcaptured, rfl⟩ := returns_lambda h
    have hbody := ih body mem_cons_self hb (hg.part mem_cons_self) hrec hnew
    exact lambda_within ⟨hg.nonlocals, hg.bound⟩ hg.own hbody fun v hv =>
      ((hcaptured v).1 hv).imp_right And.left
  · rcases atom_cases hatom h with hgets |
      ⟨info, lhs, callee, args, kind, head, name, s₁, callInfo, body, captured, rfl, hhead,
        hinfo, hcaptured, hbody, rfl⟩
    · exact hgets.within hg hrec hnew
    · obtain ⟨hnew₁, hnew₂⟩ := hnew.mono hhead.grows.vars.size_le (callGoal_advances hbody).vars
      have hown : ∀ v ∈ lhs :: args ++ kind.vars, X v := hg.own
      have hnewArgs : ∀ v ∈ head.args, X v := fun v hv =>
        hnew₁.of_lt (hhead.args_new v hv).1 (hhead.args_new v hv).2
      have hargs : ∀ v ∈ args ++ head.args, X v :=
        forall_mem_append.2 ⟨fun v hv => hown v (by simp [hv]), hnewArgs⟩
      have hcall : (Goal.call callInfo callee name (args ++ head.args)).Within X :=
        .atom rfl hargs (fun v hv => hargs v (hinfo v (.inl hv)))
          fun v hv => hargs v (hinfo v (.inr hv))
      have hbody := (callGoal_getsWitnesses hbody).within hcall (hhead.witnesses ▸ hrec) hnew₂
      refine lambda_within ⟨hg.nonlocals, hg.bound⟩ (fun v hv => ?_) hbody fun v hv =>
        ((hcaptured v).1 hv).imp_right And.left
      simp only [cons_append, mem_cons, mem_append] at hv hown
      grind

end Synth

/-- The variable is in the table of the state. -/
def WitnessState.Declares (s : WitnessState) (v : ProgVar) : Prop := v.index < s.vars.size

/-- A step only adds to a state: variables and type variables stay where they are, as
    they are, and what is on record stays on record. If what is on record is in the
    table of variables, it stays so, and so are the `results`. -/
structure WitnessState.ExtendsWith (s s' : WitnessState) (results : Prop) : Prop where
  vars : s.vars.Extends s'.vars
  keeps : s.Keeps s'
  closed : s.Closed → s'.Closed ∧ results

namespace WitnessState

theorem Advances.extendsWith (h : s.Advances s') {results : Prop}
    (hresults : s.witnesses.All (fun _ => s'.Declares) → s.NewIn s' (fun _ => s'.Declares) →
      results) : s.ExtendsWith s' results where
  vars := h.vars
  keeps := h.toKeeps
  closed hs := by
    refine ⟨h.closed hs, hresults (hs.mono fun _ v hv => ?_) (newIn_of_lt fun _ _ hv => hv)⟩
    exact Nat.lt_of_lt_of_le hv h.vars.size_le

end WitnessState

theorem Serves.extendsWith (h : Serves context s inputs outputs setup s') {vs : List ProgVar}
    (hvs : ∀ v ∈ vs, v ∈ inputs ++ outputs) :
    s.ExtendsWith s' ((∀ v ∈ vs, s'.Declares v) ∧ ∀ g ∈ setup, g.Within s'.Declares) :=
  h.advances.extendsWith fun hrec hnew =>
    ⟨fun v hv => h.made _ hrec hnew v (hvs v hv), h.within hrec hnew⟩

/-- Whatever step returns, its state only grows, and the variables of its results are
    in the table, if those of a goal that it is given are. -/
theorem steps_extend_states (env : WitnessEnv) (s s' : WitnessState) :
    (∀ g g', (Synth.goal env g).Returns s g' s' →
      s.ExtendsWith s' (g.Within s.Declares → g'.Within s'.Declares)) ∧
    (∀ callee args context w, (Synth.callWitnesses env callee args context).Returns s w s' →
      s.ExtendsWith s' ((∀ v ∈ w.vars ++ w.outputs, s'.Declares v) ∧
        ∀ g ∈ w.setup, g.Within s'.Declares)) ∧
    (∀ context types vs setup, (Synth.typeInfos context types).Returns s (vs, setup) s' →
      s.ExtendsWith s' ((∀ v ∈ vs, s'.Declares v) ∧ ∀ g ∈ setup, g.Within s'.Declares)) ∧
    (∀ context constraints vs setup,
      (Synth.dictionaries env context constraints).Returns s (vs, setup) s' →
      s.ExtendsWith s' ((∀ v ∈ vs, s'.Declares v) ∧ ∀ g ∈ setup, g.Within s'.Declares)) ∧
    ∀ types constraints vs, (Synth.consumeCellWitnesses env types constraints).Returns s vs s' →
      s.ExtendsWith s' (∀ v ∈ vs, s'.Declares v) := by
  refine ⟨fun g g' h => ?_, fun callee args context w h => ?_, fun context types vs setup h => ?_,
    fun context constraints vs setup h => ?_, fun types constraints vs h => ?_⟩
  · have hadvances := Synth.goal_advances g h
    refine hadvances.extendsWith fun hrec hnew hg => Synth.goal_within g h ?_ hrec hnew
    exact hg.mono fun v hv => Nat.lt_of_lt_of_le hv hadvances.vars.size_le
  · obtain ⟨parts, hw⟩ := Synth.callWitnesses_cases h
    refine hw.serves.extendsWith fun v hv => ?_
    rw [hw.vars, hw.outputs, mem_append, WitnessParts.mem_all] at hv
    exact hv.elim id (mem_append_right _)
  · have hs : Serves context s vs [] setup s' := (Synth.typeInfos_provides h).serves (by simp)
    exact hs.extendsWith (by simp)
  · have hs : Serves context s vs [] setup s' := (Synth.dictionaries_provides h).serves (by simp)
    exact hs.extendsWith (by simp)
  · obtain ⟨hadvances, hvs⟩ := Synth.consumeCellWitnesses_cases h
    exact hadvances.extendsWith fun _ _ v hv => (hvs v hv).2

/-! ### An example -/

namespace HiddenType

/-- The call of `take` in `feed` gets a type-info, which is in the table that is left. -/
theorem feed_call_extends_state :
    let env : WitnessEnv := ⟨feeding, "feed"⟩
    let s : WitnessState := .ofProc feed feed.procs[0]
    let g : Goal := .callProc ⟨⟨3⟩, ⟨0⟩⟩ take.symName [⟨0⟩] [] {} HiddenType.context
    ∃ g' s', (Synth.goal env g).Returns s g' s' ∧ s.vars.Extends s'.vars ∧ s'.Closed ∧
      g'.Within s'.Declares := by
  intro env s g
  obtain ⟨⟨g', s'⟩, h⟩ : ∃ r, Synth.goal env g s = .ok r := exists_of_isOk (by decide +kernel)
  have hextends := (steps_extend_states env s s').1 g g' h
  have hclosed : s.Closed := (WitnessMap.all_false_iff.2 ⟨rfl, rfl⟩).mono fun _ _ h => h.elim
  have hg : g.Within s.Declares := by
    have hfree : ∀ v ∈ [(⟨0⟩ : ProgVar)], v.index < 2 := by decide
    exact .atom rfl hfree hfree fun v hv => absurd hv VarSet.not_mem_empty
  obtain ⟨hclosed', hwithin⟩ := hextends.closed hclosed
  exact ⟨g', s', h, hextends.vars, hclosed', hwithin hg⟩

end HiddenType

end Clausal
