import Clausal.Proofs.Flow

/-!
# Blocks of set-up goals

Goals that build the constants and cells of witnesses or call accessors are
set-up goals (`Goal.isSetupGoal`). A block is a run of them in one conjunction
with the goals that it is for right behind it (`Block`). A variable is confined
to goals that stand next to each other in one plain conjunction if nothing else
mentions it, be it in the same conjunction or around it (`Goal.Confines`).

What a goal mentions and what its set-up goals bind is gathered from the goals
inside it (`Goal.gather`), in order and whatever conjunctions they stand in.
-/

namespace Clausal

open List Goal

variable {v : ProgVar} {gs seg : List Goal} {g : Goal} {modes : ProcRef → List Mode} {p : Primitive}
  {gs' setup targets : List Goal}

theorem Unification.mem_vars_of_mem_witnesses (kind : Unification) (h : v ∈ kind.witnesses) :
    v ∈ kind.vars := by
  cases kind with
  | complicated canFail typeInfos => exact h
  | _ => cases h

namespace Goal

/-! ### Variables -/

/-- All the variables of a goal. -/
abbrev vars (g : Goal) : List ProgVar := g.gather ownVars

abbrev varsList (gs : List Goal) : List ProgVar := gatherList ownVars gs

abbrev varsArms (arms : List (Symbol × Goal)) : List ProgVar := gatherArms ownVars arms

theorem ownVars_setInfo (i : GoalInfo) (g : Goal) : ownVars (setInfo i g) = ownVars g := by
  cases g <;> rfl

/-- The variables that a goal binds when it is run, apart from what its parts
    bind, given the modes of procedures. -/
def binds (modes : ProcRef → List Mode) : Goal → List ProgVar
  | .call _ callee _ args => Mode.output.vars args (modes callee)
  | .genericCall _ _ args ms => Mode.output.vars args ms
  | .foreign _ code => code.varsOf .output
  | .unify _ lhs rhs kind => rhs.binds lhs kind
  | .lambda _ lhs _ _ _ => [lhs]
  | _ => []

theorem mem_ownVars_of_mem_binds (h : v ∈ g.binds modes) : v ∈ g.ownVars := by
  cases g with
  | call i callee name args => exact Mode.mem_of_mem_vars h
  | genericCall i callee args ms => exact mem_append_right _ (Mode.mem_of_mem_vars h)
  | foreign i code =>
    obtain ⟨a, ha, rfl⟩ := mem_map.1 h
    exact mem_map_of_mem (mem_filter.1 ha).1
  | unify i lhs rhs kind => exact mem_vars_of_binds h
  | lambda i lhs head body kind =>
    rw [mem_singleton.1 h]
    exact mem_cons_self
  | _ => cases h

/-- Whether a goal builds a constant or a cell that witnesses are made of, or
    calls an accessor. -/
def isSetupGoal : Goal → Bool
  | .call _ callee _ _ => (dictionaryAccessors.map Primitive.proc).contains callee
  | .unify _ _ (.functor f _) (.construct ..) => f.isRuntime
  | _ => false

/-- What a set-up goal binds. -/
def setupBinds (modes : ProcRef → List Mode) (g : Goal) : List ProgVar :=
  if g.isSetupGoal then g.binds modes else []

/-- The variables that the set-up goals inside a goal bind, in order. -/
abbrev setupVars (modes : ProcRef → List Mode) (g : Goal) : List ProgVar :=
  g.gather (setupBinds modes)

abbrev setupVarsList (modes : ProcRef → List Mode) (gs : List Goal) : List ProgVar :=
  gatherList (setupBinds modes) gs

theorem mem_vars_of_mem_setupVars (h : v ∈ g.setupVars modes) : v ∈ g.vars := by
  refine mem_gather_mono (fun k a ha => ?_) g h
  rw [setupBinds] at ha
  split at ha
  · exact mem_ownVars_of_mem_binds ha
  · cases ha

theorem binds_setInfo (modes : ProcRef → List Mode) (i : GoalInfo) (g : Goal) :
    (setInfo i g).binds modes = g.binds modes := by
  cases g <;> rfl

theorem isSetupGoal_setInfo (i : GoalInfo) (g : Goal) :
    (setInfo i g).isSetupGoal = g.isSetupGoal := by
  cases g with
  | unify j lhs rhs kind => cases rhs <;> cases kind <;> rfl
  | _ => rfl

/-! ### Quantification -/

theorem mem_vars_of_mem_freeVars (g : Goal) (h : v ∈ g.freeVars) : v ∈ g.vars := by
  induction g using parts_induction with
  | step g ih =>
  have hpart : (∃ c ∈ g.parts, v ∈ c.freeVars) → v ∈ g.vars := by
    rintro ⟨c, hc, hv⟩
    exact mem_gather.2 (.inr ⟨c, hc, ih c hc hv⟩)
  have hown : g.isBare = false → v ∈ g.ownVars → v ∈ g.vars := fun hbare hv =>
    mem_gather.2 (.inl ⟨hbare, hv⟩)
  cases g with
  | conj | disj => exact hpart (mem_freeVarsList.1 h)
  | switch i w f arms =>
    rw [freeVars, VarSet.mem_insert, mem_freeVarsArms] at h
    rcases h with rfl | ⟨arm, harm, h⟩
    · exact hown rfl (mem_singleton_self v)
    · exact hpart ⟨arm.2, mem_map_of_mem harm, h⟩
  | negation => exact hpart ⟨_, mem_cons_self, h⟩
  | ite i locals c y n =>
    rw [freeVars, VarSet.mem_union, VarSet.mem_eraseMany, VarSet.mem_union] at h
    refine hpart ?_
    simp only [parts, children, exists_mem_cons_iff]
    tauto
  | scope => exact hpart ⟨_, mem_cons_self, (VarSet.mem_eraseMany.1 h).1⟩
  | lambda i lhs head body kind =>
    rw [freeVars, VarSet.mem_union, VarSet.mem_eraseMany, VarSet.mem_ofList, mem_cons] at h
    rcases h with (rfl | h) | h
    · exact hown rfl mem_cons_self
    · exact hown rfl (mem_append_right _ (kind.mem_vars_of_mem_witnesses h))
    · exact hpart ⟨body, mem_cons_self, h.1⟩
  | call | genericCall | foreign =>
    rw [freeVars, VarSet.mem_ofList] at h
    exact hown rfl (by simpa [ownVars, atomVars] using h)
  | unify i lhs rhs kind =>
    rw [freeVars, VarSet.mem_ofList] at h
    refine hown rfl (mem_append.2 ((mem_append.1 h).imp_right ?_))
    exact kind.mem_vars_of_mem_witnesses

theorem mem_varsList_of_forall₂ (h : Forall₂ (fun g g' => v ∈ g'.vars → v ∈ g.vars) gs gs')
    (hv : v ∈ varsList gs') :
    v ∈ varsList gs := by
  induction h with
  | nil => exact hv
  | cons hg _ ih => exact mem_append.2 ((mem_append.1 hv).imp hg ih)

/-- Quantifying anew brings in no variables. -/
theorem mem_vars_of_requantify : ∀ (g : Goal) (outside : VarSet),
    v ∈ (g.requantify outside).vars → v ∈ g.vars := by
  refine Congruent.requantify (P := fun g g' => v ∈ g'.vars → v ∈ g.vars)
    { refl := fun _ h => h
      nonlocals := fun _ h hv =>
        h (by rwa [vars, setNonlocals, gather_setInfo ownVars_setInfo] at hv)
      conj := mem_varsList_of_forall₂
      disj := mem_varsList_of_forall₂
      switch := fun h => ?_
      negation := fun h => h
      ite := fun hc hy hn => ?_
      scope := fun h hv => mem_append.2 ((mem_append.1 hv).imp_right h)
      lambda := fun h => ?_ }
  all_goals simp only [vars, gather, gatherArms_eq, ownVars, mem_append, mem_cons]
  · exact Or.imp_right (mem_varsList_of_forall₂ (forall₂_map_snd h))
  · tauto
  · rename_i head body _ _
    have := mem_vars_of_mem_freeVars (v := v) body
    simp only [← VarSet.mem_iff, capturedVars, VarSet.mem_eraseMany]
    tauto

theorem mem_varsList_of_requantifyEach (gs : List Goal) (outsides : List VarSet) :
    v ∈ varsList (requantifyEach outsides gs) → v ∈ varsList gs :=
  mem_varsList_of_forall₂ (forall₂_requantifyEach (fun _ h => h)
    (fun g _ => mem_vars_of_requantify g) outsides)

theorem mem_varsList_of_requantifyList (gs : List Goal) (outside : VarSet) :
    v ∈ varsList (requantifyList outside gs) → v ∈ varsList gs :=
  mem_varsList_of_forall₂ (forall₂_requantifyList fun g _ => mem_vars_of_requantify g outside)

theorem mem_varsArms_of_requantifyArms (arms : List (Symbol × Goal)) (outside : VarSet) :
    v ∈ varsArms (requantifyArms outside arms) → v ∈ varsArms arms := by
  rw [varsArms, gatherArms_eq, varsArms, gatherArms_eq]
  exact mem_varsList_of_forall₂ (forall₂_map_snd (forall₂_requantifyArms
    (P := fun g g' => v ∈ g'.vars → v ∈ g.vars) fun g _ => mem_vars_of_requantify g outside))

theorem setupBinds_ofAtoms (modes : ProcRef → List Mode) : OfAtoms (setupBinds modes) where
  info i g := by rw [setupBinds, setupBinds, binds_setInfo, isSetupGoal_setInfo]
  nil g hg := by
    cases g with
    | call | genericCall | foreign | unify => cases hg
    | _ => rfl

theorem mem_requantifyEach {g' : Goal} : ∀ {gs : List Goal} {outsides : List VarSet},
    g' ∈ requantifyEach outsides gs → ∃ g ∈ gs, g' = g ∨ ∃ outside, g' = g.requantify outside
  | [], _, h => by simp [requantifyEach] at h
  | g :: gs, [], h => by
    rw [requantifyEach, mem_cons] at h
    rcases h with rfl | h
    · exact ⟨g', mem_cons_self, .inl rfl⟩
    · obtain ⟨k, hk, hg'⟩ := mem_requantifyEach h
      exact ⟨k, mem_cons_of_mem _ hk, hg'⟩
  | g :: gs, outside :: outsides, h => by
    rw [requantifyEach, mem_cons] at h
    rcases h with rfl | h
    · exact ⟨g, mem_cons_self, .inr ⟨outside, rfl⟩⟩
    · obtain ⟨k, hk, hg'⟩ := mem_requantifyEach h
      exact ⟨k, mem_cons_of_mem _ hk, hg'⟩

theorem requantifyEach_append : ∀ (gs gs' : List Goal) (outsides : List VarSet),
    requantifyEach outsides (gs ++ gs') =
      requantifyEach outsides gs ++ requantifyEach (outsides.drop gs.length) gs'
  | [], gs', outsides => by rw [requantifyEach]; rfl
  | g :: gs, gs', [] => by
    rw [cons_append, requantifyEach, requantifyEach_append gs gs' [], requantifyEach,
      drop_nil, drop_nil, cons_append]
  | g :: gs, gs', outside :: outsides => by
    rw [cons_append, requantifyEach, requantifyEach_append gs gs' outsides, requantifyEach,
      length_cons, drop_succ_cons, cons_append]

theorem requantifyList_eq_map (outside : VarSet) (gs : List Goal) :
    requantifyList outside gs = gs.map (requantify outside) := by
  induction gs with
  | nil => rw [requantifyList]; rfl
  | cons g gs ih => rw [requantifyList, ih]; rfl

theorem requantifyArms_eq_map (outside : VarSet) (arms : List (Symbol × Goal)) :
    requantifyArms outside arms = arms.map fun arm => (arm.1, arm.2.requantify outside) := by
  induction arms with
  | nil => rw [requantifyArms]; rfl
  | cons arm arms ih => rw [requantifyArms, ih]; rfl

/-! ### Where a variable is mentioned -/

/-- The one goal is a part of the other, of which the rest has these variables.
    What a lambda expression is said to capture is no matter to its body. -/
inductive Part : Goal → List ProgVar → Goal → Prop
  | conj {i : GoalInfo} {kind : ConjKind} {before after : List Goal} {g : Goal} :
      Part g (varsList before ++ varsList after) (.conj i kind (before ++ g :: after))
  | disj {i : GoalInfo} {before after : List Goal} {g : Goal} :
      Part g (varsList before ++ varsList after) (.disj i (before ++ g :: after))
  | switch {i : GoalInfo} {v : ProgVar} {canFail : Bool} {before after : List (Symbol × Goal)}
      {f : Symbol} {g : Goal} :
      Part g (v :: varsArms before ++ varsArms after)
        (.switch i v canFail (before ++ (f, g) :: after))
  | negation {i : GoalInfo} {g : Goal} : Part g [] (.negation i g)
  | cond {i : GoalInfo} {locals : List ProgVar} {c y n : Goal} :
      Part c (locals ++ y.vars ++ n.vars) (.ite i locals c y n)
  | yes {i : GoalInfo} {locals : List ProgVar} {c y n : Goal} :
      Part y (locals ++ c.vars ++ n.vars) (.ite i locals c y n)
  | no {i : GoalInfo} {locals : List ProgVar} {c y n : Goal} :
      Part n (locals ++ c.vars ++ y.vars) (.ite i locals c y n)
  | scope {i : GoalInfo} {reason : ScopeReason} {g : Goal} :
      Part g reason.hidden (.scope i reason g)
  | lambda {i : GoalInfo} {lhs : ProgVar} {head : LambdaHead} {body : Goal} {kind : Unification} :
      Part body (lhs :: head.args ++ kind.vars) (.lambda i lhs head body kind)

/-- The variable is mentioned only in goals that stand next to each other in one
    plain conjunction, and those are as `P` says. -/
inductive Confines (v : ProgVar) (P : List Goal → Prop) : Goal → Prop
  | here {i : GoalInfo} {before seg after : List Goal} (holds : P seg)
      (rest : v ∉ varsList before ++ varsList after) :
      Confines v P (.conj i .plain (before ++ seg ++ after))
  | inside {g whole : Goal} {others : List ProgVar} (part : Part g others whole)
      (rest : v ∉ others) (confined : Confines v P g) : Confines v P whole

section

variable {P : List Goal → Prop} {before after : List Goal}

theorem Confines.whole {i : GoalInfo} (h : P seg) : Confines v P (.conj i .plain seg) := by
  have hconj := @Confines.here v P i [] seg [] h (by simp [varsList, gatherList])
  rwa [nil_append, append_nil] at hconj

/-- The conjuncts of a goal become conjuncts of a conjunction around it. -/
theorem Confines.splice (h : Confines v P g) (hrest : v ∉ varsList before ++ varsList after)
    (i : GoalInfo) : Confines v P (.conj i .plain (before ++ g.conjuncts ++ after)) := by
  have hsingle : Confines v P (.conj i .plain (before ++ [g] ++ after)) := by
    rw [append_assoc]
    exact .inside .conj hrest h
  have hmerge : ∀ {before' after' : List Goal}, v ∉ varsList before' ++ varsList after' →
      v ∉ varsList (before ++ before') ++ varsList (after' ++ after) := by
    intro before' after' hrest'
    simp only [varsList, gatherList_append, mem_append] at hrest hrest' ⊢
    tauto
  cases h with
  | @here j before' seg after' hP hrest' =>
    have := Confines.here (i := i) hP (hmerge hrest')
    simpa [conjuncts] using this
  | inside hpart hrest' hg =>
    cases hpart with
    | @conj j kind before' after' g =>
      cases kind with
      | plain =>
        have := Confines.inside (@Part.conj i .plain _ _ _) (hmerge hrest') hg
        simpa [conjuncts] using this
      | parallel => exact hsingle
    | _ => exact hsingle

theorem Confines.conjuncts_ne_nil (h : Confines v P g) (hP : ∀ seg, P seg → seg ≠ []) :
    g.conjuncts ≠ [] := by
  cases h with
  | here holds _ => simp [conjuncts, hP _ holds]
  | inside hpart _ _ =>
    cases hpart with
    | @conj i kind => cases kind <;> simp [conjuncts]
    | _ => simp [conjuncts]

/-- Quantification keeps a variable where it is. -/
theorem Confines.requantify (hP : ∀ seg outsides, P seg → P (requantifyEach outsides seg))
    (h : Confines v P g) (outside : VarSet) : Confines v P (g.requantify outside) := by
  have hlist : ∀ {before after : List Goal} {outsides outsides' : List VarSet},
      v ∉ varsList before ++ varsList after →
      v ∉ varsList (requantifyEach outsides before) ++ varsList (requantifyEach outsides' after) :=
    fun hrest hv => hrest (mem_append.2 ((mem_append.1 hv).imp
      (mem_varsList_of_requantifyEach _ _) (mem_varsList_of_requantifyEach _ _)))
  induction h generalizing outside with
  | @here i before seg after holds hrest =>
    rw [Goal.requantify, requantifyEach_append, requantifyEach_append]
    exact .here (hP _ _ holds) (hlist hrest)
  | @inside g whole others hpart hrest _ ih =>
    cases hpart with
    | @conj i kind before after =>
      rw [Goal.requantify, requantifyEach_append]
      -- Either the goal is quantified anew, or there is no set of variables left for it.
      cases (conjunctOutsides outside (before ++ g :: after)).drop before.length with
      | nil =>
        rw [requantifyEach]
        exact .inside .conj (hlist hrest) ‹_›
      | cons outside' outsides =>
        rw [requantifyEach]
        exact .inside .conj (hlist hrest) (ih outside')
    | @disj i before after =>
      rw [Goal.requantify, requantifyList_eq_map, map_append, map_cons]
      refine .inside .disj (fun hv => hrest ?_) (ih outside)
      rw [← requantifyList_eq_map, ← requantifyList_eq_map] at hv
      exact mem_append.2 ((mem_append.1 hv).imp
        (mem_varsList_of_requantifyList _ _) (mem_varsList_of_requantifyList _ _))
    | @switch i w canFail before after f =>
      rw [Goal.requantify, requantifyArms_eq_map, map_append, map_cons]
      refine .inside .switch (fun hv => hrest ?_) (ih _)
      rw [← requantifyArms_eq_map, ← requantifyArms_eq_map] at hv
      simp only [cons_append, mem_cons, mem_append] at hv ⊢
      exact hv.imp_right (Or.imp (mem_varsArms_of_requantifyArms _ _)
        (mem_varsArms_of_requantifyArms _ _))
    | negation =>
      rw [Goal.requantify]
      exact .inside .negation hrest (ih outside)
    | cond =>
      rw [Goal.requantify]
      refine .inside .cond (fun hv => hrest ?_) (ih _)
      simp only [mem_append] at hv ⊢
      exact hv.imp (Or.imp_right (mem_vars_of_requantify _ _)) (mem_vars_of_requantify _ _)
    | yes =>
      rw [Goal.requantify]
      refine .inside .yes (fun hv => hrest ?_) (ih _)
      simp only [mem_append] at hv ⊢
      exact hv.imp (Or.imp_right (mem_vars_of_requantify _ _)) (mem_vars_of_requantify _ _)
    | no =>
      rw [Goal.requantify]
      refine .inside .no (fun hv => hrest ?_) (ih _)
      simp only [mem_append] at hv ⊢
      exact hv.imp (Or.imp_right (mem_vars_of_requantify _ _)) (mem_vars_of_requantify _ _)
    | scope =>
      rw [Goal.requantify]
      exact .inside .scope hrest (ih _)
    | lambda =>
      rw [Goal.requantify]
      exact .inside .lambda hrest (ih _)

theorem conjoin_eq_conj (h : 2 ≤ (gs.flatMap conjuncts).length) (context : Context) :
    ∃ i, conjoin gs context = .conj i .plain (gs.flatMap conjuncts) := by
  rw [conjoin]
  split
  · next g hg =>
    rw [hg] at h
    exact absurd h (by simp)
  · exact ⟨_, rfl⟩

theorem conjuncts_of_isAtom (h : g.isAtom) : g.conjuncts = [g] := by
  cases g with
  | call | genericCall | foreign | unify => rfl
  | _ => cases h

theorem flatMap_conjuncts (h : ∀ g ∈ gs, g.conjuncts = [g]) : gs.flatMap conjuncts = gs := by
  induction gs with
  | nil => rfl
  | cons g gs ih =>
    obtain ⟨hg, hgs⟩ := forall_mem_cons.1 h
    rw [flatMap_cons, hg, ih hgs, singleton_append]

theorem flatMap_conjuncts_of_isAtom (h : ∀ g ∈ gs, g.isAtom) : gs.flatMap conjuncts = gs :=
  flatMap_conjuncts fun g hg => conjuncts_of_isAtom (h g hg)

theorem withSetup_eq_conj (hne : setup ≠ []) (hatoms : ∀ h ∈ setup ++ [g], h.isAtom) :
    ∃ i, withSetup setup g = .conj i .plain (setup ++ [g]) := by
  have hflat := flatMap_conjuncts_of_isAtom hatoms
  have hlength : 2 ≤ ((setup ++ [g]).flatMap conjuncts).length := by
    rw [hflat, length_append, length_singleton]
    have := length_pos_iff.2 hne
    omega
  obtain ⟨i, hi⟩ := conjoin_eq_conj hlength g.info.context
  rw [withSetup, if_neg (by simpa using hne), hi, hflat]
  exact ⟨_, rfl⟩

end

/-! ### Quantified blocks -/

section

variable {outside : VarSet} {outsides : List VarSet}

theorem binds_requantify : (g.requantify outside).binds modes = g.binds modes := by
  cases g <;> rfl

theorem isSetupGoal_requantify : (g.requantify outside).isSetupGoal = g.isSetupGoal := by
  cases g with
  | unify i lhs rhs kind => exact isSetupGoal_setInfo _ (.unify i lhs rhs kind)
  | _ => rfl

theorem isAtom_requantify : (g.requantify outside).isAtom = g.isAtom := by
  cases g <;> rfl

theorem forall_requantifyEach {p : Goal → Prop} (hp : ∀ g outside, p g → p (g.requantify outside))
    (h : ∀ g ∈ gs, p g) : ∀ g ∈ requantifyEach outsides gs, p g := by
  intro g' hg'
  obtain ⟨g, hg, rfl | ⟨outside, rfl⟩⟩ := mem_requantifyEach hg'
  · exact h _ hg
  · exact hp g outside (h g hg)

theorem requantifyEach_cons (outsides : List VarSet) (g : Goal) (gs : List Goal) :
    ∃ g' outsides', requantifyEach outsides (g :: gs) = g' :: requantifyEach outsides' gs ∧
      (g' = g ∨ ∃ outside, g' = g.requantify outside) := by
  cases outsides with
  | nil => exact ⟨g, [], by rw [requantifyEach], .inl rfl⟩
  | cons outside outsides => exact ⟨_, outsides, by rw [requantifyEach], .inr ⟨outside, rfl⟩⟩

end

end Goal

/-- A run of set-up goals, of which one binds the variable, with the goals that
    it is for right behind. -/
inductive Block (modes : ProcRef → List Mode) (IsFor : List Goal → Prop) (v : ProgVar) :
    List Goal → Prop
  | mk {before after targets : List Goal} {g : Goal}
      (setups : ∀ h ∈ before ++ g :: after, h.isSetupGoal)
      (first : v ∉ Goal.varsList before) (binds : g.binds modes = [v])
      (reads : (g.effect modes v).reads = false)
      (once : ∀ h ∈ after ++ targets, v ∉ h.binds modes) (isFor : IsFor targets) :
      Block modes IsFor v (before ++ g :: after ++ targets)

section

variable {IsFor : List Goal → Prop} {context : Context} {X : ProgVar → Prop} {goals : List Goal}
  {bound : List ProgVar}

theorem Block.ne_nil (h : Block modes IsFor v seg) : seg ≠ [] := by
  obtain ⟨-, -, -, -, -, -⟩ := h
  simp

theorem Block.imp {IsFor' : List Goal → Prop} (h : Block modes IsFor v seg)
    (himp : ∀ targets, IsFor targets → IsFor' targets) : Block modes IsFor' v seg := by
  obtain ⟨hsetups, hfirst, hbinds, hreads, honce, hfor⟩ := h
  exact .mk hsetups hfirst hbinds hreads honce (himp _ hfor)

theorem Block.requantifyEach
    (hfor : ∀ targets outsides, IsFor targets → IsFor (Goal.requantifyEach outsides targets))
    (h : Block modes IsFor v seg) (outsides : List VarSet) :
    Block modes IsFor v (Goal.requantifyEach outsides seg) := by
  obtain @⟨before, after, targets, g, hsetups, hfirst, hbinds, hreads, honce, hisFor⟩ := h
  rw [forall_mem_append, forall_mem_cons] at hsetups
  rw [forall_mem_append] at honce
  obtain ⟨hbefore, hg, hafter⟩ := hsetups
  obtain ⟨g', outsides', hcons, hg'⟩ :=
    requantifyEach_cons (outsides.drop before.length) g after
  rw [requantifyEach_append, requantifyEach_append, hcons]
  have hkept : g'.isSetupGoal = g.isSetupGoal ∧ g'.binds modes = g.binds modes ∧
      (g'.effect modes v).reads = (g.effect modes v).reads := by
    rcases hg' with rfl | ⟨outside, rfl⟩
    · exact ⟨rfl, rfl, rfl⟩
    · exact ⟨isSetupGoal_requantify, binds_requantify,
        by rw [effect_requantify]⟩
  have hsetup : ∀ (g : Goal) (outside : VarSet), g.isSetupGoal = true →
      (g.requantify outside).isSetupGoal = true :=
    fun _ _ h => isSetupGoal_requantify.trans h
  have hnot : ∀ (g : Goal) (outside : VarSet), v ∉ g.binds modes →
      v ∉ (g.requantify outside).binds modes := by
    intro g outside h
    rwa [binds_requantify]
  refine .mk ?_ ?_ (hkept.2.1.trans hbinds) (hkept.2.2.trans hreads) ?_ (hfor _ _ hisFor)
  · rw [forall_mem_append, forall_mem_cons]
    exact ⟨forall_requantifyEach hsetup hbefore, hkept.1.trans hg,
      forall_requantifyEach hsetup hafter⟩
  · exact fun hv => hfirst (mem_varsList_of_requantifyEach _ _ hv)
  · rw [forall_mem_append]
    exact ⟨forall_requantifyEach hnot honce.1, forall_requantifyEach hnot honce.2⟩

/-! ### Set-ups -/

theorem binds_construct {f : Symbol} (hf : f.isRuntime) (w : ProgVar) (args : List ProgVar) :
    (Goal.construct w f args context).binds modes = [w] := by
  cases f with
  | closure p => cases hf
  | _ => rfl

theorem binds_accessor (hacc : AccessorModes modes) (hp : p ∈ dictionaryAccessors)
    (d slot r : ProgVar) : (Synth.accessor p d slot r context).binds modes = [r] := by
  show Mode.output.vars [d, slot, r] (modes p.proc) = [r]
  rw [hacc p hp]
  rfl

theorem isSetupGoal_accessor (hp : p ∈ dictionaryAccessors) (d slot r : ProgVar) :
    (Synth.accessor p d slot r context).isSetupGoal = true := by
  show (dictionaryAccessors.map Primitive.proc).contains p.proc = true
  rw [contains_eq_mem, decide_eq_true_eq]
  exact mem_map_of_mem hp

/-- A set-up goal that binds the one variable and mentions the others. -/
structure SetupGoal (modes : ProcRef → List Mode) (g : Goal) (r : ProgVar)
    (args : List ProgVar) : Prop where
  isSetupGoal : g.isSetupGoal
  isAtom : g.isAtom
  binds : g.binds modes = [r]
  vars : ∀ v ∈ g.vars, v = r ∨ v ∈ args
  reads : ∀ v, (g.effect modes v).reads = true → v ∈ args

theorem SetupGoal.construct {f : Symbol} (hf : f.isRuntime) (w : ProgVar) (args : List ProgVar) :
    SetupGoal modes (.construct w f args context) w args where
  isSetupGoal := hf
  isAtom := rfl
  binds := binds_construct hf w args
  vars v hv := by
    have hv : v ∈ w :: args ++ w :: args := hv
    simp only [mem_append, mem_cons] at hv
    tauto
  reads v hv := by
    rw [effect_construct hf] at hv
    exact Effect.ofVars_reads.1 hv

section

variable (hacc : AccessorModes modes)

include hacc

theorem SetupGoal.accessor (hp : p ∈ dictionaryAccessors) (d slot r : ProgVar) :
    SetupGoal modes (Synth.accessor p d slot r context) r [d, slot] where
  isSetupGoal := isSetupGoal_accessor hp d slot r
  isAtom := rfl
  binds := binds_accessor hacc hp d slot r
  vars v hv := by
    have hv : v ∈ [d, slot, r] := hv
    simp only [mem_cons, not_mem_nil, or_false] at hv ⊢
    tauto
  reads v hv := by
    rw [effect_accessor hacc hp] at hv
    exact Effect.ofVars_reads.1 hv

theorem Setup.goalwise {motive : (ProgVar → Prop) → List Goal → List ProgVar → Prop}
    (nil : ∀ X, motive X [] [])
    (cons : ∀ X g goals r args bound, SetupGoal modes g r args → (∀ a ∈ args, X a) →
      motive (fun w => w = r ∨ X w) goals bound → motive X (g :: goals) (r :: bound))
    (h : Setup context X goals bound) : motive X goals bound := by
  induction h with
  | nil => exact nil _
  | construct hf hargs _ ih => exact cons _ _ _ _ _ _ (.construct hf _ _) hargs ih
  | accessor hp hargs _ ih => exact cons _ _ _ _ _ _ (.accessor hacc hp _ _ _) hargs ih

variable (h : Setup context X goals bound)

include h

theorem Setup.forall_isSetupGoal : ∀ g ∈ goals, g.isSetupGoal ∧ g.isAtom := by
  refine h.goalwise (motive := fun _ goals _ => ∀ g ∈ goals, g.isSetupGoal ∧ g.isAtom) hacc
    (by simp) fun _ g _ _ _ _ hg _ ih => ?_
  exact forall_mem_cons.2 ⟨⟨hg.isSetupGoal, hg.isAtom⟩, ih⟩

/-- The variables of a set-up are read or bound in it. -/
theorem Setup.vars : ∀ v ∈ Goal.varsList goals, v ∈ bound ∨ X v := by
  refine h.goalwise (motive := fun X goals bound => ∀ v ∈ Goal.varsList goals, v ∈ bound ∨ X v)
    hacc (fun _ _ hv => by cases hv) ?_
  intro X g goals r args bound hg hargs ih v hv
  rw [Goal.varsList, Goal.gatherList, mem_append] at hv
  rw [mem_cons]
  rcases hv with hv | hv
  · exact (hg.vars v hv).elim (fun h => .inl (.inl h)) fun h => .inr (hargs v h)
  · rcases ih v hv with h | h | h
    · exact .inl (.inr h)
    · exact .inl (.inl h)
    · exact .inr h

theorem Setup.setupVars : Goal.setupVarsList modes goals = bound := by
  refine h.goalwise (motive := fun _ goals bound => Goal.setupVarsList modes goals = bound) hacc
    (fun _ => rfl) fun _ g goals r args bound hg _ ih => ?_
  have hown : Goal.gather (Goal.setupBinds modes) g = [r] := by
    rw [gather_of_isAtom hg.isAtom, Goal.setupBinds, if_pos hg.isSetupGoal, hg.binds]
  rw [Goal.setupVarsList] at ih ⊢
  rw [Goal.gatherList, hown, ih]
  rfl

/-- Of the goals of a set-up, one binds a variable. Those before it do not mention
    the variable, and those behind it do not bind it again. -/
theorem Setup.split (hnodup : bound.Nodup) (hv : v ∈ bound) (hX : ¬ X v) :
    ∃ before g after, goals = before ++ g :: after ∧ v ∉ Goal.varsList before ∧
      g.binds modes = [v] ∧ (g.effect modes v).reads = false ∧
      ∀ k ∈ after, v ∉ k.binds modes := by
  suffices hall : (∀ k ∈ goals, ∀ u ∈ k.binds modes, u ∈ bound) ∧
      (bound.Nodup → v ∈ bound → ¬ X v → ∃ before g after, goals = before ++ g :: after ∧
        v ∉ Goal.varsList before ∧ g.binds modes = [v] ∧ (g.effect modes v).reads = false ∧
        ∀ k ∈ after, v ∉ k.binds modes) from hall.2 hnodup hv hX
  refine h.goalwise (motive := fun X goals bound => (∀ k ∈ goals, ∀ u ∈ k.binds modes, u ∈ bound) ∧
    (bound.Nodup → v ∈ bound → ¬ X v → ∃ before g after, goals = before ++ g :: after ∧
      v ∉ Goal.varsList before ∧ g.binds modes = [v] ∧ (g.effect modes v).reads = false ∧
      ∀ k ∈ after, v ∉ k.binds modes)) hacc (by simp) ?_
  rintro X g goals r args bound hg hargs ⟨hbinds, ih⟩
  refine ⟨?_, fun hnodup hv hX => ?_⟩
  · rw [forall_mem_cons, hg.binds]
    refine ⟨fun u hu => ?_, fun k hk u hu => mem_cons_of_mem _ (hbinds k hk u hu)⟩
    rw [mem_singleton.1 hu]
    exact mem_cons_self
  obtain ⟨hr, hnodup⟩ := nodup_cons.1 hnodup
  by_cases hvr : v = r
  · -- The first goal binds the variable.
    subst hvr
    refine ⟨[], g, goals, rfl, not_mem_nil, hg.binds, ?_,
      fun k hk hvk => hr (hbinds k hk v hvk)⟩
    rw [← Bool.not_eq_true]
    exact fun hread => hX (hargs v (hg.reads v hread))
  · have hX' : ¬ (v = r ∨ X v) := fun h => h.elim hvr hX
    obtain ⟨before, k, after, rfl, hbefore, hk⟩ :=
      ih hnodup ((mem_cons.1 hv).resolve_left hvr) hX'
    refine ⟨g :: before, k, after, rfl, fun hmem => ?_, hk⟩
    rw [Goal.varsList, Goal.gatherList, mem_append] at hmem
    rcases hmem with hmem | hmem
    · exact (hg.vars v hmem).elim hvr fun h => hX (hargs v h)
    · exact hbefore hmem

/-- A set-up in front of goals that it is for. -/
theorem Setup.block (hnodup : bound.Nodup) (hv : v ∈ bound) (hX : ¬ X v)
    (htargets : ∀ t ∈ targets, v ∉ t.binds modes) (hfor : IsFor targets) :
    Block modes IsFor v (goals ++ targets) := by
  have hsetups := h.forall_isSetupGoal hacc
  obtain ⟨before, g, after, rfl, hbefore, hbinds, hreads, hafter⟩ := h.split hacc hnodup hv hX
  exact .mk (fun k hk => (hsetups k hk).1) hbefore hbinds hreads
    (forall_mem_append.2 ⟨hafter, htargets⟩) hfor

end

theorem Serves.forall_isSetupGoal {s s' : WitnessState} {inputs outputs : List ProgVar}
    (h : Serves context s inputs outputs goals s') (hacc : AccessorModes modes) :
    ∀ g ∈ goals, g.isSetupGoal ∧ g.isAtom := by
  obtain ⟨bound, -, -, hsetup⟩ := h.block
  exact (hsetup _ s'.all_onRecord).1.forall_isSetupGoal hacc

end

end Clausal
