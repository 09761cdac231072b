import Clausal.Proofs.Bodies

/-!
# What becomes of goals without parts

A goal without parts gets witnesses in front of its arguments, and a set-up for
those that it takes in front of itself (`Synth.atom_cases`). Only a closure may
become a lambda expression, the body of which is such a goal.
-/

namespace Clausal

open List Goal WitnessState

variable {g core g' : Goal} {info : GoalInfo} {args inputs outputs infos : List ProgVar}
  {name : SymName} {lhs v : ProgVar} {kind : Unification} {setup : List Goal} {context : Context}
  {s s' : WitnessState} {env : WitnessEnv} {gs gs' : List Goal}

/-- The goals of set-ups are no compound ones, and are `det`. -/
theorem Setup.plain {X : ProgVar → Prop} {bound : List ProgVar} (h : Setup context X setup bound) :
    ∀ g ∈ setup, g.isAtom ∧ g.info.determinism = .det := by
  induction h with
  | nil => exact fun g hg => by cases hg
  | construct _ _ _ ih => exact forall_mem_cons.2 ⟨⟨rfl, rfl⟩, ih⟩
  | accessor hp _ _ ih =>
    have hdet := forall_accessor (P := fun p => p.determinism = .det) rfl rfl _ hp
    exact forall_mem_cons.2 ⟨⟨rfl, hdet⟩, ih⟩

theorem Serves.plain (h : Serves context s inputs outputs setup s') :
    ∀ g ∈ setup, g.isAtom ∧ g.info.determinism = .det := by
  obtain ⟨bound, -, -, hsetup⟩ := h.block
  exact (hsetup (fun _ => True) ⟨fun _ _ _ => trivial, fun _ _ _ => trivial⟩).1.plain

/-- A goal without parts has become another one, which takes and binds the given
    witnesses besides. -/
structure Extended (inputs outputs : List ProgVar) (g core : Goal) : Prop where
  atom : core.isAtom
  determinism : core.info.determinism = g.info.determinism
  nonlocals : ∀ v ∈ core.info.nonlocals, v ∈ inputs ++ outputs ∨ v ∈ g.info.nonlocals
  bound : ∀ v ∈ core.info.bound, v ∈ outputs ∨ v ∈ g.info.bound
  vars : ∀ v ∈ core.ownVars, v ∈ inputs ++ outputs ∨ v ∈ g.ownVars

namespace Extended

theorem refl (h : g.isAtom) : Extended inputs outputs g g :=
  ⟨h, rfl, fun _ => .inr, fun _ => .inr, fun _ => .inr⟩

theorem of_addWitnesses {vs : List ProgVar} (hatom : core.isAtom)
    (hinfo : core.info = Synth.addWitnesses g.info vs outputs)
    (hvs : ∀ v ∈ vs, v ∈ inputs ++ outputs)
    (hvars : ∀ v ∈ core.ownVars, v ∈ vs ∨ v ∈ g.ownVars) : Extended inputs outputs g core := by
  refine ⟨hatom, by rw [hinfo]; rfl, fun v hv => ?_, fun v hv => ?_, fun v hv => ?_⟩
  · rw [hinfo, Synth.addWitnesses, VarSet.mem_insertMany] at hv
    exact hv.imp_left (hvs v)
  · rw [hinfo, Synth.addWitnesses, VarSet.mem_insertMany] at hv
    exact hv
  · exact (hvars v hv).imp_left (hvs v)

section

variable {pred : Predicate} (parts : WitnessParts pred)

theorem call {callee : ProcRef} : Extended parts.inputs parts.outputs (.call info callee name args)
    (.call (Synth.addWitnesses info parts.all parts.outputs) callee name (parts.all ++ args)) :=
  .of_addWitnesses rfl rfl (fun _ => WitnessParts.mem_all.1) fun _ => mem_append.1

theorem foreign {code : ForeignCode} : Extended parts.inputs parts.outputs (.foreign info code)
    (.foreign (Synth.addWitnesses info parts.all parts.outputs)
      { code with args := Synth.foreignWitnesses parts ++ code.args }) := by
  refine .of_addWitnesses rfl rfl (fun _ => WitnessParts.mem_all.1) fun v hv => ?_
  have hv : v ∈ ((Synth.foreignWitnesses parts ++ code.args) ++ code.extraArgs).map (·.var) := hv
  rw [append_assoc, map_append, Synth.map_var_foreignWitnesses] at hv
  exact mem_append.1 hv

end

theorem genericCall {callee : GenericCallee} {modes modes' : List Mode} :
    Extended infos [] (.genericCall info callee args modes)
      (.genericCall (Synth.addWitnesses info infos []) callee (infos ++ args) modes') := by
  refine .of_addWitnesses rfl rfl (fun v hv => by simpa using hv) fun v hv => ?_
  have hv : v ∈ callee.vars ++ (infos ++ args) := hv
  show v ∈ infos ∨ v ∈ callee.vars ++ args
  simp only [mem_append] at hv ⊢
  tauto

theorem cons {f : Symbol} : Extended inputs outputs (.unify info lhs (.functor f args) kind)
    (.unify (Synth.addWitnesses info (inputs ++ outputs) outputs) lhs
      (.functor f (inputs ++ outputs ++ args)) (Synth.addCellArgs (inputs ++ outputs) kind)) := by
  refine .of_addWitnesses rfl rfl (fun _ => id) fun v hv => ?_
  have hkind : v ∈ (Synth.addCellArgs (inputs ++ outputs) kind).vars →
      v ∈ inputs ++ outputs ∨ v ∈ kind.vars := by
    cases kind with
    | construct | deconstruct =>
      simp only [Synth.addCellArgs, Unification.vars, mem_cons, mem_append]
      tauto
    | _ => exact .inr
  have hv : v ∈ lhs :: (inputs ++ outputs ++ args) ++ (Synth.addCellArgs _ kind).vars := hv
  show _ ∨ v ∈ lhs :: args ++ kind.vars
  simp only [cons_append, mem_cons, mem_append] at hkind hv ⊢
  tauto

theorem unifyVar {canFail : Bool} {old : List ProgVar} {rhs : ProgVar} :
    Extended infos [] (.unify info lhs (.var rhs) (.complicated canFail old))
      (.unify (Synth.addWitnesses info infos []) lhs (.var rhs) (.complicated canFail infos)) := by
  refine .of_addWitnesses rfl rfl (fun v hv => by simpa using hv) fun v hv => ?_
  have hv : v ∈ lhs :: rhs :: infos := hv
  show _ ∨ v ∈ lhs :: rhs :: old
  simp only [mem_cons] at hv ⊢
  tauto

end Extended

namespace Synth

/-- A goal gets witnesses and, in front of it, a set-up for those that it takes. -/
def GetsWitnesses (s : WitnessState) (g g' : Goal) (s' : WitnessState) : Prop :=
  ∃ inputs outputs setup core, Serves g.info.context s inputs outputs setup s' ∧
    Extended inputs outputs g core ∧ g' = .withSetup setup core

theorem GetsWitnesses.refl (h : g.isAtom) (s : WitnessState) : GetsWitnesses s g g s :=
  ⟨[], [], [], g, .bare (.refl s) (by simp) (by simp), .refl h, rfl⟩

theorem callGoal_getsWitnesses {callee : ProcRef}
    (h : Returns (callGoal env info callee name args) s g' s') :
    GetsWitnesses s (.call info callee name args) g' s' := by
  obtain ⟨pred, -, ⟨-, rfl, rfl⟩ | ⟨-, w, parts, hw, rfl⟩⟩ := callGoal_cases h
  · exact .refl rfl _
  · exact ⟨_, _, _, _, hw.serves, .call parts, rfl⟩

theorem atom_cases (hg : g.isAtom) (h : Returns (goal env g) s g' s') :
    GetsWitnesses s g g' s' ∨ ∃ info lhs callee args kind head name s₁ callInfo body captured,
      g = .unify info lhs (.functor (.closure callee) args) kind ∧
      ClosureHead env lhs callee args s head name s₁ ∧
      (∀ v, v ∈ callInfo.nonlocals ∨ v ∈ callInfo.bound → v ∈ args ++ head.args) ∧
      (∀ v, v ∈ captured ↔
        v ∈ args ∨ v ∈ body.freeVars ∧ v ∉ head.args ∧ s'.isOuterWitness v) ∧
      Returns (callGoal env callInfo callee name (args ++ head.args)) s₁ body s' ∧
      g' = .lambda (addWitnesses info captured []) lhs { head with captured } body kind := by
  cases g with
  | call => exact .inl (callGoal_getsWitnesses (by rwa [goal] at h))
  | genericCall =>
    rw [goal] at h
    rcases genericGoal_cases h with ⟨rfl, rfl⟩ | ⟨_, _, hs, rfl⟩
    · exact .inl (.refl rfl _)
    · exact .inl ⟨_, _, _, _, hs, .genericCall, rfl⟩
  | foreign =>
    rw [goal] at h
    obtain ⟨pred, -, ⟨-, rfl, rfl⟩ | ⟨-, w, parts, hw, rfl⟩⟩ := foreignGoal_cases h
    · exact .inl (.refl rfl _)
    · exact .inl ⟨_, _, _, _, hw.serves, .foreign parts, rfl⟩
  | unify info lhs rhs kind =>
    rw [goal] at h
    cases rhs with
    | var rhs =>
      rcases unifyGoal_var_cases h with ⟨rfl, rfl⟩ | ⟨_, _, _, rfl, hs, rfl⟩
      · exact .inl (.refl rfl _)
      · exact .inl ⟨_, _, _, _, hs, .unifyVar, rfl⟩
    | functor f args =>
      cases f with
      | closure callee =>
        obtain ⟨_, -, ⟨-, rfl, rfl⟩ | ⟨-, _, _, _, _, _, _, hhead, hinfo, hcaptured, hbody, rfl⟩⟩ :=
          unifyGoal_closure_cases h
        · exact .inl (.refl rfl _)
        · exact .inr ⟨_, _, _, _, _, _, _, _, _, _, _, rfl, hhead, hinfo.2, hcaptured, hbody, rfl⟩
      | cons name arity =>
        rcases consGoal_cases h with ⟨rfl, rfl⟩ | ⟨_, _, _, hs, -, rfl⟩
        · exact .inl (.refl rfl _)
        · exact .inl ⟨_, _, _, _, hs, .cons, rfl⟩
      | _ =>
        obtain ⟨rfl, rfl⟩ := returns_pure.1 h
        exact .inl (.refl rfl _)
  | _ => cases hg

theorem callGoal_advances {callee : ProcRef}
    (h : Returns (callGoal env info callee name args) s g' s') : s.Advances s' := by
  obtain ⟨_, _, _, _, hs, -⟩ := callGoal_getsWitnesses h
  exact hs.advances

theorem Worked.advances (h : Worked env s gs gs' s')
    (ih : ∀ c ∈ gs, ∀ {g' s s'}, Returns (goal env c) s g' s' → s.Advances s') : s.Advances s' := by
  induction h with
  | nil => exact .refl _
  | cons hg _ ih' =>
    exact (ih _ mem_cons_self hg).trans (ih' fun c hc => ih c (mem_cons_of_mem _ hc))

/-- A body only adds variables and puts new ones on record. -/
theorem goal_advances (g : Goal) : ∀ {g' s s'}, Returns (goal env g) s g' s' → s.Advances s' := by
  induction g using Goal.parts_induction with
  | step g ih =>
  intro g' s s' h
  rcases g.shape with hg | ⟨_, _, _, _, _, rfl⟩ | hg
  · obtain ⟨gs', _, hr, -⟩ := returns_compound hg h
    exact hr.worked.advances ih
  · obtain ⟨_, _, hb, -⟩ := returns_lambda h
    exact ih _ mem_cons_self hb
  · rcases atom_cases hg h with ⟨_, _, _, _, hs, -⟩ |
      ⟨_, _, _, _, _, _, _, _, _, _, _, -, hhead, -, -, hbody, -⟩
    · exact hs.advances
    · exact hhead.grows.trans (callGoal_advances hbody)

theorem goal_grows (g : Goal) (h : Returns (goal env g) s g' s') : s.Grows s' :=
  (goal_advances g h).toGrows

theorem Worked.grows (h : Worked env s gs gs' s') : s.Grows s' :=
  (h.advances fun g _ _ _ _ => goal_advances g).toGrows

end Synth

end Clausal
