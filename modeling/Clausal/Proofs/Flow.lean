import Clausal.Proofs.CallSites
import Clausal.Proofs.Effects

/-!
# Reading what is bound

The pass keeps one record of witnesses for a whole body. What is put on record
in one branch is found there in the others, and afterwards, although it may not
be bound (`HiddenType.reads_witness_of_other_branch`). Everything else that
bodies come to read is bound, so that a body reads bound variables only if and
only if what its goals take from the records is bound where they take it
(`Supplied`).
-/

namespace Clausal

open List Effect Mode Goal

variable {s : WitnessState} {lhs v : ProgVar} {callee pred : Predicate} {args : List ProgVar}
  {info : GoalInfo} {name : SymName} {s' s₁ : WitnessState} {p : Primitive}
  {targets sources : List ProgVar} {out : WitnessHead}

/-! ### What is taken from the records -/

/-- The variable is on record as a dictionary, or type-infos are found in or
    through it. -/
def WitnessState.OnRecord (s : WitnessState) (v : ProgVar) : Prop :=
  (∃ t source, s.witnesses.typeInfos.find? t = some source ∧ source.var = v) ∨
    ∃ c, s.witnesses.dictionaries.find? c = some v

theorem WitnessState.all_onRecord (s : WitnessState) : s.witnesses.All fun _ => s.OnRecord :=
  ⟨fun t source ht => .inl ⟨t, source, ht, rfl⟩, fun c _ hc => .inr ⟨c, hc⟩⟩

theorem WitnessState.OnRecord.keeps (h : s.OnRecord v) (hk : s.Keeps s') :
    s'.OnRecord v := by
  rcases h with ⟨t, source, ht, hv⟩ | ⟨c, hc⟩
  · exact .inl ⟨t, source, hk.infos t source ht, hv⟩
  · exact .inr ⟨c, hk.dicts c v hc⟩

/-- What an atomic goal comes to read of what is on record is bound, where the
    variables `B` are. -/
def TakesBound (env : WitnessEnv) (modes : ProcRef → List Mode) (g : Goal) (s : WitnessState)
    (B : ProgVar → Prop) : Prop :=
  ∀ g' s', Synth.Returns (Synth.goal env g) s g' s' →
    ∀ v, (g'.effect modes v).reads = true → s'.OnRecord v → B v

mutual

/-- All that the goals of a body take from the records is bound where they take
    it, if the variables `B` are bound at the start. Alternatives start with
    the same bound variables, but each with what the ones before it have left
    on record. -/
def Supplied (env : WitnessEnv) (modes : ProcRef → List Mode) :
    Goal → WitnessState → (ProgVar → Prop) → Prop
  | .conj _ _ gs, s, B => SuppliedInTurn env modes gs s B
  | .disj _ gs, s, B => SuppliedEach env modes gs s B
  | .switch _ _ _ arms, s, B => SuppliedArms env modes arms s B
  | .negation _ g, s, B | .scope _ _ g, s, B => Supplied env modes g s B
  | .ite _ _ c y n, s, B =>
    Supplied env modes c s B ∧ ∀ c' s₁, Synth.Returns (Synth.goal env c) s c' s₁ →
      Supplied env modes y s₁ (fun v => B v ∨ (c'.effect modes v).binds = true) ∧
        ∀ y' s₂, Synth.Returns (Synth.goal env y) s₁ y' s₂ → Supplied env modes n s₂ B
  | .lambda _ _ head body _, s, B =>
    Supplied env modes body s fun v => B v ∨ v ∈ Mode.input.vars head.args head.modes
  | .call i p n args, s, B => TakesBound env modes (.call i p n args) s B
  | .genericCall i p args ms, s, B => TakesBound env modes (.genericCall i p args ms) s B
  | .foreign i code, s, B => TakesBound env modes (.foreign i code) s B
  | .unify i lhs rhs kind, s, B => TakesBound env modes (.unify i lhs rhs kind) s B

/-- So it is with goals one after the other. -/
def SuppliedInTurn (env : WitnessEnv) (modes : ProcRef → List Mode) :
    List Goal → WitnessState → (ProgVar → Prop) → Prop
  | [], _, _ => True
  | g :: gs, s, B =>
    Supplied env modes g s B ∧ ∀ g' s₁, Synth.Returns (Synth.goal env g) s g' s₁ →
      SuppliedInTurn env modes gs s₁ fun v => B v ∨ (g'.effect modes v).binds = true

/-- So it is with alternatives. -/
def SuppliedEach (env : WitnessEnv) (modes : ProcRef → List Mode) :
    List Goal → WitnessState → (ProgVar → Prop) → Prop
  | [], _, _ => True
  | g :: gs, s, B =>
    Supplied env modes g s B ∧ ∀ g' s₁, Synth.Returns (Synth.goal env g) s g' s₁ →
      SuppliedEach env modes gs s₁ B

/-- So it is with the arms of a switch. -/
def SuppliedArms (env : WitnessEnv) (modes : ProcRef → List Mode) :
    List (Symbol × Goal) → WitnessState → (ProgVar → Prop) → Prop
  | [], _, _ => True
  | (_, g) :: arms, s, B =>
    Supplied env modes g s B ∧ ∀ g' s₁, Synth.Returns (Synth.goal env g) s g' s₁ →
      SuppliedArms env modes arms s₁ B

end

/-! ### Arguments and modes -/

theorem WitnessParts.length_witnessModes (parts : WitnessParts callee) :
    parts.all.length = callee.witnessModes.length := by
  simp [← parts.modes_eq, all]

/-- Of the witnesses that a predicate takes, those of mode `in` are taken and
    those of mode `out` are bound. -/
theorem WitnessParts.vars_witnessModes (parts : WitnessParts callee) :
    Mode.input.vars parts.all callee.witnessModes = parts.inputs ∧
      Mode.output.vars parts.all callee.witnessModes = parts.outputs := by
  have hsplit : ∀ mode : Mode, mode.vars parts.all callee.witnessModes =
      mode.vars parts.univDicts (parts.univDicts.map fun _ => .input) ++
        mode.vars parts.existDicts (parts.existDicts.map fun _ => .output) ++
        mode.vars parts.univInfos (parts.univInfos.map fun _ => .input) ++
        mode.vars parts.existInfos (parts.existInfos.map fun _ => .output) := by
    intro mode
    rw [← parts.modes_eq, all, vars_append (by simp), vars_append (by simp),
      vars_append (by simp)]
  rw [hsplit, hsplit]
  simp only [vars_const]
  simp [inputs, outputs]

/-- The accessors have the modes that they are called with. -/
def AccessorModes (modes : ProcRef → List Mode) : Prop :=
  ∀ p ∈ dictionaryAccessors, modes p.proc = [.input, .input, .output]

/-- The modes of procedures before and after the pass: those of witnesses go in
    front. The declarations are those of a state of the module on the way. -/
structure WitnessModes (env : Module) (modes modes' : ProcRef → List Mode) : Prop where
  same : ∀ r pred, env.findPred? r.pred = some pred → pred.witnessCount = 0 → modes' r = modes r
  witnesses : ∀ r pred, env.findPred? r.pred = some pred → pred.witnessCount ≠ 0 →
    modes' r = pred.witnessModes ++ modes r ∨ modes r = [] ∧ modes' r = []
  accessors : AccessorModes modes'
  declared : ∀ p ∈ dictionaryAccessors,
    ∃ pred, env.findPred? p.proc.pred = some pred ∧ pred.witnessCount = 0

/-- Besides, what a state of the module on the way has as the modes of a
    procedure ends with those before the pass, one for each argument. -/
structure ModesAgree (env : Module) (modes modes' : ProcRef → List Mode) : Prop extends
    WitnessModes env modes modes' where
  closures : ∀ r pred proc, env.findProc? r = some (pred, proc) →
    modes r <:+ proc.modes ∧ (modes r).length = pred.argTypes.length

/-! ### Set-ups -/

section

variable {context : Context} {modes : ProcRef → List Mode} {X N : ProgVar → Prop}
  {goals : List Goal} {bound : List ProgVar}

theorem effect_construct {f : Symbol} (hf : f.isRuntime) (args : List ProgVar) (w : ProgVar) :
    (Goal.construct v f args context).effect modes w = .ofVars w args [v] false := by
  cases f with
  | closure p => cases hf
  | _ => rfl

theorem effect_accessor (hacc : AccessorModes modes) (hp : p ∈ dictionaryAccessors)
    (d slot r w : ProgVar) :
    (Synth.accessor p d slot r context).effect modes w = .ofVars w [d, slot] [r] false := by
  rw [Synth.accessor, effect_callProc, hacc p hp]
  have hdet : (p.determinism.maxSolutions == .zero) = false :=
    forall_accessor (P := fun p => (p.determinism.maxSolutions == .zero) = false) rfl rfl p hp
  rw [hdet]
  rfl

/-- A set-up binds its variables, and reads nothing else without having bound
    it. -/
theorem Setup.effect (h : Setup context X goals bound)
    (hacc : AccessorModes modes) :
    (∀ v, (Goal.sequence modes v goals).reads = true → X v) ∧
      ∀ v ∈ bound, (Goal.sequence modes v goals).binds = true := by
  -- One goal that binds `r` and reads what is of the kind `X`.
  have hstep : ∀ (X : ProgVar → Prop) (g : Goal) (goals : List Goal) (args bound : List ProgVar)
      (r : ProgVar), (∀ w, g.effect modes w = .ofVars w args [r] false) → (∀ a ∈ args, X a) →
      ((∀ v, (Goal.sequence modes v goals).reads = true → v = r ∨ X v) ∧
        ∀ v ∈ bound, (Goal.sequence modes v goals).binds = true) →
      (∀ v, (Goal.sequence modes v (g :: goals)).reads = true → X v) ∧
        ∀ v ∈ r :: bound, (Goal.sequence modes v (g :: goals)).binds = true := by
    intro X g goals args bound r hg hargs ih
    simp only [Goal.sequence, hg, Effect.followedBy, Effect.ofVars, Bool.false_or,
      Bool.or_eq_true, Bool.and_eq_true, Bool.not_eq_true', contains_eq_mem,
      decide_eq_true_eq, decide_eq_false_iff_not, mem_cons, not_mem_nil, or_false]
    refine ⟨fun v hv => ?_, fun v hv => hv.imp id (ih.2 v)⟩
    rcases hv with hv | ⟨hne, hv⟩
    · exact hargs v hv
    · exact (ih.1 v hv).resolve_left hne
  induction h with
  | nil => exact ⟨fun v hv => absurd hv Bool.false_ne_true, by simp⟩
  | construct hf hargs _ ih =>
    exact hstep _ _ _ _ _ _ (effect_construct hf _) hargs ih
  | accessor hp hargs _ ih =>
    exact hstep _ _ _ _ _ _ (effect_accessor hacc hp _ _ _) hargs ih

theorem Setup.withSetup (h : Setup context X goals bound)
    (hacc : AccessorModes modes) {core : Goal}
    (hcore : ∀ v, (core.effect modes v).reads = true → v ∈ bound ∨ X v ∨ N v) :
    (∀ v, ((Goal.withSetup goals core).effect modes v).reads = true → X v ∨ N v) ∧
      ∀ v, (core.effect modes v).binds = true →
        ((Goal.withSetup goals core).effect modes v).binds = true := by
  obtain ⟨hreads, hbinds⟩ := h.effect hacc
  simp only [effect_withSetup, Effect.followedBy, Bool.or_eq_true, Bool.and_eq_true,
    Bool.not_eq_true']
  refine ⟨fun v hv => ?_, fun v hv => .inr hv⟩
  rcases hv with hv | ⟨hne, hv⟩
  · exact .inl (hreads v hv)
  · refine (hcore v hv).resolve_left fun hb => ?_
    rw [hbinds v hb] at hne
    cases hne

end

/-! ### Atomic goals -/

/-- What was bound still is, and what has come to be read is on record. -/
structure TakesRecorded (s : WitnessState) (e e' : ProgVar → Effect) : Prop where
  binds : ∀ v, (e v).binds = true → (e' v).binds = true
  reads : ∀ v, (e' v).reads = true → s.OnRecord v ∨ (e v).reads = true

theorem TakesRecorded.refl (s : WitnessState) (e : ProgVar → Effect) : TakesRecorded s e e :=
  ⟨fun _ h => h, fun _ h => .inr h⟩

theorem TakesRecorded.ofVars {reads reads' binds binds' : List ProgVar} {unreachable : Bool}
    (hb : ∀ v ∈ binds, v ∈ binds') (hr : ∀ v ∈ reads', s.OnRecord v ∨ v ∈ reads) :
    TakesRecorded s (fun v => .ofVars v reads binds unreachable)
      fun v => .ofVars v reads' binds' unreachable := by
  refine ⟨fun v hv => ?_, fun v hv => ?_⟩
  · exact ofVars_binds.2 ((ofVars_binds.1 hv).imp_right (hb v))
  · exact (hr v (ofVars_reads.1 hv)).imp_right ofVars_reads.2

section

variable {env : WitnessEnv} {modes modes' : ProcRef → List Mode} {s' : WitnessState}
  {context : Context} {e : ProgVar → Effect} {core g g' : Goal}

theorem TakesRecorded.follows {e' : ProgVar → Effect} (h : TakesRecorded s e e') :
    Follows e e' fun B => ∀ v, (e' v).reads = true → s.OnRecord v → B v := by
  refine ⟨h.binds, fun B₀ B hB hreads => ⟨fun hreads' v hv _ => hreads' v hv, fun ht v hv => ?_⟩⟩
  rcases h.reads v hv with hrec | hold
  · exact ht v hv hrec
  · exact hB v (hreads v hold)

theorem Synth.Returns.forall_iff {α : Type} {x : Synth α} {a : α} (h : Returns x s a s')
    {p : α → WitnessState → Prop} : (∀ b s₁, Returns x s b s₁ → p b s₁) ↔ p a s' := by
  refine ⟨fun hp => hp a s' h, fun hp b s₁ hb => ?_⟩
  obtain ⟨rfl, rfl⟩ := h.unique hb
  exact hp

theorem TakesRecorded.takesBound
    (h : TakesRecorded s' (fun v => g.effect modes v) fun v => g'.effect modes' v)
    (hg : Synth.Returns (Synth.goal env g) s g' s') :
    Follows (fun v => g.effect modes v) (fun v => g'.effect modes' v)
      (TakesBound env modes' g s) :=
  h.follows.congr fun _ => by rw [TakesBound, hg.forall_iff]

theorem Serves.takesRecorded {inputs outputs : List ProgVar} {setup : List Goal}
    (h : Serves context s inputs outputs setup s') (hacc : AccessorModes modes')
    (hb : ∀ v, (e v).binds = true → (core.effect modes' v).binds = true)
    (hr : ∀ v, (core.effect modes' v).reads = true → v ∈ inputs ∨ (e v).reads = true) :
    TakesRecorded s' e fun v => (Goal.withSetup setup core).effect modes' v := by
  obtain ⟨bound, -, -, hs⟩ := h.block
  obtain ⟨hsetup, hinputs⟩ := hs _ s'.all_onRecord
  obtain ⟨hreads, hbinds⟩ := hsetup.withSetup hacc (fun v hv => (hr v hv).elim
    (fun hv => (hinputs v hv).imp_right .inl) fun hv => .inr (.inr hv))
  exact ⟨fun v hv => hbinds v (hb v hv), hreads⟩

namespace Synth

theorem callGoal_takesRecorded (hm : ModesAgree env.env modes modes') {callee : ProcRef}
    (h : Returns (callGoal env info callee name args) s g' s') :
    TakesRecorded s' (fun v => (Goal.call info callee name args).effect modes v)
      fun v => g'.effect modes' v := by
  obtain ⟨pred, hpred, ⟨hz, rfl, rfl⟩ | ⟨hnz, w, parts, hw, rfl⟩⟩ := callGoal_cases h
  · simp only [Goal.effect, hm.same callee pred (Module.pred_eq_ok.1 hpred) hz]
    exact .refl ..
  · -- Witnesses go with their modes, if the callee has any.
    have hmodes : (∀ v ∈ Mode.input.vars (parts.all ++ args) (modes' callee),
          v ∈ parts.inputs ∨ v ∈ Mode.input.vars args (modes callee)) ∧
        ∀ v ∈ Mode.output.vars args (modes callee),
          v ∈ Mode.output.vars (parts.all ++ args) (modes' callee) := by
      rcases hm.witnesses callee pred (Module.pred_eq_ok.1 hpred) hnz with hm | ⟨hm, hm'⟩
      · obtain ⟨hin, hout⟩ := parts.vars_witnessModes
        rw [hm, vars_append parts.length_witnessModes,
          vars_append parts.length_witnessModes, hin, hout]
        exact ⟨fun v => mem_append.1, fun v => mem_append_right _⟩
      · rw [hm, hm']
        simp [Mode.vars]
    refine hw.serves.takesRecorded hm.accessors (fun v hv => ?_) fun v hv => ?_
    · rw [Goal.effect, ofVars_binds] at hv ⊢
      exact hv.imp_right (hmodes.2 v)
    · rw [Goal.effect, ofVars_reads] at hv
      exact (hmodes.1 v hv).imp_right fun hv => by rwa [Goal.effect, ofVars_reads]

theorem genericGoal_takesRecorded (hacc : AccessorModes modes') {callee : GenericCallee}
    {ms : List Mode} (h : Returns (genericGoal env info callee args ms) s g' s') :
    TakesRecorded s' (fun v => (Goal.genericCall info callee args ms).effect modes v)
      fun v => g'.effect modes' v := by
  rcases genericGoal_cases h with ⟨rfl, -⟩ | ⟨infos, setup, hmade, rfl⟩
  · simp only [Goal.effect]
    exact .refl ..
  · have hvars : ∀ mode : Mode, mode.vars (infos ++ args) (infos.map (fun _ => .input) ++ ms) =
        (if Mode.input = mode then infos else []) ++ mode.vars args ms := by
      intro mode
      rw [vars_append (by simp), vars_const]
    refine hmade.takesRecorded hacc (fun v hv => ?_) fun v hv => ?_
    · rw [Goal.effect, ofVars_binds] at hv ⊢
      rwa [hvars]
    · rw [Goal.effect, ofVars_reads, hvars] at hv
      rw [Goal.effect, ofVars_reads]
      simp only [if_true, mem_append] at hv ⊢
      tauto

theorem foreignGoal_takesRecorded (hacc : AccessorModes modes') {code : ForeignCode}
    (h : Returns (foreignGoal env info code) s g' s') :
    TakesRecorded s' (fun v => (Goal.foreign info code).effect modes v)
      fun v => g'.effect modes' v := by
  obtain ⟨pred, -, ⟨-, rfl, -⟩ | ⟨-, w, parts, hw, rfl⟩⟩ := foreignGoal_cases h
  · simp only [Goal.effect]
    exact .refl ..
  · have hvars : ∀ mode : Mode,
        ({ code with args := foreignWitnesses parts ++ code.args } : ForeignCode).varsOf mode =
          ((foreignWitnesses parts).filter (·.mode == mode)).map (·.var) ++ code.varsOf mode := by
      intro mode
      simp [ForeignCode.varsOf]
    refine hw.serves.takesRecorded hacc (fun v hv => ?_) fun v hv => ?_
    · rw [Goal.effect, ofVars_binds] at hv ⊢
      rw [hvars]
      exact hv.imp_right (mem_append_right _)
    · rw [Goal.effect, ofVars_reads, hvars] at hv
      rw [Goal.effect, ofVars_reads]
      refine (mem_append.1 hv).imp_left fun hv => ?_
      -- A witness that is not bound is taken.
      obtain ⟨a, ha, rfl⟩ := mem_map.1 hv
      obtain ⟨ha, hin⟩ := mem_filter.1 ha
      have hall : a.var ∈ parts.all := by
        rw [← map_var_foreignWitnesses parts]
        exact mem_map_of_mem ha
      have hout : a.var ∉ parts.outputs := by
        obtain ⟨p, -, rfl⟩ := mem_map.1 ha
        intro hmem
        simp [hmem] at hin
      simp only [WitnessParts.all, WitnessParts.inputs, WitnessParts.outputs,
        mem_append] at hall hout ⊢
      tauto

theorem ClosureHead.modes_eq (hm : ModesAgree env.env modes modes') {callee : ProcRef}
    {head : LambdaHead} (h : ClosureHead env lhs callee args s head name s')
    (hpred : env.env.findPred? callee.pred = some pred)
    (harity : (args ++ head.args).length = pred.argTypes.length) :
    modes callee = (modes callee).take args.length ++ head.modes ∧
      args.length = ((modes callee).take args.length).length := by
  obtain ⟨q, proc, hproc, -, -, -, hmodes⟩ := h.proc
  rw [Module.proc_eq_ok] at hproc
  obtain ⟨⟨w, hw⟩, hl⟩ := hm.closures callee q proc hproc
  obtain rfl : pred = q := by
    have hq := (Module.findProc?_eq_some.1 hproc).1
    rw [hpred, Option.some.injEq] at hq
    exact hq
  rw [← harity, length_append] at hl
  -- The procedure may have been through the pass already and have the modes `w` in
  -- front; counting from the end passes over them.
  have hdrop : proc.modes.length - head.args.length = w.length + args.length := by
    rw [← hw, length_append]
    omega
  constructor
  · rw [hmodes, hdrop, ← hw, ← drop_drop, drop_left, take_append_drop]
  · rw [length_take]
    omega

theorem closure_takesRecorded (hm : ModesAgree env.env modes modes') {callInfo : GoalInfo}
    {callee : ProcRef} {captured : List ProgVar} {head : LambdaHead} {body : Goal}
    {kind : Unification} (hpred : env.env.pred callee.pred = .ok pred) (hnz : pred.witnessCount ≠ 0)
    (hhead : ClosureHead env lhs callee args s head name s₁)
    (hbody : Returns (callGoal env callInfo callee name (args ++ head.args)) s₁ body s') :
    TakesRecorded s'
      (fun v => (Goal.unify info lhs (.functor (.closure callee) args) kind).effect modes v)
      fun v => (Goal.lambda (addWitnesses info captured []) lhs { head with captured } body
        kind).effect modes' v := by
  have harity : (args ++ head.args).length = pred.argTypes.length := by
    obtain ⟨pred', hpred', ⟨hz, -⟩ | ⟨-, w, parts, hw, -⟩⟩ := callGoal_cases hbody
    · rw [hpred, Except.ok.injEq] at hpred'
      exact absurd (hpred' ▸ hz) hnz
    · rw [hpred, Except.ok.injEq] at hpred'
      exact hpred' ▸ hw.arity
  obtain ⟨hmodes, hl⟩ := hhead.modes_eq hm (Module.pred_eq_ok.1 hpred) harity
  refine ⟨fun v hv => hv, fun v hv => ?_⟩
  simp only [Goal.effect, Bool.and_eq_true, Bool.not_eq_true', contains_eq_mem,
    decide_eq_false_iff_not] at hv
  obtain ⟨hv, hinput⟩ := hv
  refine ((callGoal_takesRecorded hm hbody).reads v hv).imp_right fun hv => ?_
  rw [Goal.effect, ofVars_reads, hmodes, vars_append hl] at hv
  rw [Goal.effect, ofVars_reads]
  -- What the call reads of its arguments is captured, or an input of the lambda expression.
  rcases mem_append.1 hv with hv | hv
  · exact mem_of_mem_vars hv
  · exact absurd hv hinput

theorem unifyGoal_takesRecorded (hm : ModesAgree env.env modes modes') {rhs : UnifyRhs}
    {kind : Unification} (h : Returns (unifyGoal env info lhs rhs kind) s g' s') :
    TakesRecorded s' (fun v => (Goal.unify info lhs rhs kind).effect modes v)
      fun v => g'.effect modes' v := by
  have hsame : TakesRecorded s' (fun v => (Goal.unify info lhs rhs kind).effect modes v)
      fun v => (Goal.unify info lhs rhs kind).effect modes' v := by
    simp only [Goal.effect]
    exact .refl ..
  cases rhs with
  | var v =>
    rcases unifyGoal_var_cases h with ⟨rfl, -⟩ | ⟨canFail, old, infos, rfl, hs, rfl⟩
    · exact hsame
    · refine hs.takesRecorded hm.accessors (fun w hw => hw) fun w hw => ?_
      have hw : w ∈ lhs :: v :: infos := ofVars_reads.1 hw
      rw [Goal.effect, ofVars_reads]
      show _ ∨ w ∈ lhs :: v :: old
      simp only [mem_cons] at hw ⊢
      tauto
  | functor f args =>
    cases f with
    | closure callee =>
      obtain ⟨pred, hpred, ⟨-, rfl, -⟩ |
        ⟨hnz, head, name, s₁, callInfo, body, captured, hhead, -, -, hbody, rfl⟩⟩ :=
        unifyGoal_closure_cases h
      · exact hsame
      · exact closure_takesRecorded hm hpred hnz hhead hbody
    | cons name arity =>
      rcases consGoal_cases h with ⟨rfl, -⟩ | ⟨inputs, outputs, setup, hs,
        ⟨⟨v, f, as, rfl⟩, rfl⟩ | ⟨hkind, rfl, rfl⟩, rfl⟩
      · exact hsame
      · refine hs.takesRecorded hm.accessors (fun w hw => hw) fun w hw => ?_
        have hw : w ∈ inputs ++ [] ++ as := ofVars_reads.1 hw
        rw [Goal.effect, ofVars_reads]
        show _ ∨ w ∈ as
        simpa using hw
      · -- What is found in a value is bound there, and no more is read.
        simp only [Goal.effect]
        cases kind with
        | construct v f as => exact absurd rfl (hkind v f as)
        | deconstruct v f as canFail =>
          exact .ofVars (fun w hw => mem_append_right _ hw) fun w hw => .inr hw
        | complicated canFail old =>
          exact .ofVars (fun w hw => mem_append_right _ hw) fun w hw => .inr hw
        | assign | test => exact .ofVars (fun w hw => hw) fun w hw => .inr hw
    | _ =>
      obtain ⟨rfl, -⟩ := returns_pure.1 h
      exact hsame

/-! ### Bodies -/

theorem suppliedArms_eq (arms : List (Symbol × Goal)) (B : ProgVar → Prop) :
    SuppliedArms env modes arms s B = SuppliedEach env modes (arms.map Prod.snd) s B := by
  induction arms generalizing s with
  | nil => rfl
  | cons arm arms ih => simp only [SuppliedArms, map_cons, SuppliedEach, ih]

section

variable {gs gs' : List Goal} (h : Worked env s gs gs' s')
  (ih : ∀ g ∈ gs, ∀ {g' s s'}, Returns (goal env g) s g' s' →
    Follows (fun v => g.effect modes v) (fun v => g'.effect modes' v) (Supplied env modes' g s))

include h ih

theorem Worked.sequence_follows : Follows (fun v => Goal.sequence modes v gs)
    (fun v => Goal.sequence modes' v gs') (SuppliedInTurn env modes' gs s) := by
  induction h with
  | nil => exact .same (fun _ => rfl) fun _ => trivial
  | cons hg _ ih' =>
    obtain ⟨hfollows, hrest⟩ := forall_mem_cons.1 ih
    simp only [Goal.sequence]
    refine ((hfollows hg).followedBy (ih' hrest)).congr fun B => ?_
    rw [SuppliedInTurn, hg.forall_iff]

theorem Worked.choice_follows : Follows (fun v => Goal.choice modes v gs)
    (fun v => Goal.choice modes' v gs') (SuppliedEach env modes' gs s) := by
  induction h with
  | nil => exact .same (fun _ => rfl) fun _ => trivial
  | cons hg _ ih' =>
    obtain ⟨hfollows, hrest⟩ := forall_mem_cons.1 ih
    simp only [Goal.choice]
    refine ((hfollows hg).or (ih' hrest)).congr fun B => ?_
    rw [SuppliedEach, hg.forall_iff]

end

/-- What becomes of a body: it reads bound variables only, just in case what it
    takes from the records is bound. -/
theorem goal_follows (hm : ModesAgree env.env modes modes') (g : Goal) :
    ∀ {g' s s'}, Returns (goal env g) s g' s' →
      Follows (fun v => g.effect modes v) (fun v => g'.effect modes' v)
        (Supplied env modes' g s) := by
  induction g using parts_induction with
  | step g ih =>
  intro g' s s' h
  cases g with
  | conj i kind gs =>
    obtain ⟨gs', _, hr, ⟨⟩⟩ := returns_compound rfl h
    have heffect : ∀ v, Goal.sequence modes' v (if kind = .plain then gs'.flatMap Goal.conjuncts
        else gs') = Goal.sequence modes' v gs' := by
      intro v
      split
      · exact sequence_flatMap gs'
      · rfl
    simp only [Goal.effect, heffect]
    exact hr.worked.sequence_follows ih
  | disj =>
    obtain ⟨gs', _, hr, ⟨⟩⟩ := returns_compound rfl h
    simp only [Goal.effect]
    exact hr.worked.choice_follows ih
  | switch i w f arms =>
    obtain ⟨gs', _, hr, hfill⟩ := returns_compound rfl h
    cases hfill
    simp only [Goal.effect, armChoice_eq]
    -- The variable is read as before, and does not become bound by that.
    have hvar : Follows (fun v => .ofVars v [w] [] false) (fun v => .ofVars v [w] [] false)
        fun _ => True := .same (fun _ => rfl) fun _ => trivial
    refine (hvar.followedBy (hr.worked.choice_follows ih)).congr fun B => ?_
    simp only [Supplied, suppliedArms_eq, ofVars_binds, Bool.false_eq_true, not_mem_nil, or_false,
      true_and]
    rfl
  | negation =>
    simp only [goal, returns_bind, returns_absorb, returns_pure] at h
    obtain ⟨k, _, hk, _, _, ⟨-, rfl⟩, rfl, rfl⟩ := h
    simp only [Goal.effect]
    exact (ih _ mem_cons_self hk).undone
  | scope =>
    simp only [goal, returns_bind, returns_absorb, returns_pure] at h
    obtain ⟨k, _, hk, _, _, ⟨-, rfl⟩, rfl, rfl⟩ := h
    simp only [Goal.effect]
    exact ih _ mem_cons_self hk
  | ite i locals c y n =>
    simp only [goal, returns_bind, returns_absorb, returns_pure] at h
    obtain ⟨c', _, hc, _, _, ⟨-, rfl⟩, y', _, hy, _, _, ⟨-, rfl⟩, n', _, hn, _, _, ⟨-, rfl⟩, rfl,
      rfl⟩ := h
    simp only [parts, children, forall_mem_cons] at ih
    simp only [Goal.effect]
    refine (((ih.1 hc).followedBy (ih.2.1 hy)).or (ih.2.2.1 hn)).congr fun B => ?_
    rw [Supplied, hc.forall_iff, hy.forall_iff, and_assoc]
  | lambda =>
    obtain ⟨body', captured, hb, -, rfl⟩ := returns_lambda h
    simp only [Goal.effect]
    exact (ih _ mem_cons_self hb).within _ _ _
  | call => exact (callGoal_takesRecorded hm (by rwa [goal] at h)).takesBound h
  | genericCall =>
    exact (genericGoal_takesRecorded hm.accessors (by rwa [goal] at h)).takesBound h
  | foreign => exact (foreignGoal_takesRecorded hm.accessors (by rwa [goal] at h)).takesBound h
  | unify => exact (unifyGoal_takesRecorded hm (by rwa [goal] at h)).takesBound h

end Synth

/-! ### Procedures -/

theorem Goal.mem_of_sequence_assigns
    (h : (Goal.sequence modes v (Goal.assigns targets sources context)).reads = true) :
    v ∈ sources := by
  suffices hps : ∀ ps : List (ProgVar × ProgVar), (Goal.sequence modes v
      (ps.map fun p => Goal.assign p.1 p.2 context)).reads = true → ∃ p ∈ ps, p.2 = v by
    obtain ⟨p, hp, rfl⟩ := hps _ h
    exact (of_mem_zip hp).2
  intro ps hv
  induction ps with
  | nil => cases hv
  | cons p ps ih =>
    have hp : (Goal.assign p.1 p.2 context).effect modes v = .ofVars v [p.2] [p.1] false := rfl
    rw [map_cons, Goal.sequence, hp, Effect.followedBy, Bool.or_eq_true,
      ofVars_reads, Bool.and_eq_true] at hv
    rcases hv with hv | ⟨-, hv⟩
    · exact ⟨p, mem_cons_self, (mem_singleton.1 hv).symm⟩
    · obtain ⟨q, hq, rfl⟩ := ih hv
      exact ⟨q, mem_cons_of_mem _ hq, rfl⟩

theorem Serves.reads_assigned {outputs : List ProgVar} {goals : List Goal}
    (h : Serves context s sources outputs goals s') (hacc : AccessorModes modes)
    (hv : (Goal.sequence modes v (goals ++ Goal.assigns targets sources context)).reads = true) :
    s'.OnRecord v := by
  obtain ⟨bound, -, -, hs⟩ := h.block
  obtain ⟨hsetup, hmade⟩ := hs _ s'.all_onRecord
  obtain ⟨hreads, hbinds⟩ := hsetup.effect hacc
  rw [sequence_append, Effect.followedBy, Bool.or_eq_true, Bool.and_eq_true,
    Bool.not_eq_true'] at hv
  rcases hv with hv | ⟨hne, hv⟩
  · exact hreads v hv
  · refine (hmade v (mem_of_sequence_assigns hv)).resolve_left fun hb => ?_
    rw [hbinds v hb] at hne
    cases hne

namespace Synth

theorem produceExistentials_takesRecorded (hacc : AccessorModes modes) {declared : List ProgVar}
    {goals : List Goal}
    (h : Returns (produceExistentials env pred declared out context) s goals s') :
    TakesRecorded s' (fun _ => .idle) fun v => Goal.sequence modes v goals := by
  refine ⟨fun v hv => absurd hv Bool.false_ne_true, fun v hv => .inl ?_⟩
  rcases produceExistentials_cases h with ⟨rfl, rfl⟩ |
    ⟨dicts, infos, goals₁, goals₂, s₁, hm₁, hm₂, -, -, rfl⟩
  · cases hv
  · rw [append_assoc _ goals₂, sequence_append, Effect.followedBy, Bool.or_eq_true,
      Bool.and_eq_true] at hv
    rcases hv with hv | ⟨-, hv⟩
    · exact (hm₁.reads_assigned hacc hv).keeps hm₂.advances.toKeeps
    · exact hm₂.reads_assigned hacc hv

end Synth

/-- The variables that are bound when a procedure is called. -/
def Procedure.inputs (proc : Procedure) : List ProgVar := Mode.input.vars proc.head proc.modes

/-- What a procedure takes from the records, for the goals of its body and for
    its own existential witnesses, is bound where it is taken. -/
def Procedure.Supplied (env : WitnessEnv) (modes : ProcRef → List Mode) (pred : Predicate)
    (proc : Procedure) : Prop :=
  ∀ out s₁, Synth.Returns (Synth.setupHead env pred proc) (.ofProc pred proc) out s₁ →
    Clausal.Supplied env modes proc.body s₁ (· ∈ Mode.input.vars out.head out.modes) ∧
    ∀ g s₂, Synth.Returns (Synth.goal env proc.body) s₁ g s₂ → ∀ goals s₃, Synth.Returns
        (Synth.produceExistentials env pred proc.head out proc.body.info.context) s₂ goals s₃ →
      ∀ v, (Goal.sequence modes v goals).reads = true → s₃.OnRecord v →
        v ∈ Mode.input.vars out.head out.modes ∨ (g.effect modes v).binds = true

namespace Synth

theorem procedure_readsOnly_iff (hm : ModesAgree env.env modes modes') {proc : Procedure}
    {body : Goal} (h : Returns (procedure env pred proc) (.ofProc pred proc) (out, body) s')
    (himported : pred.status ≠ .imported)
    (hreads : ReadsOnly (fun v => proc.body.effect modes v) (· ∈ proc.inputs)) :
    ReadsOnly (fun v => body.effect modes' v) (· ∈ Mode.input.vars out.head out.modes) ↔
      proc.Supplied env modes' pred := by
  obtain ⟨s₁, hhead, ⟨himp, -⟩ | ⟨-, g, s₂, existentials, hg, hex, g', rfl, hbody⟩⟩ :=
    procedure_cases h
  · exact absurd himp himported
  obtain ⟨parts, hparts⟩ := setupHead_cases hhead
  have hinputs : ∀ v ∈ proc.inputs, v ∈ Mode.input.vars out.head out.modes := by
    intro v hv
    rw [hparts.head, hparts.modes, vars_append parts.length_witnessModes]
    exact mem_append_right _ hv
  -- The body and then the existential witnesses, however they are quantified.
  have heffect : ∀ v, body.effect modes' v =
      (g.effect modes' v).followedBy (Goal.sequence modes' v existentials) := fun v =>
    apply_body_eq (G := Goal.sequence modes' v) (fun g => (followedBy_idle _).symm)
      effect_conjoin effect_requantify hbody
  have hfollows := (goal_follows hm proc.body hg).followedBy
    (produceExistentials_takesRecorded hm.accessors hex).follows
  simp only [followedBy_idle] at hfollows
  simp only [heffect]
  rw [hfollows.reads _ _ hinputs hreads, Procedure.Supplied, hhead.forall_iff, hg.forall_iff,
    hex.forall_iff]

end Synth

end

/-! ### Modules -/

namespace Module

variable {m m' env : Module} {r : ProcRef} {pred : Predicate} {proc : Procedure}

/-- The modes of a procedure. -/
def modesOf (m : Module) (r : ProcRef) : List Mode := ((m.procAt? r).map (·.modes)).getD []

/-- Every body reads variables only where they are bound. -/
def ReadsBound (m : Module) : Prop :=
  ∀ pred ∈ m.preds, ∀ proc ∈ pred.procs,
    ReadsOnly (fun v => proc.body.effect m.modesOf v) (· ∈ proc.inputs)

/-- Every declared argument has a mode in every procedure. -/
def HasModes (m : Module) : Prop :=
  ∀ pred ∈ m.preds, ∀ proc ∈ pred.procs, proc.modes.length = pred.argTypes.length

instance (m : Module) : Decidable m.ReadsBound := by unfold ReadsBound; infer_instance

instance (m : Module) : Decidable m.HasModes := by unfold HasModes; infer_instance

theorem modesOf_of_findProc? (h : m.findProc? r = some (pred, proc)) :
    m.modesOf r = proc.modes := by
  rw [modesOf, procAt?, h]
  rfl

theorem modesOf_of_none (h : m.findProc? r = none) : m.modesOf r = [] := by
  rw [modesOf, procAt?, h]
  rfl

theorem modesOf_addWitnesses (h : m.addWitnesses = .ok m')
    (hpred : m.findPred? r.pred = some pred) :
    m.modesOf r = [] ∧ m'.modesOf r = [] ∨
      (pred.isExempt = true → m'.modesOf r = m.modesOf r) ∧
      (pred.isExempt = false → m'.modesOf r = pred.witnessModes ++ m.modesOf r) := by
  cases hr : m.findProc? r with
  -- No procedure comes into being, so a reference to none has no modes after the
  -- pass either.
  | none =>
    refine .inl ⟨modesOf_of_none hr, modesOf_of_none ?_⟩
    cases hr' : m'.findProc? r with
    | none => rfl
    | some p' =>
      obtain ⟨_, _, hsome⟩ := findProc?_of_addWitnesses h hr'
      rw [hr] at hsome
      cases hsome
  | some p =>
    obtain ⟨q, proc⟩ := p
    obtain rfl : pred = q := Option.some.inj (hpred.symm.trans (findProc?_eq_some.1 hr).1)
    obtain ⟨pred', proc', hr', hexempt, hnonexempt⟩ := addWitnesses_proc h hr
    rw [modesOf_of_findProc? hr, modesOf_of_findProc? hr']
    refine .inr ⟨fun hex => by rw [(hexempt hex).2], fun hex => ?_⟩
    obtain ⟨-, env, p, out, body, s, hc, hsame, rfl⟩ := hnonexempt hex
    obtain ⟨-, -, hmodes, -⟩ := hc.head
    exact hsame.witnessModes_eq ▸ hmodes

theorem witnessModes_eq_nil (hexempt : pred.isExempt = false) (h : pred.witnessCount = 0) :
    pred.witnessModes = [] := by
  have hl : pred.witnessModes.length = pred.witnessTypes.length := by
    simp [Predicate.witnessModes, Predicate.witnessTypes, Nat.add_assoc]
  rw [Predicate.length_witnessTypes hexempt, h] at hl
  exact length_eq_zero_iff.1 hl

theorem modesOf_of_no_witnesses (h : m.addWitnesses = .ok m')
    (hpred : m.findPred? r.pred = some pred) (hz : pred.witnessCount = 0) :
    m'.modesOf r = m.modesOf r := by
  rcases modesOf_addWitnesses h hpred with ⟨hm, hm'⟩ | ⟨hexempt, hnonexempt⟩
  · rw [hm, hm']
  · cases hex : pred.isExempt with
    | true => exact hexempt hex
    | false => rw [hnonexempt hex, witnessModes_eq_nil hex hz, nil_append]

theorem DeclaresAccessors.modesOf_eq (hacc : m.DeclaresAccessors) (hp : p ∈ dictionaryAccessors) :
    m.modesOf p.proc = [.input, .input, .output] := by
  rw [modesOf, procAt?_eq, show p.proc.pred = p.pred from rfl, hacc p hp]
  exact forall_accessor (P := fun p => p.modes = [.input, .input, .output]) rfl rfl p hp

theorem witnessModes (hacc : m.DeclaresAccessors) (h : m.addWitnesses = .ok m')
    (hd : m.SameDecls env) : WitnessModes env m.modesOf m'.modesOf where
  same r p hp hz := by
    obtain ⟨q, hq, hsame⟩ := hd.of_findPred? hp
    exact modesOf_of_no_witnesses h hq (hsame.witnessCount_eq ▸ hz)
  witnesses r p hp hnz := by
    obtain ⟨q, hq, hsame⟩ := hd.of_findPred? hp
    rw [hsame.witnessCount_eq] at hnz
    rcases modesOf_addWitnesses h hq with hnone | ⟨-, hnonexempt⟩
    · exact .inr hnone
    · refine .inl ?_
      rw [hsame.witnessModes_eq]
      cases hex : q.isExempt with
      -- An exempt predicate takes no witnesses.
      | true => exact absurd (if_pos hex) hnz
      | false => exact hnonexempt hex
  accessors p hp := by
    rw [modesOf_of_no_witnesses (r := p.proc) h (hacc p hp) (witnessCount_accessor p hp),
      hacc.modesOf_eq hp]
  declared p hp := by
    obtain ⟨q, hq, hsame⟩ := hd.findPred? (hacc p hp)
    exact ⟨q, hq, hsame.witnessCount_eq.trans (witnessCount_accessor p hp)⟩

theorem modesAgree (hmodes : m.HasModes) (hacc : m.DeclaresAccessors)
    (h : m.addWitnesses = .ok m') (hd : m.SameDecls env) :
    ModesAgree env m.modesOf m'.modesOf where
  toWitnessModes := witnessModes hacc h hd
  closures r p k hr := by
    obtain ⟨hp, hk⟩ := findProc?_eq_some.1 hr
    obtain ⟨q, hq, hsame⟩ := hd.of_findPred? hp
    have hlt : r.proc.index < q.procs.size :=
      hsame.size ▸ (Array.getElem?_eq_some_iff.1 hk).1
    have hk₀ : q.procs[r.proc.index]? = some q.procs[r.proc.index] :=
      Array.getElem?_eq_getElem hlt
    rw [modesOf_of_findProc? (findProc?_eq_some.2 ⟨hq, hk₀⟩), hsame.argTypes_eq]
    exact ⟨hsame.modes _ _ _ hk₀ hk,
      hmodes q (Array.mem_of_getElem? hq) _ (Array.mem_of_getElem? hk₀)⟩

/-- When a body reads bound variables only after the pass, if it did before:
    just in case all that its goals, and the assignments of its existential
    witnesses, take from the records is bound where they take it. -/
theorem reads_bound_iff_supplied (hmodes : m.HasModes) (hacc : m.DeclaresAccessors)
    (h : m.addWitnesses = .ok m') (hr : m.findProc? r = some (pred, proc))
    (hexempt : pred.isExempt = false) (himported : pred.status ≠ .imported)
    (hreads : ReadsOnly (fun v => proc.body.effect m.modesOf v) (· ∈ proc.inputs)) :
    ∃ pred' proc' env p out body s, m'.findProc? r = some (pred', proc') ∧
      Changes m r proc env p out body s ∧ proc' = changed proc out body s ∧
      (ReadsOnly (fun v => proc'.body.effect m'.modesOf v) (· ∈ proc'.inputs) ↔
        proc.Supplied ⟨env, p.describe⟩ m'.modesOf p) := by
  obtain ⟨pred', proc', hr', -, hnonexempt⟩ := addWitnesses_proc h hr
  obtain ⟨-, env, p, out, body, s, hc, hsame, rfl⟩ := hnonexempt hexempt
  refine ⟨pred', _, env, p, out, body, s, hr', hc, rfl, ?_⟩
  exact Synth.procedure_readsOnly_iff (modesAgree hmodes hacc h hc.decls) hc.returns
    (hsame.status_eq ▸ himported) hreads

end Module

/-! ### Examples -/

namespace HiddenType

/-- `make(X), take(X)`. -/
def makeAndTake : Goal :=
  .conjoin
    [.callProc ⟨⟨2⟩, ⟨0⟩⟩ make.symName [⟨0⟩] [⟨0⟩] {} context,
     .callProc ⟨⟨3⟩, ⟨0⟩⟩ take.symName [⟨0⟩] [] {} context] context

/-- `make(X), take(X)`, or the same once more. -/
def choose : Predicate :=
  declared
    { name := "choose", scope := .ofNames ["A"], locals := [.named "X" (.var ⟨0⟩)]
      determinism := .multi }
    (.disjoin [makeAndTake, makeAndTake] context)

/-- A module in which values of hidden types are made and passed on in two
    branches. -/
def branches : Module :=
  { name := "branches"
    preds := #[Primitive.typeInfoFromDictionary.toPredicate,
      Primitive.superclassFromDictionary.toPredicate, make, take, choose] }

theorem hasModes_branches : branches.HasModes := by decide

theorem readsBound_branches : branches.ReadsBound := by decide

theorem declaresAccessors_branches : branches.DeclaresAccessors := forall_accessor rfl rfl

/-- The second branch of `choose` reads the type-info that only the first one
    binds. -/
theorem choose_reads_unbound : ∃ m' pred' proc', branches.addWitnesses = .ok m' ∧
    m'.findProc? ⟨⟨4⟩, ⟨0⟩⟩ = some (pred', proc') ∧
      ((proc'.body.effect m'.modesOf ⟨1⟩).reads && !proc'.inputs.contains ⟨1⟩) = true :=
  Module.of_ok_any (by decide +kernel)

/-- Bodies that read bound variables only may come to read others. -/
theorem reads_witness_of_other_branch :
    branches.HasModes ∧ branches.DeclaresAccessors ∧ branches.ReadsBound ∧
      ∃ m', branches.addWitnesses = .ok m' ∧ ¬ m'.ReadsBound := by
  obtain ⟨m', pred', proc', hm', hr, hreads⟩ := choose_reads_unbound
  simp only [Bool.and_eq_true, Bool.not_eq_true', List.contains_eq_mem,
    decide_eq_false_iff_not] at hreads
  obtain ⟨hpred, hproc⟩ := Module.mem_of_findProc? hr
  exact ⟨hasModes_branches, declaresAccessors_branches, readsBound_branches, m', hm',
    fun h => hreads.2 (h pred' hpred proc' hproc ⟨1⟩ hreads.1)⟩

/-- After the one with a single branch, `run` reads bound variables only. -/
theorem run_reads_bound : ∃ m' pred' proc', hidden.addWitnesses = .ok m' ∧
    m'.findProc? ⟨⟨4⟩, ⟨0⟩⟩ = some (pred', proc') ∧
      decide (ReadsOnly (fun v => proc'.body.effect m'.modesOf v) (· ∈ proc'.inputs)) = true :=
  Module.of_ok_any (by decide +kernel)

/-- What `run` takes from the records is bound, and what `choose` takes is not. -/
theorem supplied_run_not_choose :
    (∃ m' pred proc env p out body s, hidden.addWitnesses = .ok m' ∧
      hidden.findProc? ⟨⟨4⟩, ⟨0⟩⟩ = some (pred, proc) ∧
      Module.Changes hidden ⟨⟨4⟩, ⟨0⟩⟩ proc env p out body s ∧
      proc.Supplied ⟨env, p.describe⟩ m'.modesOf p) ∧
    ∃ m' pred proc env p out body s, branches.addWitnesses = .ok m' ∧
      branches.findProc? ⟨⟨4⟩, ⟨0⟩⟩ = some (pred, proc) ∧
      Module.Changes branches ⟨⟨4⟩, ⟨0⟩⟩ proc env p out body s ∧
      ¬ proc.Supplied ⟨env, p.describe⟩ m'.modesOf p := by
  constructor
  · obtain ⟨m', _, _, hm', hr', hreads⟩ := run_reads_bound
    obtain ⟨_, _, env, p, out, body, s, hr, hc, -, hiff⟩ := Module.reads_bound_iff_supplied
      (r := ⟨⟨4⟩, ⟨0⟩⟩) (by decide +kernel) declaresAccessors_hidden hm' rfl (by decide +kernel)
      (by decide) (by decide +kernel)
    rw [hr', Option.some.injEq, Prod.mk.injEq] at hr
    obtain ⟨rfl, rfl⟩ := hr
    exact ⟨m', _, _, env, p, out, body, s, hm', rfl, hc, hiff.1 (of_decide_eq_true hreads)⟩
  · obtain ⟨m', _, _, hm', hr', hreads⟩ := choose_reads_unbound
    obtain ⟨_, _, env, p, out, body, s, hr, hc, -, hiff⟩ := Module.reads_bound_iff_supplied
      (r := ⟨⟨4⟩, ⟨0⟩⟩) hasModes_branches declaresAccessors_branches hm' rfl (by decide +kernel)
      (by decide) (by decide +kernel)
    rw [hr', Option.some.injEq, Prod.mk.injEq] at hr
    obtain ⟨rfl, rfl⟩ := hr
    simp only [Bool.and_eq_true, Bool.not_eq_true', List.contains_eq_mem,
      decide_eq_false_iff_not] at hreads
    exact ⟨m', _, _, env, p, out, body, s, hm', rfl, hc,
      fun h => hreads.2 (hiff.2 h ⟨1⟩ hreads.1)⟩

end HiddenType

end Clausal
