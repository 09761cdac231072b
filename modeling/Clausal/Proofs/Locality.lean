import Clausal.Proofs.Blocks

/-!
# Locality of set-up goals

The goals that make witnesses stand right in front of the one goal that they are
made for, and what they bind is of no concern to any other goal. What a request
for witnesses shares within itself is taken off the records at its end, so no
later goal finds it there; what is on record are the variables of heads and of
calls and values that give witnesses back, and those are not bound by set-up
goals.

A step adds variables, and all that its goals mention are old variables, those
on record and the ones added. So a variable that one step adds and binds by a
set-up goal is not mentioned in what other steps give, before it or behind
(`Localizes`).
-/

namespace Clausal

open List Goal Mode VarTable WitnessState

variable {targets : List Goal} {g : Goal} {callee : ProcRef} {pred : Predicate} {name : SymName}
  {lhs v : ProgVar} {kind : Unification} {s s' : WitnessState} {n : Nat}
  {modes modes' : ProcRef → List Mode} {env : WitnessEnv} {X : ProgVar → Prop} {out : WitnessHead}

/-! ### Steps -/

/-- What a step does to variables, of which `vs` are those of a goal and `ss`
    those that its set-up goals bind: what the result mentions is old, on record
    or added, what its set-up goals bind is old or added, and of what is added
    only the rest goes on record. Variables before `n` are old, and those that
    the set-up goals come to bind are as `C` says. -/
structure Localizes (n : Nat) (vs ss : List ProgVar) (s : WitnessState) (vs' ss' : List ProgVar)
    (s' : WitnessState) (C : ProgVar → Prop) : Prop where
  grows : s.Grows s'
  vars : ∀ X : ProgVar → Prop, (∀ v ∈ vs, X v) → s.witnesses.All (fun _ => X) →
    s.NewIn s' (fun _ => X) → ∀ v ∈ vs', X v
  kept : ss'.filter (·.index < n) = ss
  new : ∀ v ∈ ss', n ≤ v.index → s.vars.size ≤ v.index ∧ v.index < s'.vars.size
  records : ∀ X : ProgVar → Prop, s.witnesses.All (fun _ => X) →
    (∀ v, s.vars.size ≤ v.index → v.index < s'.vars.size → v ∉ ss' → X v) →
    s'.witnesses.All fun _ => X
  confined : s.Closed → (∀ v ∈ vs, v.index < s.vars.size) → ∀ v ∈ ss', n ≤ v.index → C v

namespace WitnessState

theorem Closed.all_ne (h : s.Closed) (hv : s.vars.size ≤ v.index) :
    s.witnesses.All fun _ w => w ≠ v :=
  h.mono fun _ _ hw heq => Nat.not_le.2 (heq ▸ hw) hv

theorem newIn_of_lt (h : ∀ v, s.vars.size ≤ v.index → v.index < s'.vars.size → X v) :
    s.NewIn s' fun _ => X :=
  fun _ v hv ht => h v hv (lt_size_of_type ht)

theorem NewIn.of_lt (h : s.NewIn s' fun _ => X) (hv : s.vars.size ≤ v.index)
    (hlt : v.index < s'.vars.size) : X v := by
  obtain ⟨type, htype⟩ := exists_type_of_lt hlt
  exact h type v hv htype

end WitnessState

namespace Localizes

variable {vs ss ws ts vs' ss' ws' ts' : List ProgVar} {s₁ : WitnessState} {C C' : ProgVar → Prop}

/-- Old variables that stay as they are. -/
theorem refl (s : WitnessState) (hss : ∀ v ∈ ss, v.index < n) : Localizes n vs ss s vs ss s C where
  grows := .refl s
  vars _ hvs _ _ := hvs
  kept := filter_eq_self.2 fun v hv => decide_eq_true (hss v hv)
  new v hv hn := absurd (hss v hv) (Nat.not_lt.2 hn)
  records _ hX _ := hX
  confined _ _ v hv hn := absurd (hss v hv) (Nat.not_lt.2 hn)

/-- What the set-up goals of one step bind is not mentioned in what the other
    gives. -/
theorem append (hn : n ≤ s.vars.size) (h : Localizes n vs ss s vs' ss' s₁ C)
    (h' : Localizes n ws ts s₁ ws' ts' s' C') :
    Localizes n (vs ++ ws) (ss ++ ts) s (vs' ++ ws') (ss' ++ ts') s' fun v =>
      C v ∧ v ∉ ws' ∨ C' v ∧ v ∉ vs' := by
  have hs := h.grows.vars.size_le
  have hs' := h'.grows.vars.size_le
  refine ⟨h.grows.trans h'.grows, fun X hX hrec hnew => ?_, ?_, fun v hv hvn => ?_,
    fun X hX hnew => ?_, fun hclosed hold v hv hvn => ?_⟩
  · rw [forall_mem_append] at hX ⊢
    obtain ⟨hnew₁, hnew₂⟩ := hnew.mono hs h'.grows.vars
    exact ⟨h.vars X hX.1 hrec hnew₁, h'.vars X hX.2 (h.grows.records _ hrec hnew₁) hnew₂⟩
  · rw [filter_append, h.kept, h'.kept]
  · rcases mem_append.1 hv with hv | hv
    · have := h.new v hv hvn
      omega
    · have := h'.new v hv (by omega)
      omega
  · -- A variable that is added in one of the steps is not bound in the other.
    refine h'.records X (h.records X hX fun v hv hlt hnot => ?_) fun v hv hlt hnot => ?_
    · refine hnew v hv (by omega) fun hmem => ?_
      rcases mem_append.1 hmem with hmem | hmem
      · exact hnot hmem
      · have := h'.new v hmem (by omega)
        omega
    · refine hnew v (by omega) hlt fun hmem => ?_
      rcases mem_append.1 hmem with hmem | hmem
      · have := h.new v hmem (by omega)
        omega
      · exact hnot hmem
  · rw [forall_mem_append] at hold
    rcases mem_append.1 hv with hv | hv
    · -- The second step does not find it on record.
      obtain ⟨hle, hlt⟩ := h.new v hv hvn
      refine .inl ⟨h.confined hclosed hold.1 v hv hvn, fun hmem => ?_⟩
      refine h'.vars (· ≠ v) (fun w hw heq => ?_) ?_ (newIn_of_lt fun w hw _ heq => ?_)
        v hmem rfl
      · have := hold.2 w hw
        rw [heq] at this
        omega
      · exact h.records _ (hclosed.all_ne hle) fun w _ _ hw heq => hw (heq ▸ hv)
      · rw [heq] at hw
        omega
    · -- In the first step it is not there yet.
      obtain ⟨hle, -⟩ := h'.new v hv hvn
      refine .inr ⟨h'.confined (h.grows.closed hclosed) (fun w hw => ?_) v hv hvn, fun hmem => ?_⟩
      · exact Nat.lt_of_lt_of_le (hold.2 w hw) hs
      · have hlt : v.index < s₁.vars.size :=
          h.vars (·.index < s₁.vars.size) (fun w hw => Nat.lt_of_lt_of_le (hold.1 w hw) hs)
            (hclosed.mono fun _ w hw => Nat.lt_of_lt_of_le hw hs)
            (newIn_of_lt fun _ _ hw => hw) v hmem
        omega

theorem within (h : Localizes n vs ss s vs' ss' s' C)
    (hvs : ∀ v ∈ vs, v ∈ ws) (hws : ∀ v ∈ ws', v ∈ ws ∨ v ∈ vs')
    (hC : ∀ v, C v → v ∉ ws → C' v) : Localizes n ws ss s ws' ss' s' C' where
  grows := h.grows
  vars X hX hrec hnew v hv :=
    (hws v hv).elim (hX v) (h.vars X (fun w hw => hX w (hvs w hw)) hrec hnew v)
  kept := h.kept
  new := h.new
  records := h.records
  confined hclosed hold v hv hvn := by
    refine hC v (h.confined hclosed (fun w hw => hold w (hvs w hw)) v hv hvn) fun hmem => ?_
    have := hold v hmem
    have := (h.new v hv hvn).1
    omega

theorem afterAdding (hn : n ≤ s.vars.size) (hs : s.Grows s₁)
    (hw : ∀ v ∈ ws, s.vars.size ≤ v.index ∧ v.index < s₁.vars.size)
    (h : Localizes n (vs ++ ws) ss s₁ vs' ss' s' C) : Localizes n vs ss s vs' ss' s' C := by
  have hsize := hs.vars.size_le
  have hsize' := h.grows.vars.size_le
  refine ⟨hs.trans h.grows, fun X hX hrec hnew => ?_, h.kept, fun v hv hvn => ?_,
    fun X hX hnew => ?_, fun hclosed hold => h.confined (hs.closed hclosed) ?_⟩
  · obtain ⟨hnew₁, hnew₂⟩ := hnew.mono hsize h.grows.vars
    refine h.vars X (forall_mem_append.2 ⟨hX, fun v hv => ?_⟩) (hs.records _ hrec hnew₁) hnew₂
    exact hnew₁.of_lt (hw v hv).1 (hw v hv).2
  · have := h.new v hv hvn
    omega
  · refine h.records X (hs.records _ hX (newIn_of_lt fun v hv hlt => ?_))
      fun v hv hlt hnot => hnew v (by omega) hlt hnot
    refine hnew v hv (by omega) fun hmem => ?_
    have := h.new v hmem (by omega)
    omega
  · rw [forall_mem_append]
    exact ⟨fun v hv => Nat.lt_of_lt_of_le (hold v hv) hsize, fun v hv => (hw v hv).2⟩

end Localizes

/-! ### Atomic goals -/

/-- One atomic goal that is not a set-up goal itself. -/
def IsSite (targets : List Goal) : Prop :=
  ∃ t, targets = [t] ∧ t.isAtom ∧ t.isSetupGoal = false

theorem IsSite.requantifyEach (h : IsSite targets) (outsides : List VarSet) :
    IsSite (Goal.requantifyEach outsides targets) := by
  obtain ⟨t, rfl, hatom, hsetup⟩ := h
  obtain ⟨t', outsides', hcons, ht'⟩ := requantifyEach_cons outsides t []
  refine ⟨t', by rw [hcons, Goal.requantifyEach], ?_⟩
  rcases ht' with rfl | ⟨outside, rfl⟩
  · exact ⟨hatom, hsetup⟩
  · exact ⟨isAtom_requantify.trans hatom, isSetupGoal_requantify.trans hsetup⟩

/-- The variable is confined to a block of set-up goals for an atomic goal. -/
abbrev Goal.Local (modes : ProcRef → List Mode) (g : Goal) (v : ProgVar) : Prop :=
  g.Confines v (Block modes IsSite v)

section

variable {context : Context} {goals : List Goal} {vs bound : List ProgVar} {core : Goal}

theorem Goal.setupVars_of_isAtom (hatom : core.isAtom) (hnot : core.isSetupGoal = false) :
    Goal.gather (Goal.setupBinds modes) core = [] := by
  rw [gather_of_isAtom hatom, Goal.setupBinds, hnot]
  rfl

theorem Localizes.setups {IsFor : List Goal → Prop} (hacc : AccessorModes modes)
    (hn : n ≤ s.vars.size) (hgrows : s.Grows s') (hbound : s.LeavesAll bound s')
    (hsetup : ∀ X, s'.witnesses.All (fun _ => X) → Setup context X goals bound)
    (hatoms : ∀ t ∈ targets, t.isAtom ∧ t.isSetupGoal = false)
    (hvars : ∀ X : ProgVar → Prop, (∀ v ∈ vs, X v) → s.witnesses.All (fun _ => X) →
      s.NewIn s' (fun _ => X) → ∀ v ∈ Goal.varsList targets, X v)
    (hbinds : ∀ v ∈ bound, ∀ t ∈ targets, v ∉ t.binds modes) (hfor : goals ≠ [] → IsFor targets) :
    Localizes n vs [] s (Goal.varsList (goals ++ targets))
      (Goal.setupVarsList modes (goals ++ targets)) s' fun v =>
        goals ≠ [] ∧ Block modes IsFor v (goals ++ targets) := by
  have hss : Goal.setupVarsList modes (goals ++ targets) = bound := by
    have hnone : Goal.setupVarsList modes targets = [] := by
      rw [eq_nil_iff_forall_not_mem]
      intro v hv
      obtain ⟨t, ht, hv⟩ := mem_gatherList.1 hv
      rw [setupVars_of_isAtom (hatoms t ht).1 (hatoms t ht).2] at hv
      cases hv
    rw [Goal.setupVarsList, gatherList_append, ← Goal.setupVarsList, ← Goal.setupVarsList,
      hnone, append_nil]
    exact (hsetup _ s'.all_onRecord).setupVars hacc
  rw [hss]
  refine ⟨hgrows, fun X hX hrec hnew => ?_, ?_, fun v hv _ => hbound.new v hv, hbound.records,
    fun hclosed _ v hv _ => ?_⟩
  · rw [Goal.varsList, gatherList_append, forall_mem_append]
    refine ⟨fun v hv => ?_, hvars X hX hrec hnew⟩
    rcases (hsetup X (hgrows.records _ hrec hnew)).vars hacc v hv with hb | hXv
    · exact hnew.of_lt (hbound.new v hb).1 (hbound.new v hb).2
    · exact hXv
  · rw [filter_eq_nil_iff]
    intro v hv
    have := (hbound.new v hv).1
    simp only [decide_eq_true_eq]
    omega
  · -- The set-up reads the records, on which the variable is not.
    have hfree : s'.witnesses.All fun _ w => w ≠ v :=
      hbound.records _ (hclosed.all_ne (hbound.new v hv).1) fun w _ _ hw heq => hw (heq ▸ hv)
    have hset := hsetup _ hfree
    have hne : goals ≠ [] := by
      rintro rfl
      cases hset
      cases hv
    exact ⟨hne, hset.block hacc hbound.nodup hv (fun h => h rfl) (hbinds v hv) (hfor hne)⟩

/-- A goal gets a set-up. -/
theorem Localizes.ofSetup (hacc : AccessorModes modes) (hn : n ≤ s.vars.size)
    (hgrows : s.Grows s') (hbound : s.LeavesAll bound s')
    (hsetup : ∀ X, s'.witnesses.All (fun _ => X) → Setup context X goals bound)
    (hatom : core.isAtom) (hnot : core.isSetupGoal = false)
    (hvars : ∀ X : ProgVar → Prop, (∀ v ∈ vs, X v) → s.witnesses.All (fun _ => X) →
      s.NewIn s' (fun _ => X) → ∀ v ∈ core.vars, X v)
    (hbinds : ∀ v ∈ bound, v ∉ core.binds modes) :
    Localizes n vs [] s (Goal.withSetup goals core).vars
      ((Goal.withSetup goals core).setupVars modes) s'
      ((Goal.withSetup goals core).Local modes) := by
  have hlist : Localizes n vs [] s (Goal.varsList (goals ++ [core]))
      (Goal.setupVarsList modes (goals ++ [core])) s' fun v =>
        goals ≠ [] ∧ Block modes IsSite v (goals ++ [core]) :=
    .setups hacc hn hgrows hbound hsetup
      (forall_mem_singleton.2 ⟨hatom, hnot⟩)
      (fun X => by rw [Goal.varsList, gatherList_singleton]; exact hvars X)
      (fun v hv => forall_mem_singleton.2 (hbinds v hv)) fun _ => ⟨core, rfl, hatom, hnot⟩
  have hatoms : ∀ g ∈ goals ++ [core], g.isAtom := by
    rw [forall_mem_append, forall_mem_singleton]
    exact ⟨fun g hg => ((hsetup _ s'.all_onRecord).forall_isSetupGoal hacc g hg).2, hatom⟩
  rw [Goal.vars, Goal.setupVars, gather_withSetup ownVars_setInfo,
    gather_withSetup (setupBinds_ofAtoms modes).info, ← gatherList_singleton,
    ← gatherList_singleton, ← gatherList_append, ← gatherList_append]
  refine hlist.within (fun _ hv => hv) (fun _ hv => .inr hv) ?_
  rintro v ⟨hne, hblock⟩ -
  obtain ⟨i, hi⟩ := withSetup_eq_conj hne hatoms
  rw [Goal.Local, hi]
  exact .whole hblock

theorem Localizes.unchanged (hatom : g.isAtom) (hold : ∀ v ∈ g.vars, v.index < n)
    (hbinds : g.isSetupGoal → g.binds modes' = g.binds modes) :
    Localizes n g.vars (g.setupVars modes) s g.vars (g.setupVars modes') s (g.Local modes') := by
  have hss : ∀ ms, g.setupVars ms = if g.isSetupGoal then g.binds ms else [] := fun ms =>
    gather_of_isAtom hatom
  have hvars : g.vars = g.ownVars := gather_of_isAtom hatom
  have hsame : g.setupVars modes' = g.setupVars modes := by
    rw [hss, hss]
    split
    · next hs => exact hbinds hs
    · rfl
  rw [hsame]
  refine .refl s fun v hv => hold v ?_
  rw [hss] at hv
  rw [hvars]
  split at hv
  · exact mem_ownVars_of_mem_binds hv
  · cases hv

theorem Serves.localizes {inputs outputs : List ProgVar}
    (hs : Serves context s inputs outputs goals s')
    (hacc : AccessorModes modes) (hn : n ≤ s.vars.size) (hold : ∀ v ∈ vs, v.index < s.vars.size)
    (hatom : core.isAtom) (hnot : core.isSetupGoal = false)
    (hvars : ∀ v ∈ core.vars, v ∈ inputs ++ outputs ∨ v ∈ vs)
    (hbinds : ∀ v ∈ core.binds modes, v ∈ outputs ∨ v ∈ vs) :
    Localizes n vs [] s (Goal.withSetup goals core).vars
      ((Goal.withSetup goals core).setupVars modes) s'
      ((Goal.withSetup goals core).Local modes) := by
  obtain ⟨bound, hbound, houtputs, hsetup⟩ := hs.block
  refine .ofSetup hacc hn hs.advances.toGrows hbound (fun X hX => (hsetup X hX).1) hatom hnot ?_ ?_
  · exact fun X hX hrec hnew v hv => (hvars v hv).elim (hs.made X hrec hnew v) (hX v)
  · intro v hv hmem
    rcases hbinds v hmem with hmem | hmem
    · exact houtputs v hmem hv
    · have := hold v hmem
      have := (hbound.new v hv).1
      omega

end

namespace Synth

section

variable {info : GoalInfo} {args : List ProgVar} {g' : Goal}

theorem isSetupGoal_call (hm : WitnessModes env.env modes modes')
    (hpred : env.env.pred callee.pred = .ok pred) (hnz : pred.witnessCount ≠ 0) (i : GoalInfo)
    (name : SymName) (args : List ProgVar) :
    (Goal.call i callee name args).isSetupGoal = false := by
  show (dictionaryAccessors.map Primitive.proc).contains callee = false
  rw [contains_eq_mem, decide_eq_false_iff_not, mem_map]
  rintro ⟨p, hp, rfl⟩
  obtain ⟨q, hq, hz⟩ := hm.declared p hp
  rw [Module.pred_eq_ok, hq, Option.some.injEq] at hpred
  exact hnz (hpred ▸ hz)

section

variable (hn : n ≤ s.vars.size)

include hn

theorem callGoal_localizes_of_ne (hm : WitnessModes env.env modes modes')
    (hpred : env.env.pred callee.pred = .ok pred) (hnz : pred.witnessCount ≠ 0)
    (hold : ∀ v ∈ args, v.index < s.vars.size)
    (h : Returns (callGoal env info callee name args) s g' s') :
    Localizes n args [] s g'.vars (g'.setupVars modes') s' (g'.Local modes') := by
  obtain ⟨q, hq, ⟨hz, -⟩ | ⟨-, w, parts, hw, rfl⟩⟩ := callGoal_cases h
  · rw [hpred, Except.ok.injEq] at hq
    exact absurd (hq ▸ hz) hnz
  · refine hw.serves.localizes hm.accessors hn hold rfl (isSetupGoal_call hm hpred hnz ..)
      (Extended.call parts).vars fun v hv => ?_
    have hv : v ∈ Mode.output.vars (parts.all ++ args) (modes' callee) := hv
    rcases hm.witnesses callee q (Module.pred_eq_ok.1 hq) (by
      rw [hpred, Except.ok.injEq] at hq
      exact hq ▸ hnz) with hmodes | ⟨-, hmodes⟩
    · rw [hmodes, vars_append parts.length_witnessModes, parts.vars_witnessModes.2,
        mem_append] at hv
      exact hv.imp_right mem_of_mem_vars
    · rw [hmodes, Mode.vars, zip_nil_right] at hv
      cases hv

theorem callGoal_localizes (hm : WitnessModes env.env modes modes') (hold : ∀ v ∈ args, v.index < n)
    (h : Returns (callGoal env info callee name args) s g' s') :
    Localizes n args ((Goal.call info callee name args).setupVars modes) s g'.vars
      (g'.setupVars modes') s' (g'.Local modes') := by
  obtain ⟨pred, hpred, ⟨hz, rfl, rfl⟩ | ⟨hnz, -⟩⟩ := callGoal_cases h
  · refine .unchanged (g := .call info callee name args) rfl hold fun _ => ?_
    show Mode.output.vars args (modes' callee) = Mode.output.vars args (modes callee)
    rw [hm.same callee pred (Module.pred_eq_ok.1 hpred) hz]
  · rw [Goal.setupVars, setupVars_of_isAtom rfl (isSetupGoal_call hm hpred hnz ..)]
    exact callGoal_localizes_of_ne hn hm hpred hnz (fun v hv => Nat.lt_of_lt_of_le (hold v hv) hn) h

theorem foreignGoal_localizes (hacc : AccessorModes modes') {code : ForeignCode}
    (hold : ∀ v ∈ (Goal.foreign info code).vars, v.index < n)
    (h : Returns (foreignGoal env info code) s g' s') :
    Localizes n (Goal.foreign info code).vars ((Goal.foreign info code).setupVars modes) s g'.vars
      (g'.setupVars modes') s' (g'.Local modes') := by
  obtain ⟨pred, hpred, ⟨hz, rfl, rfl⟩ | ⟨hnz, w, parts, hw, rfl⟩⟩ := foreignGoal_cases h
  · exact .unchanged rfl hold fun _ => rfl
  · rw [Goal.setupVars, setupVars_of_isAtom rfl rfl]
    refine hw.serves.localizes hacc hn (fun v hv => Nat.lt_of_lt_of_le (hold v hv) hn) rfl rfl
      (Extended.foreign parts).vars fun v hv => ?_
    have hv : v ∈ (((foreignWitnesses parts ++ code.args) ++ code.extraArgs).filter
      (·.mode == .output)).map (·.var) := hv
    rw [append_assoc, filter_append, map_append, mem_append] at hv
    refine hv.imp (fun hv => ?_) fun hv => ?_
    · -- A witness is an output only if it is among those that are bound.
      obtain ⟨a, ha, rfl⟩ := mem_map.1 hv
      obtain ⟨ha, hmode⟩ := mem_filter.1 ha
      obtain ⟨⟨u, name⟩, -, rfl⟩ := mem_map.1 ha
      by_contra hnot
      simp [hnot] at hmode
    · obtain ⟨a, ha, rfl⟩ := mem_map.1 hv
      exact mem_map_of_mem (mem_filter.1 ha).1

theorem genericGoal_localizes (hacc : AccessorModes modes') {callee : GenericCallee}
    {ms : List Mode} (hold : ∀ v ∈ (Goal.genericCall info callee args ms).vars, v.index < n)
    (h : Returns (genericGoal env info callee args ms) s g' s') :
    Localizes n (Goal.genericCall info callee args ms).vars
      ((Goal.genericCall info callee args ms).setupVars modes) s g'.vars (g'.setupVars modes') s'
      (g'.Local modes') := by
  rcases genericGoal_cases h with ⟨rfl, rfl⟩ | ⟨infos, setup, hp, rfl⟩
  · exact .unchanged rfl hold fun _ => rfl
  · rw [Goal.setupVars, setupVars_of_isAtom rfl rfl]
    refine hp.localizes hacc hn (fun v hv => Nat.lt_of_lt_of_le (hold v hv) hn) rfl rfl
      Extended.genericCall.vars fun v hv => ?_
    have hv : v ∈ Mode.output.vars (infos ++ args) (infos.map (fun _ => .input) ++ ms) := hv
    rw [vars_append (by simp), vars_const, if_neg (by decide), nil_append] at hv
    exact .inr (mem_append_right _ (mem_of_mem_vars hv))

theorem consGoal_localizes (hacc : AccessorModes modes') {arity : Nat}
    (hold : ∀ v ∈ lhs :: args ++ kind.vars, v.index < n)
    (h : Returns (consGoal env info lhs name arity args kind) s g' s') :
    Localizes n (lhs :: args ++ kind.vars)
      ((Goal.unify info lhs (.functor (.cons name arity) args) kind).setupVars modes) s g'.vars
      (g'.setupVars modes') s' (g'.Local modes') := by
  have hnot : ∀ i args kind,
      (Goal.unify i lhs (.functor (.cons name arity) args) kind).isSetupGoal = false := by
    intro i args kind
    cases kind <;> rfl
  rcases consGoal_cases h with ⟨rfl, rfl⟩ | ⟨inputs, outputs, setup, hs, hkind, rfl⟩
  · exact .unchanged (g := .unify info lhs (.functor (.cons name arity) args) kind) rfl hold
      fun _ => rfl
  · rw [Goal.setupVars, setupVars_of_isAtom rfl (hnot ..)]
    refine hs.localizes hacc hn (fun v hv => Nat.lt_of_lt_of_le (hold v hv) hn) rfl (hnot ..)
      Extended.cons.vars fun v hv => ?_
    rcases hkind with ⟨⟨w, f, as, rfl⟩, rfl⟩ | ⟨-, rfl, rfl⟩
    · have hv : v ∈ [w] := hv
      rw [mem_singleton.1 hv]
      exact .inr (mem_append_right _ mem_cons_self)
    · exact Extended.cons.vars v (mem_ownVars_of_mem_binds hv)

theorem closure_localizes (hm : WitnessModes env.env modes modes')
    (hold : ∀ v ∈ lhs :: args ++ kind.vars, v.index < n)
    (h : Returns (unifyGoal env info lhs (.functor (.closure callee) args) kind) s g' s') :
    Localizes n (lhs :: args ++ kind.vars)
      ((Goal.unify info lhs (.functor (.closure callee) args) kind).setupVars modes) s g'.vars
      (g'.setupVars modes') s' (g'.Local modes') := by
  have hnot : (Goal.unify info lhs (.functor (.closure callee) args) kind).isSetupGoal = false := by
    cases kind <;> rfl
  obtain ⟨pred, hpred, ⟨-, rfl, rfl⟩ |
    ⟨hnz, head, name, s₁, callInfo, body, captured, hhead, -, hcaptured, hbody, rfl⟩⟩ :=
    unifyGoal_closure_cases h
  · exact .unchanged (g := .unify info lhs (.functor (.closure callee) args) kind) rfl hold
      fun _ => rfl
  · rw [Goal.setupVars, setupVars_of_isAtom rfl hnot]
    have hsize := hhead.grows.vars.size_le
    have hargs : ∀ v ∈ args ++ head.args, v.index < s₁.vars.size := by
      rw [forall_mem_append]
      refine ⟨fun v hv => ?_, fun v hv => (hhead.args_new v hv).2⟩
      have := hold v (mem_append_left _ (mem_cons_of_mem _ hv))
      omega
    refine .afterAdding hn hhead.grows.toGrows hhead.args_new ?_
    have hcall := callGoal_localizes_of_ne (Nat.le_trans hn hsize) hm hpred hnz hargs hbody
    refine hcall.within (fun v hv => ?_) (fun v hv => ?_) fun v hv hout => ?_
    · simp only [cons_append, mem_cons, mem_append] at hv ⊢
      tauto
    · have hv : v ∈ (lhs :: captured ++ head.args ++ kind.vars) ++ body.vars := hv
      have hfree : v ∈ captured → v ∈ args ∨ v ∈ body.vars := fun hv =>
        ((hcaptured v).1 hv).imp_right fun hv => mem_vars_of_mem_freeVars body hv.1
      simp only [cons_append, mem_cons, mem_append] at hv ⊢
      tauto
    · refine .inside .lambda (fun hmem => hout ?_) hv
      simp only [cons_append, mem_cons, mem_append] at hmem ⊢
      tauto

theorem unifyGoal_localizes (hm : WitnessModes env.env modes modes') {rhs : UnifyRhs}
    (hold : ∀ v ∈ (Goal.unify info lhs rhs kind).vars, v.index < n)
    (h : Returns (unifyGoal env info lhs rhs kind) s g' s') :
    Localizes n (Goal.unify info lhs rhs kind).vars ((Goal.unify info lhs rhs kind).setupVars modes)
      s g'.vars (g'.setupVars modes') s' (g'.Local modes') := by
  cases rhs with
  | var v =>
    rcases unifyGoal_var_cases h with ⟨rfl, rfl⟩ | ⟨canFail, old, infos, rfl, hs, rfl⟩
    · exact .unchanged rfl hold fun _ => rfl
    · rw [Goal.setupVars, setupVars_of_isAtom rfl rfl]
      exact hs.localizes hm.accessors hn (fun v hv => Nat.lt_of_lt_of_le (hold v hv) hn) rfl rfl
        Extended.unifyVar.vars fun v hv => by cases hv
  | functor f args =>
    cases f with
    | closure callee => exact closure_localizes hn hm hold h
    | cons name arity => exact consGoal_localizes hn hm.accessors hold h
    | _ =>
      obtain ⟨rfl, rfl⟩ := returns_pure.1 h
      exact .unchanged rfl hold fun _ => rfl

end

end

/-! ### Bodies -/

/-- The variable is confined to one of the goals. -/
def LocalAmong (modes : ProcRef → List Mode) (gs : List Goal) (v : ProgVar) : Prop :=
  ∃ before g after, gs = before ++ g :: after ∧ g.Local modes v ∧
    v ∉ Goal.varsList before ++ Goal.varsList after

section

variable {gs : List Goal}

theorem LocalAmong.head (h : g.Local modes v) (hrest : v ∉ Goal.varsList gs) :
    LocalAmong modes (g :: gs) v :=
  ⟨[], g, gs, rfl, h, by simpa [Goal.varsList, Goal.gatherList] using hrest⟩

theorem LocalAmong.tail (h : LocalAmong modes gs v) (hrest : v ∉ g.vars) :
    LocalAmong modes (g :: gs) v := by
  obtain ⟨before, k, after, rfl, hk, hout⟩ := h
  refine ⟨g :: before, k, after, rfl, hk, ?_⟩
  rw [Goal.varsList, Goal.gatherList, append_assoc, mem_append]
  exact fun hmem => hmem.elim hrest hout

/-- The goals are put into a goal, where those of plain conjunctions are taken
    apart if it is one. -/
theorem LocalAmong.refilled {nonlocals : VarSet} (h : LocalAmong modes gs v)
    (hfill : g.Refilled nonlocals gs g') (hout : v ∉ g.vars) : g'.Local modes v := by
  obtain ⟨before, k, after, hgs, hk, hrest⟩ := h
  cases hfill with
  | @conj i kind =>
    subst hgs
    cases kind with
    | plain =>
      have hrest' : v ∉ Goal.varsList (before.flatMap Goal.conjuncts) ++
          Goal.varsList (after.flatMap Goal.conjuncts) := by
        rwa [Goal.varsList, Goal.varsList, gatherList_flatMap, gatherList_flatMap]
      have := hk.splice hrest' { i with nonlocals }
      rw [if_pos rfl, flatMap_append, flatMap_cons, ← append_assoc]
      exact this
    | parallel => exact .inside .conj hrest hk
  | disj =>
    subst hgs
    exact .inside .disj hrest hk
  | switch =>
    obtain ⟨before, _, rfl, rfl, harm⟩ := map_eq_append_iff.1 hgs
    obtain ⟨⟨f, k⟩, after, rfl, rfl, rfl⟩ := map_eq_cons_iff.1 harm
    rw [Goal.varsList, Goal.varsList, ← gatherArms_eq, ← gatherArms_eq] at hrest
    refine .inside .switch (fun hmem => ?_) hk
    rcases mem_cons.1 hmem with rfl | hmem
    · exact hout (mem_append_left _ mem_cons_self)
    · exact hrest hmem
  | negation =>
    rcases before with _ | ⟨_, before⟩
    · cases hgs
      exact .inside .negation not_mem_nil hk
    · simp at hgs
  | scope =>
    rcases before with _ | ⟨_, before⟩
    · cases hgs
      exact .inside .scope (fun hmem => hout (mem_append_left _ hmem)) hk
    · simp at hgs
  | @ite i locals c y n c' y' n' =>
    have hlocals : v ∉ locals := fun hmem => hout (by
      simp only [Goal.vars, Goal.gather, mem_append]
      exact .inl (.inl (.inl hmem)))
    rcases before with _ | ⟨_, _ | ⟨_, _ | ⟨_, before⟩⟩⟩
    · cases hgs
      exact .inside .cond (by simpa [hlocals, gatherList] using hrest) hk
    · cases hgs
      exact .inside .yes (by simpa [hlocals, gatherList] using hrest) hk
    · cases hgs
      exact .inside .no (by simpa [hlocals, gatherList] using hrest) hk
    · simp at hgs

end

theorem Worked.localizes {gs gs' : List Goal} (h : Worked env s gs gs' s')
    (ih : ∀ c ∈ gs, ∀ {g' s s'}, Returns (goal env c) s g' s' → n ≤ s.vars.size →
      (∀ v ∈ c.vars, v.index < n) → Localizes n c.vars (c.setupVars modes) s g'.vars
        (g'.setupVars modes') s' (g'.Local modes')) (hn : n ≤ s.vars.size)
    (hold : ∀ v ∈ Goal.varsList gs, v.index < n) :
    Localizes n (Goal.varsList gs) (Goal.setupVarsList modes gs) s (Goal.varsList gs')
      (Goal.setupVarsList modes' gs') s' (LocalAmong modes' gs') := by
  induction h with
  | nil => exact .refl _ fun _ hv => absurd hv not_mem_nil
  | cons hg _ ih' =>
    rw [Goal.varsList, Goal.gatherList, forall_mem_append] at hold
    have hhead := ih _ mem_cons_self hg hn hold.1
    have htail := ih' (fun c hc => ih c (mem_cons_of_mem _ hc))
      (Nat.le_trans hn hhead.grows.vars.size_le) hold.2
    simp only [Goal.varsList, Goal.setupVarsList, Goal.gatherList]
    exact (hhead.append hn htail).within (fun _ hv => hv) (fun _ hv => .inr hv) fun v hv _ =>
      hv.elim (fun h => .head h.1 h.2) fun h => .tail h.1 h.2

/-- What becomes of a goal: what its set-up goals come to bind are new variables,
    each of them confined to a block. -/
theorem goal_localizes (hm : WitnessModes env.env modes modes') (g : Goal) :
    ∀ {g' s s'}, Returns (goal env g) s g' s' → n ≤ s.vars.size → (∀ v ∈ g.vars, v.index < n) →
      Localizes n g.vars (g.setupVars modes) s g'.vars (g'.setupVars modes') s'
        (g'.Local modes') := by
  induction g using Goal.parts_induction with
  | step g ih =>
  intro g' s s' h hn hold
  cases g with
  | conj | disj | switch | negation | scope | ite =>
    obtain ⟨gs', _, hr, hfill⟩ := returns_compound rfl h
    obtain ⟨front, -, hvars, hvars'⟩ := hfill.gather_eq ownVars (by cases hfill; rfl)
    obtain ⟨hbinds, -⟩ := (setupBinds_ofAtoms modes).refilled hfill
    obtain ⟨-, hbinds'⟩ := (setupBinds_ofAtoms modes').refilled hfill
    rw [Goal.vars, hvars, forall_mem_append] at hold
    rw [Goal.vars, Goal.vars, Goal.setupVars, Goal.setupVars, hvars, hvars', hbinds, hbinds']
    refine (hr.worked.localizes ih hn hold.2).within (fun _ hv => mem_append_right _ hv)
      (fun v hv => (mem_append.1 hv).imp_left (mem_append_left _)) fun v hv hout => ?_
    exact hv.refilled hfill (by rwa [Goal.vars, hvars])
  | lambda i lhs head body kind =>
    obtain ⟨body', captured, hb, hcaptured, rfl⟩ := returns_lambda h
    rw [Goal.vars, Goal.gather, forall_mem_append] at hold
    refine (ih body mem_cons_self hb hn hold.2).within (fun _ hv => mem_append_right _ hv)
      (fun v hv => ?_) fun v hv hout => .inside .lambda (fun hmem => hout ?_) hv
    · -- What is captured occurs in the body.
      have hfree : v ∈ captured → v ∈ head.captured ∨ v ∈ body'.vars := fun hv =>
        ((hcaptured v).1 hv).imp_right fun hv => mem_vars_of_mem_freeVars body' hv.1
      simp only [Goal.vars, Goal.gather, Goal.ownVars, mem_append, mem_cons] at hv ⊢
      tauto
    · simp only [Goal.vars, Goal.gather, Goal.ownVars, mem_append, mem_cons] at hmem ⊢
      tauto
  | call => exact callGoal_localizes hn hm hold (by rwa [goal] at h)
  | genericCall => exact genericGoal_localizes hn hm.accessors hold (by rwa [goal] at h)
  | foreign => exact foreignGoal_localizes hn hm.accessors hold (by rwa [goal] at h)
  | unify => exact unifyGoal_localizes hn hm hold (by rwa [goal] at h)

end Synth

/-! ### Procedures -/

/-- The goal assigns to one of the variables. -/
def IsAssign (outs : List ProgVar) (g : Goal) : Prop :=
  ∃ i target source, g = .unify i target (.var source) (.assign target source) ∧ target ∈ outs

/-- The goals assign to the variables, and there are some. -/
def IsAssigns (outs : List ProgVar) (targets : List Goal) : Prop :=
  targets ≠ [] ∧ ∀ g ∈ targets, IsAssign outs g

/-- Goals with a block that is for assignments, behind which only further set-up
    goals and assignments come. Nothing but the block mentions the variable. -/
inductive Closing (modes : ProcRef → List Mode) (outs : List ProgVar) (v : ProgVar) :
    List Goal → Prop
  | mk {before seg after : List Goal} (block : Block modes (IsAssigns outs) v seg)
      (rest : v ∉ Goal.varsList before ++ Goal.varsList after)
      (last : ∀ g ∈ after, g.isSetupGoal ∨ IsAssign outs g) :
      Closing modes outs v (before ++ seg ++ after)

/-- The body ends with such goals. -/
def Goal.Closes (modes : ProcRef → List Mode) (outs : List ProgVar) (g : Goal) (v : ProgVar) :
    Prop :=
  ∃ i gs, g = .conj i .plain gs ∧ Closing modes outs v gs

section

variable {outs outs' : List ProgVar} {gs : List Goal}

theorem IsAssign.mono (h : IsAssign outs g) (hout : ∀ v ∈ outs, v ∈ outs') : IsAssign outs' g := by
  obtain ⟨i, target, source, rfl, ht⟩ := h
  exact ⟨i, target, source, rfl, hout target ht⟩

theorem IsAssign.requantify (h : IsAssign outs g) (outside : VarSet) :
    IsAssign outs (g.requantify outside) := by
  obtain ⟨i, target, source, rfl, ht⟩ := h
  exact ⟨_, target, source, rfl, ht⟩

theorem isAssign_of_mem {sources : List ProgVar} {context : Context}
    (h : g ∈ Goal.assigns outs sources context) : IsAssign outs g := by
  obtain ⟨⟨target, source⟩, hp, rfl⟩ := mem_map.1 h
  exact ⟨_, target, source, rfl, (of_mem_zip hp).1⟩

theorem IsAssigns.requantifyEach (h : IsAssigns outs targets) (outsides : List VarSet) :
    IsAssigns outs (Goal.requantifyEach outsides targets) := by
  refine ⟨fun hnil => ?_, forall_requantifyEach (fun _ outside h => h.requantify outside) h.2⟩
  obtain ⟨t, ts, rfl⟩ := exists_cons_of_ne_nil h.1
  obtain ⟨t', outsides', hcons, -⟩ := requantifyEach_cons outsides t ts
  rw [hcons] at hnil
  cases hnil

theorem Closing.ofBlock {after : List Goal} (hblock : Block modes (IsAssigns outs) v gs)
    (hrest : v ∉ Goal.varsList after) (hlast : ∀ g ∈ after, g.isSetupGoal ∨ IsAssign outs g) :
    Closing modes outs v (gs ++ after) :=
  @Closing.mk modes outs v [] gs after hblock hrest hlast

theorem Closing.prepend {more : List Goal} (h : Closing modes outs v gs)
    (hv : v ∉ Goal.varsList more) : Closing modes outs v (more ++ gs) := by
  obtain @⟨before, seg, after, hblock, hrest, hlast⟩ := h
  have hrest' : v ∉ Goal.varsList (more ++ before) ++ Goal.varsList after := by
    rw [Goal.varsList, gatherList_append, append_assoc, mem_append]
    exact fun hmem => hmem.elim hv hrest
  simpa using Closing.mk hblock hrest' hlast

theorem Closing.requantifyEach (h : Closing modes outs v gs) (outsides : List VarSet) :
    Closing modes outs v (Goal.requantifyEach outsides gs) := by
  obtain @⟨before, seg, after, hblock, hrest, hlast⟩ := h
  rw [requantifyEach_append, requantifyEach_append]
  refine .mk (hblock.requantifyEach (fun _ outsides h => h.requantifyEach outsides) _)
    (fun hmem => hrest ?_) (forall_requantifyEach (fun g outside h => ?_) hlast)
  · exact mem_append.2 ((mem_append.1 hmem).imp
      (mem_varsList_of_requantifyEach _ _) (mem_varsList_of_requantifyEach _ _))
  · exact h.imp isSetupGoal_requantify.trans fun h => h.requantify outside

theorem Goal.Closes.requantify (h : g.Closes modes outs v) (outside : VarSet) :
    (g.requantify outside).Closes modes outs v := by
  obtain ⟨i, gs, rfl, hgs⟩ := h
  rw [Goal.requantify]
  exact ⟨_, _, rfl, hgs.requantifyEach _⟩

theorem Closing.two_le_length (h : Closing modes outs v gs) : 2 ≤ gs.length := by
  obtain @⟨before, seg, after, hblock, -, -⟩ := h
  obtain @⟨before', after', targets, g, -, -, -, -, -, hfor⟩ := hblock
  have := length_pos_iff.2 hfor.1
  simp only [length_append, length_cons]
  omega

theorem local_or_closes_conjoin (hne : gs ≠ []) (hatoms : ∀ k ∈ gs, k.isAtom)
    (h : g.Local modes v ∧ v ∉ Goal.varsList gs ∨ Closing modes outs v gs ∧ v ∉ g.vars)
    (context : Context) :
    (Goal.conjoin (g :: gs) context).Local modes v ∨
      (Goal.conjoin (g :: gs) context).Closes modes outs v := by
  have hflat : (g :: gs).flatMap Goal.conjuncts = g.conjuncts ++ gs := by
    rw [flatMap_cons, flatMap_conjuncts_of_isAtom hatoms]
  have hlength : 2 ≤ ((g :: gs).flatMap Goal.conjuncts).length := by
    rw [hflat, length_append]
    have := length_pos_iff.2 hne
    rcases h with ⟨hg, -⟩ | ⟨hgs, -⟩
    · have := length_pos_iff.2 (hg.conjuncts_ne_nil fun _ h => h.ne_nil)
      omega
    · have := hgs.two_le_length
      omega
  obtain ⟨i, hi⟩ := conjoin_eq_conj hlength context
  rw [hi, hflat]
  rcases h with ⟨hg, hrest⟩ | ⟨hgs, hrest⟩
  · exact .inl (@Goal.Confines.splice v g _ [] gs hg hrest i)
  · refine .inr ⟨i, _, rfl, hgs.prepend ?_⟩
    rwa [Goal.varsList, gatherList_conjuncts]

end

section

variable {context : Context} {dicts infos : List ProgVar} {goals : List Goal}

theorem Serves.assigns_localizes (targets sources : List ProgVar)
    (hp : Serves context s sources [] goals s')
    (hacc : AccessorModes modes) (hn : n ≤ s.vars.size)
    (hlength : targets.length = sources.length) (hold : ∀ v ∈ targets, v.index < s.vars.size) :
    Localizes n targets [] s (Goal.varsList (goals ++ Goal.assigns targets sources context))
      (Goal.setupVarsList modes (goals ++ Goal.assigns targets sources context)) s' fun v =>
        Block modes (IsAssigns targets) v (goals ++ Goal.assigns targets sources context) := by
  obtain ⟨bound, hbound, -, hsetup⟩ := hp.block
  have hassign : ∀ g ∈ Goal.assigns targets sources context, ∃ target ∈ targets, ∃ source ∈ sources,
      g = .assign target source context := by
    intro g hg
    obtain ⟨⟨target, source⟩, hmem, rfl⟩ := mem_map.1 hg
    exact ⟨target, (of_mem_zip hmem).1, source, (of_mem_zip hmem).2, rfl⟩
  refine (Localizes.setups hacc hn hp.advances.toGrows hbound (fun X hX => (hsetup X hX).1)
    (fun g hg => ?_) (fun X hX hrec hnew v hv => ?_) (fun v hv g hg hmem => ?_)
    fun hne => ?_).within (fun _ hv => hv) (fun _ hv => .inr hv) fun v hv _ => hv.2
  · obtain ⟨target, -, source, -, rfl⟩ := hassign g hg
    exact ⟨rfl, rfl⟩
  · obtain ⟨g, hg, hv⟩ := mem_gatherList.1 hv
    obtain ⟨target, ht, source, hs, rfl⟩ := hassign g hg
    have hsource : X source := hp.made X hrec hnew source (mem_append_left _ hs)
    have hv : v ∈ [target, source, target, source] := hv
    simp only [mem_cons, not_mem_nil, or_false] at hv
    rcases hv with rfl | rfl | rfl | rfl
    · exact hX _ ht
    · exact hsource
    · exact hX _ ht
    · exact hsource
  · obtain ⟨target, ht, source, -, rfl⟩ := hassign g hg
    have hmem : v ∈ [target] := hmem
    have := hold target ht
    have := (hbound.new v hv).1
    rw [mem_singleton.1 hmem] at this
    omega
  · -- There are goals only if there are witnesses to be assigned.
    refine ⟨fun hnil => hne (hp.empty ?_), fun g hg => isAssign_of_mem hg⟩
    have hzero : (targets.zip sources).length = 0 := by
      rw [length_eq_zero_iff]
      exact map_eq_nil_iff.1 hnil
    rwa [length_zip, hlength, Nat.min_self, length_eq_zero_iff] at hzero

namespace Synth

theorem produceExistentials_localizes (hacc : AccessorModes modes) (hn : n ≤ s.vars.size)
    {declared : List ProgVar}
    (h : Returns (produceExistentials env pred declared out context) s goals s')
    (hdicts : out.existDictionaries.length = pred.constraints.existential.length)
    (hinfos : out.existTypeInfos.length = out.existVars.length)
    (hold : ∀ v ∈ out.existDictionaries ++ out.existTypeInfos, v.index < s.vars.size) :
    (∀ g ∈ goals, g.isAtom) ∧
      Localizes n (out.existDictionaries ++ out.existTypeInfos) [] s (Goal.varsList goals)
        (Goal.setupVarsList modes goals) s' fun v =>
          Closing modes (out.existDictionaries ++ out.existTypeInfos) v goals := by
  rcases produceExistentials_cases h with ⟨rfl, rfl⟩ |
    ⟨dicts, infos, goals₁, goals₂, s₁, hp₁, hp₂, hd, hi, rfl⟩
  · refine ⟨by simp, Localizes.within (.refl _ fun _ hv => absurd hv not_mem_nil)
      (fun _ hv => absurd hv not_mem_nil) (fun _ hv => .inr hv) fun v hv _ => hv⟩
  · rw [forall_mem_append] at hold
    have hfirst := hp₁.assigns_localizes out.existDictionaries dicts hacc hn (hdicts.trans hd.symm)
      hold.1
    have hsecond := hp₂.assigns_localizes out.existTypeInfos infos hacc
      (Nat.le_trans hn hp₁.advances.vars.size_le) (hinfos.trans hi.symm)
      fun v hv => Nat.lt_of_lt_of_le (hold.2 v hv) hp₁.advances.vars.size_le
    have hsetup₁ := hp₁.forall_isSetupGoal hacc
    have hsetup₂ := hp₂.forall_isSetupGoal hacc
    have hatom : ∀ {outs : List ProgVar} {g : Goal}, IsAssign outs g → g.isAtom := by
      rintro outs g ⟨i, target, source, rfl, -⟩
      rfl
    have hmono : ∀ {outs : List ProgVar}, (∀ v ∈ outs, v ∈ out.existDictionaries ++
        out.existTypeInfos) → ∀ targets, IsAssigns outs targets →
        IsAssigns (out.existDictionaries ++ out.existTypeInfos) targets :=
      fun hsub targets h => ⟨h.1, fun g hg => (h.2 g hg).mono hsub⟩
    rw [append_assoc _ goals₂]
    refine ⟨?_, ?_⟩
    · simp only [forall_mem_append]
      exact ⟨⟨fun g hg => (hsetup₁ g hg).2, fun g hg => hatom (isAssign_of_mem hg)⟩,
        fun g hg => (hsetup₂ g hg).2, fun g hg => hatom (isAssign_of_mem hg)⟩
    · have hboth := hfirst.append hn hsecond
      simp only [append_nil, Goal.varsList, Goal.setupVarsList, ← gatherList_append]
        at hboth
      refine hboth.within (fun _ hv => hv) (fun _ hv => .inr hv) ?_
      rintro v (⟨hblock, hrest⟩ | ⟨hblock, hrest⟩) -
      · exact .ofBlock (hblock.imp (hmono fun v => mem_append_left _)) hrest
          fun g hg => (mem_append.1 hg).imp (fun hg => (hsetup₂ g hg).1)
            fun hg => (isAssign_of_mem hg).mono fun v => mem_append_right _
      · have hlast := @Closing.ofBlock v modes _ _ []
          (hblock.imp (hmono fun v => mem_append_right _)) not_mem_nil (by simp)
        rw [append_nil] at hlast
        exact hlast.prepend hrest

/-- The body of a procedure, with the goals that bind its existential witnesses:
    what its set-up goals come to bind are new variables, each of them confined to
    a block for one goal or for assignments at the end. -/
theorem procedure_localizes (hm : WitnessModes env.env modes modes') {proc : Procedure}
    {body : Goal} (h : Returns (procedure env pred proc) s (out, body) s')
    (himported : pred.status ≠ .imported) (hclosed : s.Closed)
    (hold : ∀ v ∈ proc.body.vars, v.index < s.vars.size) :
    (body.setupVars modes').filter (·.index < s.vars.size) = proc.body.setupVars modes ∧
      ∀ v ∈ body.setupVars modes', s.vars.size ≤ v.index → v.index < s'.vars.size ∧
        (body.Local modes' v ∨
          body.Closes modes' (out.existDictionaries ++ out.existTypeInfos) v) := by
  obtain ⟨s₁, hhead, ⟨himp, -⟩ | ⟨-, g, s₂, ex, hg, hex, joined, hjoined, hbody⟩⟩ :=
    procedure_cases h
  · exact absurd himp himported
  obtain ⟨parts, hparts⟩ := setupHead_cases hhead
  have hn := hparts.grows.vars.size_le
  have hlocal := goal_localizes hm proc.body hg hn hold
  have hn₂ := Nat.le_trans hn hlocal.grows.vars.size_le
  have houts : ∀ v ∈ out.existDictionaries ++ out.existTypeInfos, v.index < s₁.vars.size := by
    rw [hparts.existDictionaries, hparts.existTypeInfos, forall_mem_append]
    exact ⟨fun v hv => lt_size_of_type (hparts.new.1 v (mem_append_right _ hv)).2,
      fun v hv => lt_size_of_type (hparts.new.2 v (mem_append_right _ hv)).2⟩
  obtain ⟨hatoms, hclosing⟩ := produceExistentials_localizes hm.accessors hn₂ hex
    (hparts.existDictionaries ▸ parts.length_existDicts)
    (by rw [hparts.existTypeInfos, hparts.existVars, parts.length_existInfos])
    fun v hv => Nat.lt_of_lt_of_le (houts v hv) hlocal.grows.vars.size_le
  have hboth := hlocal.append hn hclosing
  have hss : body.setupVars modes' = g.setupVars modes' ++ Goal.setupVarsList modes' ex :=
    apply_body_eq (F := Goal.gather (Goal.setupBinds modes'))
      (G := Goal.gatherList (Goal.setupBinds modes')) (fun g => (gatherList_singleton g).symm)
      (gather_conjoin (setupBinds_ofAtoms modes').info) (setupBinds_ofAtoms modes').requantify
      (hjoined ▸ hbody)
  rw [hss]
  refine ⟨by simpa using hboth.kept, fun v hv hvn => ⟨(hboth.new v hv hvn).2, ?_⟩⟩
  have hconfined := hboth.confined (hparts.grows.closed hclosed) (forall_mem_append.2
    ⟨fun w hw => Nat.lt_of_lt_of_le (hold w hw) hn, houts⟩) v hv hvn
  have hjoin : joined.Local modes' v ∨
      joined.Closes modes' (out.existDictionaries ++ out.existTypeInfos) v := by
    cases ex with
    | nil =>
      rw [hjoined]
      refine .inl (hconfined.elim And.left fun hc => absurd hc.1.two_le_length ?_)
      simp
    | cons k ks =>
      rw [hjoined]
      exact local_or_closes_conjoin (cons_ne_nil k ks) hatoms hconfined _
  rcases hbody with rfl | rfl
  · exact hjoin
  · refine hjoin.imp (fun h => ?_) fun h => h.requantify _
    exact h.requantify (fun _ outsides h =>
      h.requantifyEach (fun _ outsides h => h.requantifyEach outsides) outsides) _

end Synth

end

/-! ### Modules -/

namespace Goal

theorem setupBinds_eq (hacc : AccessorModes modes) (hacc' : AccessorModes modes') :
    setupBinds modes' = setupBinds modes := by
  funext g
  rw [setupBinds, setupBinds]
  split
  · next hg =>
    cases g with
    | call i callee name args =>
      have hg : (dictionaryAccessors.map Primitive.proc).contains callee = true := hg
      rw [contains_eq_mem, decide_eq_true_eq, mem_map] at hg
      obtain ⟨p, hp, rfl⟩ := hg
      rw [binds, binds, hacc p hp, hacc' p hp]
    | _ => rfl
  · rfl

end Goal

namespace Module

variable {m m' : Module} {r : ProcRef} {pred : Predicate} {proc : Procedure}

/-- The variables in which a procedure is to give back the existential witnesses
    of its predicate. -/
def existentialWitnesses (pred : Predicate) (proc : Procedure) : List ProgVar :=
  Mode.output.vars proc.head pred.witnessModes

/-- Of what set-up goals bind after the pass, the old variables are those that
    they bound before. Every other one is new, and all of the body that mentions
    it, apart from what lambda expressions around it are said to capture, is one
    block: set-up goals next to each other in one conjunction, of which one binds
    the variable and only later ones and the goal right behind them read it. For
    existential witnesses, there are assignments behind them, and the block stands
    at the end of the body. -/
theorem setup_goals_are_local (hacc : m.DeclaresAccessors) (h : m.addWitnesses = .ok m')
    (hr : m.findProc? r = some (pred, proc))
    (hvars : ∀ v ∈ proc.body.vars, v.index < proc.vars.size)
    (hrecords : proc.witnesses.All fun _ v => v.index < proc.vars.size) :
    ∃ pred' proc', m'.findProc? r = some (pred', proc') ∧
      (proc'.body.setupVars m'.modesOf).filter (·.index < proc.vars.size) =
        proc.body.setupVars m.modesOf ∧
      ∀ v ∈ proc'.body.setupVars m'.modesOf, proc.vars.size ≤ v.index →
        v.index < proc'.vars.size ∧
          (proc'.body.Local m'.modesOf v ∨
            proc'.body.Closes m'.modesOf (existentialWitnesses pred proc') v) := by
  obtain ⟨pred', proc', hr', hexempt, hnonexempt⟩ := addWitnesses_proc h hr
  refine ⟨pred', proc', hr', ?_⟩
  have hmodes := witnessModes hacc h (SameDecls.refl m)
  -- A body that is left alone has set-up goals for old variables only.
  have hunchanged : proc'.body = proc.body →
      (proc'.body.setupVars m'.modesOf).filter (·.index < proc.vars.size) =
        proc.body.setupVars m.modesOf ∧
      ∀ v ∈ proc'.body.setupVars m'.modesOf, v.index < proc.vars.size := by
    intro hbody
    rw [hbody, Goal.setupVars, Goal.setupBinds_eq (fun p hp => hacc.modesOf_eq hp) hmodes.accessors]
    have hold : ∀ v ∈ proc.body.setupVars m.modesOf, v.index < proc.vars.size :=
      fun v hv => hvars v (Goal.mem_vars_of_mem_setupVars hv)
    exact ⟨List.filter_eq_self.2 fun v hv => decide_eq_true (hold v hv), hold⟩
  by_cases hex : pred.isExempt = true
  · obtain ⟨hkept, hold⟩ := hunchanged (congrArg _ (hexempt hex).2)
    exact ⟨hkept, fun v hv hn => absurd (hold v hv) (Nat.not_lt.2 hn)⟩
  · obtain ⟨-, env, p, out, body, s, hc, hsame, rfl⟩ :=
      hnonexempt (Bool.not_eq_true _ ▸ hex)
    by_cases himported : p.status = .imported
    · have hbody : body = proc.body := by
        obtain ⟨s₁, -, ⟨-, hbody, -⟩ | ⟨himp, -⟩⟩ := Synth.procedure_cases hc.returns
        · exact hbody
        · exact absurd himported himp
      obtain ⟨hkept, hold⟩ := hunchanged hbody
      exact ⟨hkept, fun v hv hn => absurd (hold v hv) (Nat.not_lt.2 hn)⟩
    · obtain ⟨hkept, hlocal⟩ := Synth.procedure_localizes (witnessModes hacc h hc.decls) hc.returns
        himported hrecords hvars
      obtain ⟨s₁, hhead, -⟩ := Synth.procedure_cases hc.returns
      obtain ⟨parts, hparts⟩ := Synth.setupHead_cases hhead
      have houts : existentialWitnesses pred (changed proc out body s) =
          out.existDictionaries ++ out.existTypeInfos := by
        show Mode.output.vars out.head pred.witnessModes = _
        have := @Mode.vars_append .output _ _ parts.length_witnessModes proc.head []
        rw [List.append_nil, parts.vars_witnessModes.2] at this
        rw [hparts.head, ← hsame.witnessModes_eq, this, hparts.existDictionaries,
          hparts.existTypeInfos]
        simp [Mode.vars, WitnessParts.outputs]
      rw [houts]
      exact ⟨hkept, hlocal⟩

end Module

/-! ### Examples -/

/-- What a lambda expression is said to capture of what set-up goals in its body
    bind. -/
def Goal.capturedWitnesses (modes : ProcRef → List Mode) : Goal → List ProgVar
  | .lambda _ _ head body _ => head.captured.filter (body.setupVars modes).contains
  | _ => []

namespace HiddenType

/-- `F = take`, where `F` is for integers. -/
def hold : Predicate :=
  declared
    { name := "hold"
      scope := .ofNames ["T"]
      args := [.input "X" (.var ⟨0⟩)]
      locals := [.named "F" (.higherOrder .predicate [.int])] }
    (.construct ⟨1⟩ (.closure ⟨⟨3⟩, ⟨0⟩⟩) [] context)

/-- A module in which a closure needs a witness. -/
def holding : Module :=
  { name := "hidden"
    preds := #[Primitive.typeInfoFromDictionary.toPredicate,
      Primitive.superclassFromDictionary.toPredicate, make, take, hold] }

theorem declaresAccessors_holding : holding.DeclaresAccessors := forall_accessor rfl rfl

/-- In `hold` there is one witness to build, for the call in the lambda
    expression. -/
theorem hold_setupVars : ∃ m' pred' proc', holding.addWitnesses = .ok m' ∧
    m'.findProc? ⟨⟨4⟩, ⟨0⟩⟩ = some (pred', proc') ∧
      (proc'.body.setupVars m'.modesOf == [⟨4⟩]) = true :=
  Module.of_ok_any (by decide +kernel)

/-- In `make` there is one for the type that it hides, besides the value. -/
theorem make_setupVars : ∃ m' pred' proc', holding.addWitnesses = .ok m' ∧
    m'.findProc? ⟨⟨2⟩, ⟨0⟩⟩ = some (pred', proc') ∧
      (proc'.body.setupVars m'.modesOf == [⟨0⟩, ⟨2⟩]) = true :=
  Module.of_ok_any (by decide +kernel)

/-- Both are confined to their blocks. -/
theorem setup_goals_are_local_holding :
    (∃ m' pred' proc', holding.addWitnesses = .ok m' ∧
      m'.findProc? ⟨⟨4⟩, ⟨0⟩⟩ = some (pred', proc') ∧
      (proc'.body.Local m'.modesOf ⟨4⟩ ∨
        proc'.body.Closes m'.modesOf (Module.existentialWitnesses hold proc') ⟨4⟩)) ∧
    ∃ m' pred' proc', holding.addWitnesses = .ok m' ∧
      m'.findProc? ⟨⟨2⟩, ⟨0⟩⟩ = some (pred', proc') ∧
      (proc'.body.Local m'.modesOf ⟨2⟩ ∨
        proc'.body.Closes m'.modesOf (Module.existentialWitnesses make proc') ⟨2⟩) := by
  constructor
  · obtain ⟨m', _, _, hm', hr', hsetup⟩ := hold_setupVars
    obtain ⟨_, _, hr, -, hlocal⟩ := Module.setup_goals_are_local (r := ⟨⟨4⟩, ⟨0⟩⟩)
      declaresAccessors_holding hm' rfl (by decide +kernel) (WitnessMap.all_empty _)
    rw [hr', Option.some.injEq, Prod.mk.injEq] at hr
    obtain ⟨rfl, rfl⟩ := hr
    rw [beq_iff_eq.1 hsetup] at hlocal
    exact ⟨m', _, _, hm', hr', (hlocal ⟨4⟩ (by decide) (by decide)).2⟩
  · obtain ⟨m', _, _, hm', hr', hsetup⟩ := make_setupVars
    obtain ⟨_, _, hr, -, hlocal⟩ := Module.setup_goals_are_local (r := ⟨⟨2⟩, ⟨0⟩⟩)
      declaresAccessors_holding hm' rfl (by decide +kernel) (WitnessMap.all_empty _)
    rw [hr', Option.some.injEq, Prod.mk.injEq] at hr
    obtain ⟨rfl, rfl⟩ := hr
    rw [beq_iff_eq.1 hsetup] at hlocal
    exact ⟨m', _, _, hm', hr', (hlocal ⟨2⟩ (by decide) (by decide)).2⟩

/-- What a lambda expression is said to capture may be bound inside it. -/
theorem hold_captures_own_witness : ∃ m' pred' proc', holding.addWitnesses = .ok m' ∧
    m'.findProc? ⟨⟨4⟩, ⟨0⟩⟩ = some (pred', proc') ∧
      (proc'.body.capturedWitnesses m'.modesOf == [⟨4⟩]) = true :=
  Module.of_ok_any (by decide +kernel)

end HiddenType

end Clausal
