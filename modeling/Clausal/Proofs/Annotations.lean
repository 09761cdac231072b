import Clausal.Proofs.Quantification

/-!
# What is known of tabled bodies

A goal is annotated with its determinism, its purity and the variables that it
binds. The builders of goals work the annotations out from those of the parts,
so those of a tabled body follow from the ones of the body that is tabled
(`Goal.Keeps`).
-/

namespace Clausal

open List GoalInfo MaxSolutions

variable {C' C : Prop} {d : Determinism} {vs : List ProgVar}

/-! ### Promises about solutions -/

namespace MaxSolutions

variable {a b c : MaxSolutions}

theorem times_assoc : (a.times b).times c = a.times (b.times c) := by
  cases a <;> cases b <;> cases c <;> rfl

theorem one_times : MaxSolutions.one.times a = a := by cases a <;> rfl

theorem max_max (h : a.max c = c) (h' : b.max c = c) : (a.max b).max c = c := by
  revert h h'
  cases a <;> cases b <;> cases c <;> decide

end MaxSolutions

namespace Determinism

variable {a b d : Determinism} {c : Bool} {n : MaxSolutions}

@[simp] theorem canFail_ofParts : (ofParts c n).canFail = c := by cases c <;> cases n <;> rfl

@[simp] theorem maxSolutions_ofParts : (ofParts c n).maxSolutions = n := by
  cases c <;> cases n <;> rfl

/-- A determinism promises no less than another: it can fail only if the other
    can, and it has at most as many solutions. -/
def NoLooser (a d : Determinism) : Prop :=
  (a.canFail = true → d.canFail = true) ∧ a.maxSolutions.max d.maxSolutions = d.maxSolutions

instance (a d : Determinism) : Decidable (a.NoLooser d) := inferInstanceAs (Decidable (_ ∧ _))

theorem noLooser_erroneous : Determinism.erroneous.NoLooser d := by cases d <;> decide

theorem noLooser_nondet (a : Determinism) : a.NoLooser .nondet := by cases a <;> decide

theorem noLooser_det (hd : d.maxSolutions ≠ .zero) : Determinism.det.NoLooser d := by
  revert hd
  cases d <;> decide

theorem noLooser_ofParts (hc : c = true → d.canFail = true)
    (hn : n.max d.maxSolutions = d.maxSolutions) : (ofParts c n).NoLooser d := by
  rw [NoLooser, canFail_ofParts, maxSolutions_ofParts]
  exact ⟨hc, hn⟩

theorem NoLooser.trans (h : a.NoLooser b) (h' : b.NoLooser d) : a.NoLooser d := by
  refine ⟨fun hc => h'.1 (h.1 hc), ?_⟩
  have hn := h.2
  have hn' := h'.2
  revert hn hn'
  cases a.maxSolutions <;> cases b.maxSolutions <;> cases d.maxSolutions <;> decide

theorem conjoin_assoc (a b d : Determinism) :
    (a.conjoin b).conjoin d = a.conjoin (b.conjoin d) := by
  simp [Determinism.conjoin, Bool.or_assoc, times_assoc]

theorem conjoin_det (a b : Determinism) : (a.conjoin b).conjoin .det = a.conjoin b := by
  cases a <;> cases b <;> rfl

theorem NoLooser.conjoin (h : a.NoLooser d) (h' : b.NoLooser d) (hd : d.maxSolutions ≠ .zero) :
    (a.conjoin b).NoLooser d := by
  refine noLooser_ofParts (fun hc => (Bool.or_eq_true _ _ ▸ hc).elim h.1 h'.1) ?_
  have hn := h.2
  have hn' := h'.2
  revert hn hn' hd
  cases a.maxSolutions <;> cases b.maxSolutions <;> cases d.maxSolutions <;> decide

theorem NoLooser.join (h : a.NoLooser d) (h' : b.NoLooser d) : (a.join b).NoLooser d :=
  noLooser_ofParts (fun hc => (Bool.or_eq_true _ _ ▸ hc).elim h.1 h'.1)
    (max_max h.2 h'.2)

theorem NoLooser.disjoin_failure (h : a.NoLooser d) :
    ((Determinism.failure.disjoin a).disjoin .failure).NoLooser d := by
  cases a <;> exact h

end Determinism

namespace Goal

open Determinism

variable {g : Goal} {gs : List Goal} {d : Determinism} {v : ProgVar} {context : Context}

/-- The determinism of goals in sequence. -/
abbrev sequenced (gs : List Goal) : Determinism := (sequentialInfo gs default).determinism

theorem foldl_conjoin (a b : Determinism) (gs : List Goal) :
    gs.foldl (fun d g => d.conjoin g.info.determinism) (a.conjoin b) =
      a.conjoin (gs.foldl (fun d g => d.conjoin g.info.determinism) b) := by
  induction gs generalizing b with
  | nil => rfl
  | cons g gs ih => rw [foldl_cons, conjoin_assoc, ih, foldl_cons]

theorem sequenced_append (gs gs' : List Goal) :
    sequenced (gs ++ gs') = (sequenced gs).conjoin (sequenced gs') := by
  have hdet : sequenced gs = (sequenced gs).conjoin .det := by
    cases gs with
    | nil => rfl
    | cons g gs =>
      simp only [sequenced, sequentialInfo, foldl_cons, foldl_conjoin, conjoin_det]
  calc sequenced (gs ++ gs')
    _ = gs'.foldl (fun d g => d.conjoin g.info.determinism) (sequenced gs) := foldl_append ..
    _ = gs'.foldl (fun d g => d.conjoin g.info.determinism) ((sequenced gs).conjoin .det) := by
      rw [← hdet]
    _ = (sequenced gs).conjoin (sequenced gs') := foldl_conjoin ..

theorem noLooser_single : (sequenced [g]).NoLooser d ↔ g.info.determinism.NoLooser d := by
  simp [sequenced, sequentialInfo, NoLooser, Determinism.conjoin, one_times,
    show Determinism.det.canFail = false from rfl,
    show Determinism.det.maxSolutions = .one from rfl]

theorem noLooser_foldl_join {a : Determinism} (ha : a.NoLooser d)
    (h : ∀ g ∈ gs, g.info.determinism.NoLooser d) :
    (gs.foldl (fun d g => d.join g.info.determinism) a).NoLooser d := by
  induction gs generalizing a with
  | nil => exact ha
  | cons g gs ih =>
    obtain ⟨hg, hgs⟩ := forall_mem_cons.1 h
    exact ih (ha.join hg) hgs

theorem noLooser_conjoin (h : (sequenced (gs.flatMap conjuncts)).NoLooser d) :
    (conjoin gs context).info.determinism.NoLooser d := by
  unfold Goal.conjoin
  split
  · next g hg => exact noLooser_single.1 (hg ▸ h)
  · exact h

theorem mem_bound_conjoin :
    v ∈ (conjoin gs context).info.bound ↔ ∃ k ∈ gs.flatMap conjuncts, v ∈ k.info.bound := by
  unfold Goal.conjoin
  split
  · next g hg => simp [hg]
  · show v ∈ VarSet.unions _ ↔ _
    simp

theorem unreachable_conjoin :
    (conjoin gs context).info.unreachable = (gs.flatMap conjuncts).any (·.info.unreachable) := by
  unfold Goal.conjoin
  split
  · next g hg => simp [hg]
  · rfl

/-! ### Branches -/

theorem foldl_commonBound (bs : List (Option VarSet)) (b : Option VarSet) :
    (bs.foldl commonBound b = none ↔ ∀ c ∈ b :: bs, c = none) ∧
      ∀ s, bs.foldl commonBound b = some s → ∀ v, v ∈ s ↔ ∀ t, some t ∈ b :: bs → v ∈ t := by
  induction bs generalizing b with
  | nil => cases b <;> simp
  | cons c bs ih =>
    obtain ⟨hnone, hsome⟩ := ih (commonBound b c)
    rw [foldl_cons]
    refine ⟨hnone.trans ?_, fun s hs v => (hsome s hs v).trans ?_⟩ <;>
      cases b <;> cases c <;> simp [commonBound, or_imp, forall_and, and_assoc]

end Goal

namespace GoalInfo

/-- The variable is known to be bound after the goal, if that succeeds. -/
def Binds (i : GoalInfo) (v : ProgVar) : Prop := i.unreachable = true ∨ v ∈ i.bound

/-- A goal promises no less than a determinism does and binds variables. If `C`
    holds it is not known to fail. -/
structure Keeps (i : GoalInfo) (d : Determinism) (vs : List ProgVar) (C : Prop) : Prop where
  determinism : i.determinism.NoLooser d
  binds : ∀ v ∈ vs, i.Binds v
  reachable : C → i.unreachable = false

variable {i : GoalInfo} {d : Determinism} {vs : List ProgVar} {C : Prop} {s : VarSet} {v : ProgVar}

theorem Keeps.imp (h : i.Keeps d vs C) (hC : C' → C) : i.Keeps d vs C' :=
  ⟨h.determinism, h.binds, fun h' => h.reachable (hC h')⟩

theorem Keeps.mem_bound (h : i.Keeps d vs C) (hC : C) (hv : v ∈ vs) : v ∈ i.bound :=
  (h.binds v hv).resolve_left (by simp [h.reachable hC])

theorem Binds.mem_branch (h : i.Binds v) (hs : Goal.branchBound i = some s) : v ∈ s := by
  unfold Goal.branchBound at hs
  split at hs
  · cases hs
  · next hreachable =>
    cases hs
    exact h.resolve_left hreachable

theorem branchBound_of_reachable (h : i.unreachable = false) :
    Goal.branchBound i = some i.bound :=
  if_neg (by simp [h])

theorem keeps_setBranches {j : GoalInfo} {bs : List (Option VarSet)}
    (hj : j = { Goal.setBranches i bs with nonlocals := j.nonlocals })
    (hi : i.determinism.NoLooser d) (hbinds : ∀ v ∈ vs, ∀ s, some s ∈ bs → v ∈ s)
    (hC : C → ∃ s, some s ∈ bs) : j.Keeps d vs C := by
  obtain ⟨hnone, hsome⟩ := Goal.foldl_commonBound bs none
  rw [hj]
  unfold Goal.setBranches
  split
  · next s hs =>
    refine ⟨hi, fun v hv => .inr ((hsome s hs v).2 fun t ht => hbinds v hv t ?_), fun _ => rfl⟩
    simpa using ht
  · next hs =>
    refine ⟨hi, fun _ _ => .inl rfl, fun h => ?_⟩
    obtain ⟨s, hmem⟩ := hC h
    cases hnone.1 hs _ (mem_cons_of_mem _ hmem)

end GoalInfo

namespace Goal

open Determinism

variable {g f : Goal} {gs : List Goal} {d : Determinism} {vs : List ProgVar} {C : Prop}
  {context : Context}

/-- What is known of a conjunction follows from what is known of its
    conjuncts. -/
structure Annotated (g : Goal) : Prop where
  determinism : (sequenced g.conjuncts).NoLooser g.info.determinism
  bound : ∀ v ∈ g.info.bound, ∃ k ∈ g.conjuncts, v ∈ k.info.bound
  unreachable : g.conjuncts.any (·.info.unreachable) = g.info.unreachable

/-- A goal that is no conjunction and does not matter for what a conjunction
    with it promises. -/
structure Steady (d : Determinism) (g : Goal) : Prop where
  single : g.conjuncts = [g]
  keeps : g.info.Keeps d [] True

theorem annotated_of_single (h : g.conjuncts = [g]) : g.Annotated := by
  refine ⟨?_, fun v hv => ⟨g, by simp [h], hv⟩, by simp [h]⟩
  rw [h, noLooser_single]
  exact ⟨id, by cases g.info.determinism <;> rfl⟩

theorem annotated_conjoin (h : ∀ g ∈ gs, g.conjuncts = [g]) (context : Context) :
    (conjoin gs context).Annotated := by
  have hflat : gs.flatMap conjuncts = gs := by
    rw [flatMap_congr h, flatMap_singleton']
  unfold Goal.conjoin
  rw [hflat]
  split
  · exact annotated_of_single (h _ mem_cons_self)
  · refine ⟨⟨id, ?_⟩, fun v hv => ?_, rfl⟩
    · show (sequenced gs).maxSolutions.max (sequenced gs).maxSolutions = (sequenced gs).maxSolutions
      cases (sequenced gs).maxSolutions <;> rfl
    · have hv : v ∈ VarSet.unions (gs.map (·.info.bound)) := hv
      show ∃ k ∈ gs, v ∈ k.info.bound
      simpa using hv

theorem Steady.part (h : g.Steady d) : g.Annotated ∧ g.info.Keeps d [] C :=
  ⟨annotated_of_single h.single, h.keeps.imp fun _ => trivial⟩

/-- A conjunction keeps what its goals keep, and binds what each of them binds. -/
theorem keeps_conjoin (hd : d.maxSolutions ≠ .zero)
    (h : ∀ g ∈ gs, g.Annotated ∧ g.info.Keeps d [] C) (hbinds : ∀ v ∈ vs, ∃ g ∈ gs, g.info.Binds v)
    (context : Context) : (conjoin gs context).info.Keeps d vs C := by
  have hany : (gs.flatMap conjuncts).any (·.info.unreachable) = gs.any (·.info.unreachable) := by
    rw [any_flatMap, Bool.eq_iff_iff, any_eq_true, any_eq_true]
    exact exists_congr fun g => and_congr_right fun hg => by rw [(h g hg).1.unreachable]
  refine ⟨noLooser_conjoin ?_, fun v hv => ?_, fun hC => ?_⟩
  · clear hbinds hany
    induction gs with
    | nil => exact noLooser_det hd
    | cons g gs ih =>
      obtain ⟨⟨hg, hkeeps⟩, hgs⟩ := forall_mem_cons.1 h
      rw [flatMap_cons, sequenced_append]
      exact (hg.determinism.trans hkeeps.determinism).conjoin (ih hgs) hd
  · obtain ⟨g, hg, hu | hb⟩ := hbinds v hv
    · exact .inl (by rw [unreachable_conjoin, hany]; exact any_eq_true.2 ⟨g, hg, hu⟩)
    · obtain ⟨k, hk, hb⟩ := (h g hg).1.bound v hb
      exact .inr (mem_bound_conjoin.2 ⟨k, mem_flatMap.2 ⟨g, hg, hk⟩, hb⟩)
  · rw [unreachable_conjoin, hany, any_eq_false]
    intro g hg
    simp [(h g hg).2.reachable hC]

theorem keeps_conjoin_steady (hd : d.maxSolutions ≠ .zero) (pre : List Goal) {post : List Goal}
    (hg : g.info.Keeps d vs C) (hann : g.Annotated) (hpre : AllOf (Steady d) pre)
    (hpost : AllOf (Steady d) post) (context : Context) :
    (conjoin (pre ++ g :: post) context).info.Keeps d vs C := by
  refine keeps_conjoin hd (fun k hk => ?_) (fun v hv => ⟨g, by simp, hg.binds v hv⟩) context
  rcases mem_append.1 hk with hk | hk
  · exact (hpre k hk).part
  · rcases mem_cons.1 hk with rfl | hk
    · exact ⟨hann, hg.determinism, by simp, hg.reachable⟩
    · exact (hpost k hk).part

/-- A goal that fails, and is known to if that matters for the variables. -/
def Hopeless (vs : List ProgVar) (g : Goal) : Prop :=
  g.info.determinism = .failure ∧ ∀ v ∈ vs, g.info.Binds v

theorem Hopeless.keeps (h : g.Hopeless vs) (hd : d.canFail = true) : g.info.Keeps d vs False :=
  ⟨h.1 ▸ ⟨fun _ => hd, by cases d <;> rfl⟩, h.2, False.elim⟩

theorem hopeless_failure : (failure context).Hopeless vs := ⟨rfl, fun _ _ => .inl rfl⟩

theorem hopeless_conjoin_failure (h : g.conjuncts = [g]) :
    (conjoin [g, failure context] context).Hopeless vs := by
  have hflat : [g, failure context].flatMap conjuncts = [g, failure context] := by
    rw [flatMap_cons, h]
    rfl
  unfold Goal.conjoin
  rw [hflat]
  refine ⟨?_, fun _ _ => .inl ?_⟩
  · show (Determinism.conjoin _ g.info.determinism).conjoin .failure = _
    cases g.info.determinism <;> rfl
  · show (_ || (true || false)) = true
    simp

theorem keeps_disjoin (hg : g.info.Keeps d vs C) (hf : f.Hopeless vs) (context : Context) :
    (disjoin [g, f] context).info.Keeps d vs C := by
  have hdet : ((Determinism.failure.disjoin g.info.determinism).disjoin
      f.info.determinism).NoLooser d := hf.1 ▸ hg.determinism.disjoin_failure
  refine keeps_setBranches rfl hdet (fun v hv s hs => ?_) fun hC => ?_
  · rcases mem_pair.1 hs with hs | hs
    · exact (hg.binds v hv).mem_branch hs.symm
    · exact (hf.2 v hv).mem_branch hs.symm
  · exact ⟨_, mem_pair.2 (.inl (branchBound_of_reachable (hg.reachable hC)).symm)⟩

theorem keeps_ifThenElse (cond : Goal) {yes no : Goal}
    (hd : (cond.info.determinism.conjoin yes.info.determinism).maxSolutions.max d.maxSolutions =
      d.maxSolutions)
    (hyes : yes.info.determinism.NoLooser d) (hno : no.info.Keeps d vs False)
    (hbinds : ∀ v ∈ vs, yes.info.Binds v ∨ v ∈ cond.info.bound)
    (hC : C → yes.info.unreachable = false) (context : Context) :
    (ifThenElse cond yes no context).info.Keeps d vs C := by
  refine keeps_setBranches rfl (noLooser_ofParts
    (fun hc => (Bool.or_eq_true _ _ ▸ hc).elim hyes.1 hno.determinism.1)
    (max_max hd hno.determinism.2)) (fun v hv s hs => ?_) fun h => ?_
  · rcases mem_pair.1 hs with hs | hs
    · obtain ⟨t, ht, rfl⟩ := Option.map_eq_some_iff.1 hs.symm
      exact VarSet.mem_union.2 ((hbinds v hv).imp_left fun h => h.mem_branch ht)
    · exact (hno.binds v hv).mem_branch hs.symm
  · rw [branchBound_of_reachable (hC h)]
    exact ⟨_, mem_pair.2 (.inl rfl)⟩

theorem keeps_switchOn {arms : List (Symbol × Goal)} (h : ∀ a ∈ arms, a.2.info.Keeps d vs False)
    (hC : ∃ a ∈ arms, a.2.info.Keeps d vs C) (v : ProgVar) (context : Context) :
    (switchOn v arms false context).info.Keeps d vs C := by
  have hdet : (joinDeterminism (arms.map Prod.snd)).NoLooser d := by
    obtain ⟨a, ha, -⟩ := hC
    cases arms with
    | nil => cases ha
    | cons b arms =>
      obtain ⟨hb, harms⟩ := forall_mem_cons.1 h
      exact noLooser_foldl_join hb.determinism fun g hg => by
        obtain ⟨a, ha, rfl⟩ := mem_map.1 hg
        exact (harms a ha).determinism
  refine keeps_setBranches rfl hdet (fun v hv s hs => ?_) fun hreach => ?_
  · obtain ⟨g, hg, hs⟩ := mem_map.1 hs
    obtain ⟨a, ha, rfl⟩ := mem_map.1 hg
    exact ((h a ha).binds v hv).mem_branch hs
  · obtain ⟨a, ha, hkeeps⟩ := hC
    exact ⟨_, mem_map.2 ⟨a.2, mem_map_of_mem ha,
      branchBound_of_reachable (hkeeps.reachable hreach)⟩⟩

end Goal

/-! ### The code for a table -/

/-- What is promised of the code for a table may be promised by a determinism. -/
def TableKind.Fits (d : Determinism) : TableKind → Prop
  | .switch loops model =>
    (model = .semi → d.canFail = true) ∧ (loops = false → model = .non → d = .nondet)
  | .consume => d = .nondet
  | .action => True

/-- Nothing but a loop check around a body that is known not to succeed can be
    known not to succeed. -/
def TableKind.Reachable (body : Goal) : TableKind → Prop
  | .switch true model => model = .semi ∨ body.info.unreachable = false
  | _ => True

theorem Procedure.loopCheck_of_not_reachable {proc : Procedure}
    (h : ¬ proc.tableKind.Reachable proc.body) : ∃ strictness, proc.method = .loopCheck strictness ∧
      proc.determinism.codeModel ≠ .semi ∧ proc.body.info.unreachable = true := by
  unfold tableKind at h
  split at h
  · next strictness hmethod =>
    obtain ⟨hmodel, hu⟩ := not_or.1 h
    exact ⟨strictness, hmethod, hmodel, Bool.not_eq_false _ ▸ hu⟩
  all_goals exact absurd trivial h

namespace TableEnv

open Synth Goal Determinism

variable {e : TableEnv} {p : Primitive} {args outputs vs : List ProgVar} {extra : List ForeignArg}
  {d : Determinism} {g body : Goal} {gs : List Goal} {gen : Option Generator} {n : Nat}
  {many : Bool} {model : CodeModel} {kind : TableKind} {given : Prop}

theorem callWith_info (h : (e.callWith p args extra).MayReturn g) : g.conjuncts = [g] ∧
    g.info.determinism = p.determinism ∧
    (g.info.unreachable = true → p.determinism.maxSolutions = .zero) := by
  obtain ⟨_, _, h⟩ := h
  obtain ⟨-, ⟨-, -, rfl⟩ | ⟨code, rfl, -⟩⟩ := callWith_cases h
  · exact ⟨rfl, rfl, beq_iff_eq.1⟩
  · exact ⟨rfl, rfl, fun h => by cases h⟩

/-- What is asked of the body: it promises no less than `d` and binds `vs`. -/
structure BodyKeeps (e : TableEnv) (d : Determinism) (vs : List ProgVar) (body : Goal) : Prop where
  some : d.maxSolutions ≠ .zero
  -- Foreign code is never known to fail.
  plain : e.env.options.tablingViaExtraArgs = true → vs = []
  annotated : body.Annotated
  determinism : body.info.determinism.NoLooser d
  bound : ∀ v ∈ vs, v ∈ body.info.bound

section

variable (h : e.BodyKeeps d vs body)

include h

theorem BodyKeeps.keeps : body.info.Keeps d vs (body.info.unreachable = false) :=
  ⟨h.determinism, fun v hv => .inr (h.bound v hv), id⟩

theorem BodyKeeps.not_via {v : ProgVar} (hv : v ∈ vs) :
    e.env.options.tablingViaExtraArgs = false :=
  Bool.eq_false_iff.2 fun hvia => by simp [h.plain hvia] at hv

theorem BodyKeeps.steady_construct (v : ProgVar) (f : Symbol) (args : List ProgVar)
    (context : Context) : (construct v f args context).Steady d :=
  ⟨rfl, noLooser_det h.some, by simp, fun _ => rfl⟩

theorem BodyKeeps.binds_call (hr : (e.call p args).MayReturn g)
    (hp : p.determinism.maxSolutions = .zero) : ∀ v ∈ vs, g.info.Binds v := by
  intro v hv
  obtain ⟨_, _, hr⟩ := hr
  unfold call callWith at hr
  rw [h.not_via hv] at hr
  obtain ⟨rfl, -⟩ := returns_pure.1 hr
  exact .inl (beq_iff_eq.2 hp)

theorem Step.steady (hmany : many = true → d = .nondet) (hs : e.Step n outputs many g) :
    g.Steady d := by
  cases hs with
  | @run p _ _ _ _ hcall _ hdet hsome _ =>
    obtain ⟨hsingle, heq, hzero⟩ := callWith_info ⟨_, _, hcall⟩
    have hp : p.determinism.NoLooser d := by
      cases many with
      | false => exact hdet rfl ▸ noLooser_det h.some
      | true => exact hmany rfl ▸ noLooser_nondet _
    exact ⟨hsingle, heq ▸ hp, by simp, fun _ => Bool.eq_false_iff.2 fun hu => hsome (hzero hu)⟩
  | @access p v slot r context hp _ =>
    have hdet := noLooser_det h.some
    exact forall_accessor (P := fun p => Steady d (Synth.accessor p v slot r context))
      ⟨rfl, hdet, by simp, fun _ => rfl⟩ ⟨rfl, hdet, by simp, fun _ => rfl⟩ p hp
  | build _ _ => exact h.steady_construct ..
  | remake _ => exact h.steady_construct ..

theorem Fails.hopeless (hf : e.Fails n outputs g) : g.Hopeless vs := by
  cases hf with
  | call hcall hp =>
    exact ⟨(callWith_info hcall).2.1.trans hp, h.binds_call hcall (by rw [hp]; rfl)⟩
  | failure => exact hopeless_failure
  | after hstep => exact hopeless_conjoin_failure (hstep.steady h (by simp)).single

section

variable (hmany : many = true → d = .nondet)

include hmany

theorem Rest.part (hrest : e.Rest n outputs many g) : g.Annotated ∧ g.info.Keeps d [] True := by
  cases hrest with
  | step hstep => exact (hstep.steady h hmany).part
  | steps hsteps =>
    have hsteady := hsteps.imp fun _ hg => hg.steady h hmany
    exact ⟨annotated_conjoin (fun g hg => (hsteady g hg).single) _,
      keeps_conjoin h.some (fun g hg => (hsteady g hg).part) (by simp) _⟩
  | retry hstep hfails =>
    exact ⟨annotated_of_single rfl,
      keeps_disjoin (hstep.steady h hmany).keeps ⟨(hfails.hopeless h).1, by simp⟩ _⟩

theorem BodyKeeps.keeps_conjoin (hrest : AllOf (e.Rest n outputs many) gs) :
    (conjoin (body :: gs) e.context).info.Keeps d vs (body.info.unreachable = false) :=
  Goal.keeps_conjoin h.some (forall_mem_cons.2 ⟨⟨h.annotated, h.determinism, by simp, id⟩,
      fun g hg => ((hrest g hg).part h hmany).imp_right fun hkeeps => hkeeps.imp fun _ => trivial⟩)
    (fun v hv => ⟨body, mem_cons_self, .inr (h.bound v hv)⟩) _

theorem Visit.keeps (hsemi : model = .semi → d.canFail = true)
    (hvisit : e.Visit n outputs body many model g) :
    g.info.Keeps d vs (model = .semi ∨ body.info.unreachable = false) := by
  cases hvisit with
  | once hrest => exact (h.keeps_conjoin hmany (.single hrest)).imp (by simp)
  | cond hrest hfails =>
    obtain ⟨-, hkeeps⟩ := hrest.part h hmany
    exact keeps_ifThenElse _ (h.determinism.conjoin hkeeps.determinism h.some).2 hkeeps.determinism
      ((hfails.hopeless h).keeps (hsemi rfl)) (fun v hv => .inr (h.bound v hv))
      (fun _ => hkeeps.reachable trivial) _
  | each hrest _ hfails =>
    exact (keeps_disjoin (h.keeps_conjoin hmany hrest) (hfails.hopeless h) _).imp (by simp)

theorem Answer.keeps (hvs : vs ⊆ outputs) (hanswer : e.Answer n outputs many g) :
    g.info.Keeps d vs True := by
  obtain ⟨gs, ⟨hsteps, hbinds⟩, rfl⟩ := hanswer
  exact Goal.keeps_conjoin h.some (fun g hg => ((hsteps g hg).steady h hmany).part)
    (fun v hv => (hbinds v (hvs hv)).imp fun _ => And.imp_right .inr) _

end

theorem tableError_keeps {problem : String} (hr : (e.tableError problem).MayReturn g) :
    g.info.Keeps d vs False := by
  obtain ⟨_, _, hr⟩ := hr
  simp only [tableError, returns_bind, returns_pure] at hr
  obtain ⟨v, _, -, call, _, hcall, rfl, rfl⟩ := hr
  have hcall : (e.call .tableError [v]).MayReturn call := ⟨_, _, hcall⟩
  obtain ⟨hsingle, hdet, -⟩ := callWith_info hcall
  have herror : call.info.Keeps d vs False :=
    ⟨hdet ▸ noLooser_erroneous, h.binds_call hcall rfl, False.elim⟩
  exact keeps_conjoin_steady h.some [_] herror (annotated_of_single hsingle)
    (.single (h.steady_construct ..)) .nil _

theorem Arm.keeps (hmany : many = true → d = .nondet) (hsemi : model = .semi → d.canFail = true)
    (hvs : vs ⊆ outputs) (harm : e.Arm n outputs body many model g) :
    g.info.Keeps d vs False := by
  cases harm with
  | visit hvisit => exact (hvisit.keeps h hmany hsemi).imp False.elim
  | answer hanswer => exact (hanswer.keeps h hmany hvs).imp False.elim
  | fails hmodel => exact hopeless_failure.keeps (hsemi hmodel)
  | error herror => exact tableError_keeps h herror

/-- Whatever the method, the code for a table keeps what the body promises and
    binds. -/
theorem Shape.keeps (hfits : kind.Fits d) (hvs : vs ⊆ outputs) (hgiven : given)
    (hshape : e.Shape n outputs body given kind g gen) :
    g.info.Keeps d vs (kind.Reachable body) := by
  have hsteps : ∀ {gs}, e.Steps n outputs false gs → AllOf (Steady d) gs :=
    fun hs => hs.imp fun _ hg => hg.steady h (by simp)
  cases hshape with
  | @switch many loops model pre setup status arms heq hpre hsetup _ harms hvisit hanswer =>
    have hmany : many = true → d = .nondet := by
      rw [heq, Bool.and_eq_true, Bool.not_eq_true', beq_iff_eq]
      exact fun hm => hfits.2 hm.1 hm.2
    have hreached : ∃ a ∈ arms, a.2.info.Keeps d vs
        ((TableKind.switch loops model).Reachable body) := by
      cases loops with
      | false =>
        obtain ⟨a, ha, hanswer⟩ := hanswer rfl
        exact ⟨a, ha, hanswer.keeps h hmany hvs⟩
      | true =>
        obtain ⟨a, ha, hvisit⟩ := hvisit
        exact ⟨a, ha, hvisit.keeps h hmany hfits.1⟩
    have hkeeps := keeps_conjoin_steady h.some (pre ++ [setup])
      (keeps_switchOn (fun a ha => (harms a ha).2.keeps h hmany hfits.1 hvs) hreached status
        e.context) (annotated_of_single rfl) (hsteps (hpre.append (.single hsetup))) .nil e.context
    rwa [append_assoc] at hkeeps
  | consume hpre hsave hsetup _ hanswers _ _ =>
    obtain ⟨hsingle, hdet, hzero⟩ := callWith_info hsave
    have hsave : Steady d _ := ⟨hsingle, hdet ▸ noLooser_det h.some, by simp, fun _ =>
      Bool.eq_false_iff.2 fun hu => absurd (hzero hu) (by decide)⟩
    have hanswer := hanswers.all.imp fun _ hg => hg.steady h fun _ => hfits
    refine Goal.keeps_conjoin h.some (fun g hg => Steady.part ?_) (fun v hv => ?_) _
    · exact (hsteps hpre).append ((AllOf.cons hsave (.cons (h.steady_construct ..)
        (.cons (h.steady_construct ..) (hsteps (.single hsetup))))).append hanswer) g hg
    · obtain ⟨g, hg, hbound⟩ := hanswers.binds v (hvs hv)
      exact ⟨g, by simp [hg], .inr hbound⟩
  | action hrange _ hlookup hhas hmoves hbinds haround =>
    obtain ⟨pre, post, rfl, hpre, hpost⟩ := haround
    have hmove : AllOf (Steady d) _ := hmoves.imp fun _ hg => by
      rcases hg with hg | ⟨v, w, rfl⟩
      · exact hg.steady h (by simp)
      · exact ⟨rfl, noLooser_det h.some, by simp, fun _ => rfl⟩
    have hrestore := Goal.keeps_conjoin (C := True) h.some (fun g hg => (hmove g hg).part)
      (fun v hv => (hbinds hgiven v (hvs hv)).imp fun _ => And.imp_right .inr) e.context
    have hdone := keeps_conjoin_steady h.some pre h.keeps h.annotated (hsteps hpre) (hsteps hpost)
      e.context
    have hcond : ∀ {c a : Determinism}, c = .semidet → a.NoLooser d →
        (c.conjoin a).maxSolutions.max d.maxSolutions = d.maxSolutions := by
      rintro _ a rfl ha
      cases a <;> exact ha.2
    have honce := keeps_ifThenElse _ (hcond (callWith_info hhas).2.1 hrestore.determinism)
      hrestore.determinism (hdone.imp False.elim) (fun v hv => .inl (hrestore.binds v hv))
      hrestore.reachable e.context
    have hyes := keeps_conjoin_steady h.some [_] honce (annotated_of_single rfl)
      (hsteps (.single hlookup)) .nil e.context
    exact keeps_ifThenElse _ (hcond (callWith_info hrange).2.1 hyes.determinism) hyes.determinism
      (h.keeps.imp False.elim) (fun v hv => .inl (hyes.binds v hv)) hyes.reachable e.context

end

end TableEnv

namespace Module

variable {m m' : Module} {r : ProcRef} {proc : Procedure}

theorem info_tabledBody (e : TableEnv) (purity : Purity) (head : List ProgVar) (body : Goal) :
    ∃ nonlocals context purity', (tabledBody e purity head body).info =
      { body.info with nonlocals, context, purity := purity' } := by
  have hinfo : ∃ nonlocals,
      (body.requantify (.ofList head)).info = { body.info with nonlocals } := by
    cases body <;> rw [Goal.requantify] <;> exact ⟨_, rfl⟩
  obtain ⟨nonlocals, hinfo⟩ := hinfo
  unfold tabledBody TableEnv.promised
  split
  · rw [within_promise, Goal.info, hinfo]
    exact ⟨_, _, _, rfl⟩
  · exact ⟨nonlocals, _, _, hinfo⟩

theorem keeps_tabledBody {body : Goal} (h : body.info.Keeps d vs C) (e : TableEnv) (purity : Purity)
    (head : List ProgVar) :
    (tabledBody e purity head body).info.Keeps d vs C := by
  obtain ⟨nonlocals, context, purity', hinfo⟩ := info_tabledBody e purity head body
  rw [hinfo]
  exact ⟨h.determinism, h.binds, h.reachable⟩

theorem purity_tabledBody {body : Goal} {n : Nat} (h : body.Marked n) (e : TableEnv)
    (purity : Purity) (head : List ProgVar) : (tabledBody e purity head body).info.purity =
      if purity = .pure then .pure else .impure := by
  have hpurity := (Goal.purity_requantify (.ofList head) body).trans h.purity
  unfold tabledBody TableEnv.promised
  by_cases hpure : purity = .pure
  · rw [if_pos ⟨hpure, by simp [hpurity]⟩, if_pos hpure, within_promise]
    rfl
  · rw [if_neg fun h => hpure h.1, if_neg hpure, hpurity]

theorem tableProc_keeps (h : m.tableProc r = .ok m') (hproc : m.procAt? r = some proc)
    (hmethod : proc.method ≠ .normal)
    (hstates : ∀ purpose unit, proc.method = .tableIo purpose unit → proc.hasIoStates = .ok true)
    (hkeeps : ∀ e : TableEnv, e.env = m → e.BodyKeeps d vs proc.body)
    (hfits : proc.tableKind.Fits d) (hvs : vs ⊆ proc.headOf .output) :
    ∃ proc', m'.procAt? r = some proc' ∧ proc'.headOf .output = proc.headOf .output ∧
      proc'.body.info.Keeps d vs (proc.tableKind.Reachable proc.body) := by
  obtain ⟨pred, tabled, s, -, hreturns, hplace, -⟩ := tableProc_inTable h hproc hmethod
  exact ⟨_, hplace, rfl, keeps_tabledBody ((TableEnv.tabled_shape hreturns).keeps (hkeeps _ rfl)
    hfits hvs fun purpose unit hm => Procedure.statesIn_ne_nil (hstates purpose unit hm)) ..⟩

/-- Tabling keeps the outputs bound: if the body is known to bind them all, so
    is the tabled body. The one exception is a loop check around a body that is
    known not to succeed and has no failure to be caught; then the tabled body is
    known not to succeed. -/
theorem tabled_bodies_bind_outputs (h : m.tableProc r = .ok m') (hproc : m.procAt? r = some proc)
    (hmethod : proc.method ≠ .normal) (hvia : m.options.tablingViaExtraArgs = false)
    (hstates : ∀ purpose unit, proc.method = .tableIo purpose unit → proc.hasIoStates = .ok true)
    (hbody : proc.body.Annotated) (hbound : ∀ v ∈ proc.headOf .output, v ∈ proc.body.info.bound) :
    ∃ proc', m'.procAt? r = some proc' ∧ proc'.headOf .output = proc.headOf .output ∧
      ((∀ v ∈ proc.headOf .output, v ∈ proc'.body.info.bound) ∨
        (∃ strictness, proc.method = .loopCheck strictness) ∧
          proc.determinism.codeModel ≠ .semi ∧ proc.body.info.unreachable = true ∧
            proc'.body.info.unreachable = true) := by
  have hfits : proc.tableKind.Fits .nondet := by
    unfold Procedure.tableKind
    split <;> simp [TableKind.Fits, Determinism.canFail]
  obtain ⟨proc', hplace, hhead, hbinds⟩ := tableProc_keeps h hproc hmethod hstates
    (fun e he =>
      { some := by decide
        plain := fun hm => by cases hvia.symm.trans (he ▸ hm)
        annotated := hbody
        determinism := Determinism.noLooser_nondet _
        bound := hbound }) hfits (List.Subset.refl _)
  refine ⟨proc', hplace, hhead, ?_⟩
  by_cases hreachable : proc.tableKind.Reachable proc.body
  · exact .inl fun v hv => hbinds.mem_bound hreachable hv
  · obtain ⟨strictness, hloop, hmodel, hu⟩ := Procedure.loopCheck_of_not_reachable hreachable
    cases hu' : proc'.body.info.unreachable with
    | false => exact .inl fun v hv => (hbinds.binds v hv).resolve_left (by simp [hu'])
    | true => exact .inr ⟨⟨strictness, hloop⟩, hmodel, hu, rfl⟩

/-- A body that is checked for loops or memoed promises no less than was
    declared, if it did so before. Memoing a procedure that always has a solution
    and may have several is the exception: a solution that was found before is
    dropped, so that the body is taken to fail. -/
theorem tabled_bodies_no_looser (h : m.tableProc r = .ok m') (hproc : m.procAt? r = some proc)
    (hmethod : ∃ strictness, proc.method = .loopCheck strictness ∨
      proc.method = .memo strictness ∧ proc.determinism ≠ .multi)
    (hdeclared : proc.determinism ∈ [.det, .semidet, .multi, .nondet])
    (hbody : proc.body.Annotated)
    (hlooser : proc.body.info.determinism.NoLooser proc.determinism) :
    ∃ proc', m'.procAt? r = some proc' ∧
      proc'.body.info.determinism.NoLooser proc.determinism := by
  obtain ⟨strictness, hmethod⟩ := hmethod
  have hsome : proc.determinism.maxSolutions ≠ .zero := by
    revert hdeclared
    cases proc.determinism <;> decide
  have hfits : proc.tableKind.Fits proc.determinism := by
    unfold Procedure.tableKind
    rcases hmethod with hm | ⟨hm, hmulti⟩ <;> rw [hm]
    · refine ⟨?_, fun h => by cases h⟩
      cases proc.determinism <;> decide
    · revert hdeclared hmulti
      cases proc.determinism <;> simp [TableKind.Fits] <;> decide
  have hnot : ∀ purpose unit, proc.method ≠ .tableIo purpose unit := fun purpose unit hio => by
    rcases hmethod with hm | ⟨hm, -⟩ <;> cases hm.symm.trans hio
  obtain ⟨proc', hplace, -, hkeeps⟩ := tableProc_keeps h hproc
    (by rcases hmethod with hm | ⟨hm, -⟩ <;> rw [hm] <;> exact EvalMethod.noConfusion)
    (fun purpose unit hio => absurd hio (hnot purpose unit))
    (fun e he => ⟨hsome, fun _ => rfl, hbody, hlooser, by simp⟩) hfits (List.nil_subset _)
  exact ⟨proc', hplace, hkeeps.determinism⟩

/-- Tabling hides its own effects from the callers of a pure procedure, and only
    from those: a procedure that was semipure counts as impure. The same goes for
    a generator. -/
theorem tabled_bodies_purity (h : m.tableProc r = .ok m') (hproc : m.procAt? r = some proc)
    (hmethod : proc.method ≠ .normal) :
    ∃ purity : Purity, purity = (if proc.body.info.purity = .pure then .pure else .impure) ∧
      (∃ proc', m'.procAt? r = some proc' ∧ proc'.body.info.purity = purity) ∧
      ∀ strictness, proc.method = .minimalModel .ownStacks strictness →
        ∃ gen, m'.procAt? ⟨m.nextPred, ⟨0⟩⟩ = some gen ∧ gen.body.info.purity = purity := by
  obtain ⟨pred, tabled, s, -, hreturns, hplace, hgen⟩ := tableProc_inTable h hproc hmethod
  obtain ⟨hbody, hmarked⟩ := TableEnv.tabled_marked hreturns
  refine ⟨_, rfl, ⟨_, hplace, purity_tabledBody hbody ..⟩, fun strictness hown => ?_⟩
  obtain ⟨gen, hsome⟩ := TableEnv.generator_of_ownStacks hreturns hown
  exact ⟨_, hgen gen hsome, purity_tabledBody (hmarked gen hsome).2 ..⟩

end Module

namespace TabledExample

/-- A procedure that gives a number, tabled. -/
def givingModule (determinism : Determinism) (method : EvalMethod) (body : Context → Goal) :
    Module :=
  let m := Module.start "m"
  m.declare { name := "p", args := [.output "X" .int], determinism, method } (body (m.context 1))

/-- What is seen of the procedure before it is tabled and afterwards. -/
def beforeAndAfter {α : Type} (m : Module) (f : Procedure → α) : Option (α × α) := do
  let m' ← (m.tableProc tabledProc).toOption
  return (f (← m.procAt? tabledProc), f (← m'.procAt? tabledProc))

/-- A procedure that always gives the same number, memoed. -/
def oneModule : Module := givingModule .det (.memo .allStrict) (.intConst ⟨0⟩ 1)

/-- The number is bound by the memoed body. -/
theorem one_bound : ∃ m' proc', oneModule.tableProc tabledProc = .ok m' ∧
    m'.procAt? tabledProc = some proc' ∧ ⟨0⟩ ∈ proc'.body.info.bound := by
  obtain ⟨m', hm'⟩ := exists_of_isOk (x := oneModule.tableProc tabledProc) (by decide +kernel)
  obtain ⟨proc', hproc', -, hbound | ⟨⟨_, hloop⟩, -⟩⟩ := Module.tabled_bodies_bind_outputs hm'
    (Module.procAt?_declare ..) (by decide) rfl (fun _ _ h => by cases h)
    (Goal.annotated_of_single rfl) (by decide)
  · exact ⟨m', proc', hm', hproc', hbound _ (by decide)⟩
  · cases hloop

/-- A body that gives a number and then fails is checked for loops. What takes
    its place is known not to succeed, and does not bind the number. -/
theorem failing_loses_output : beforeAndAfter
      (givingModule .nondet (.loopCheck .allStrict)
        fun c => .conjoin [.intConst ⟨0⟩ 1 c, .failure c] c)
      (fun p => (p.headOf .output, decide (⟨0⟩ ∈ p.body.info.bound), p.body.info.unreachable)) =
    some (([⟨0⟩], true, true), ([⟨0⟩], false, true)) := by
  decide +kernel

/-- The memoed body promises one solution, as declared. -/
theorem one_no_looser : ∃ m' proc', oneModule.tableProc tabledProc = .ok m' ∧
    m'.procAt? tabledProc = some proc' ∧ proc'.body.info.determinism.NoLooser .det := by
  obtain ⟨m', hm'⟩ := exists_of_isOk (x := oneModule.tableProc tabledProc) (by decide +kernel)
  obtain ⟨proc', hproc', hno⟩ := Module.tabled_bodies_no_looser hm' (Module.procAt?_declare ..)
    ⟨_, .inr ⟨rfl, by decide⟩⟩ (by decide) (Goal.annotated_of_single rfl) (by decide)
  exact ⟨m', proc', hm', hproc', hno⟩

/-- A body with one solution is taken to fail once it is memoed, where several
    solutions are declared. -/
theorem memoed_taken_to_fail :
    beforeAndAfter (givingModule .multi (.memo .allStrict) (.intConst ⟨0⟩ 1))
        (fun p => (p.determinism, p.body.info.determinism)) =
      some ((.multi, .det), (.multi, .nondet)) ∧
    Determinism.det.NoLooser .multi ∧ ¬ Determinism.nondet.NoLooser .multi := by
  decide +kernel

/-- A procedure with a generator stays pure, and so is the generator. -/
theorem copy_stays_pure : ∃ m' proc' gen, copyModule.tableProc tabledProc = .ok m' ∧
    m'.procAt? tabledProc = some proc' ∧ proc'.body.info.purity = .pure ∧
    m'.procAt? ⟨copyModule.nextPred, ⟨0⟩⟩ = some gen ∧ gen.body.info.purity = .pure := by
  obtain ⟨m', hm'⟩ := exists_of_isOk (x := copyModule.tableProc tabledProc) (by decide +kernel)
  obtain ⟨_, rfl, ⟨proc', hproc', hpure⟩, hgen⟩ := Module.tabled_bodies_purity hm'
    (Module.procAt?_declare ..) (by decide)
  obtain ⟨gen, hgen, hgpure⟩ := hgen _ rfl
  exact ⟨m', proc', gen, hm', hproc', hpure, hgen, hgpure⟩

/-- A body that is promised to be semipure is impure once it is memoed. -/
theorem semipure_becomes_impure : beforeAndAfter
      (givingModule .det (.memo .allStrict)
        fun c => .within (.promise .semipure) (.intConst ⟨0⟩ 1 c) c)
      (·.body.info.purity) = some (.semipure, .impure) := by
  decide +kernel

end TabledExample

end Clausal
