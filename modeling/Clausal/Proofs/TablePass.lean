import Clausal.Proofs.TabledProcs

/-!
# The tabling pass over a module

The pass works on one procedure after the other, twice: actions are chosen
first, and what is to be tabled is tabled then. Each time one procedure is
changed, and a predicate may be added (`Module.Rewrites`). Everything else
stays, so that what becomes of a procedure is decided where it is worked on
(`foldlM_rewrites`).
-/

namespace Clausal

open List Option Function

variable {step : Module → ProcRef → Except Fault Module} {rs : List ProcRef} {m₀ : Module}
  {s s' : WitnessState} {i : PredId}
  {became : Module → ProcRef → Procedure → Procedure → Option Predicate → Prop}

open Synth

theorem TableEnv.tabled_cases {e : TableEnv} {proc : Procedure} {tabled : Tabled}
    (h : Returns (e.tabled proc) s (some tabled) s') :
    (∃ strictness, proc.method = .loopCheck strictness ∧
      Returns (e.loopCheck proc.body proc.determinism proc.tabledHead strictness) s tabled s') ∨
    (∃ strictness, proc.method = .memo strictness ∧
      Returns (e.memo proc.body proc.determinism proc.tabledHead strictness) s tabled s') ∨
    (∃ strictness, proc.method = .minimalModel .stackCopy strictness ∧
      Returns (e.stackCopy proc.body proc.tabledHead strictness) s tabled s') ∨
    (∃ strictness, proc.method = .minimalModel .ownStacks strictness ∧
      Returns (e.ownStacks proc.body proc.tabledHead strictness) s tabled s') ∨
    ∃ purpose unit, proc.method = .tableIo purpose unit ∧
      Returns (e.tableIo proc.body purpose unit proc.tabledHead) s tabled s' := by
  unfold TableEnv.tabled at h
  split at h
  · simp at h
  all_goals
    next hmethod =>
    simp only [returns_bind, returns_pure, Option.some.injEq] at h
    obtain ⟨_, _, h, rfl, rfl⟩ := h
    simp [hmethod, h]

namespace Module

variable {m m₁ m' env : Module} {r r' : ProcRef} {pred p : Predicate} {proc proc' : Procedure}

/-! ### Changes of a module -/

/-- Another state of a module: predicates may have been added, procedures
    changed and diagnostics reported. -/
structure Grows (m m' : Module) : Prop where
  rest : m' = { m with preds := m'.preds, diagnostics := m'.diagnostics }
  size_le : m.preds.size ≤ m'.preds.size
  preds : ∀ i p, m.findPred? i = some p → ∃ q, m'.findPred? i = some q ∧
    q.procs.size = p.procs.size ∧ q = { p with scope := q.scope, procs := q.procs }

theorem Grows.refl (m : Module) : m.Grows m := ⟨rfl, Nat.le_refl _, fun _ p hp => ⟨p, hp, rfl, rfl⟩⟩

theorem Grows.trans (h : m.Grows m₁) (h' : m₁.Grows m') : m.Grows m' := by
  refine ⟨?_, Nat.le_trans h.size_le h'.size_le, fun i p hp => ?_⟩
  · conv => lhs; rw [h'.rest, h.rest]
  · obtain ⟨p₁, hp₁, hsize₁, hdecl₁⟩ := h.preds i p hp
    obtain ⟨q, hq, hsize, hdecl⟩ := h'.preds i p₁ hp₁
    refine ⟨q, hq, hsize.trans hsize₁, ?_⟩
    conv => lhs; rw [hdecl, hdecl₁]

theorem Grows.isSome_procAt? (h : m.Grows m') (hr : (m.procAt? r).isSome) :
    (m'.procAt? r).isSome := by
  rw [procAt?_eq] at hr ⊢
  cases hp : m.findPred? r.pred with
  | none =>
    rw [hp] at hr
    cases hr
  | some p =>
    obtain ⟨q, hq, hsize, -⟩ := h.preds _ p hp
    rw [hp, bind_some] at hr
    rw [hq, bind_some]
    simpa [hsize] using hr

theorem findPred?_lt (h : m.findPred? r.pred = some p) : r.pred.index < m.preds.size :=
  (Array.getElem?_eq_some_iff.1 h).1

theorem procAt?_lt (h : m.procAt? r = some proc) : r.pred.index < m.preds.size := by
  rw [procAt?_eq] at h
  obtain ⟨p, hp, -⟩ := bind_eq_some_iff.1 h
  exact findPred?_lt hp

theorem findPred?_eq_none_of_le (h : m.preds.size ≤ i.index) :
    m.findPred? i = none :=
  Array.getElem?_eq_none h

theorem procAt?_eq_none_of_le (h : m.preds.size ≤ r.pred.index) : m.procAt? r = none := by
  rw [procAt?_eq, findPred?_eq_none_of_le h, bind_none]

theorem procAt?_of_findProc? (h : m.findProc? r = some (pred, proc)) : m.procAt? r = some proc := by
  rw [procAt?, h]
  rfl

theorem exists_findProc? (h : m.procAt? r = some proc) :
    ∃ pred, m.findProc? r = some (pred, proc) := by
  obtain ⟨⟨pred, _⟩, hfound, rfl⟩ := map_eq_some_iff.1 h
  exact ⟨pred, hfound⟩

/-- One procedure is changed, and a predicate may be added. -/
structure Rewrites (m : Module) (r : ProcRef) (proc' : Procedure) (added : Option Predicate)
    (m' : Module) : Prop where
  grows : m.Grows m'
  place : m'.procAt? r = some proc'
  others : ∀ r', r' ≠ r → r'.pred.index < m.preds.size → m'.procAt? r' = m.procAt? r'
  otherPreds : ∀ i, i ≠ r.pred → i.index < m.preds.size → m'.findPred? i = m.findPred? i
  newPreds : ∀ i, m.preds.size ≤ i.index → m'.findPred? i = if i = m.nextPred then added else none

namespace Rewrites

theorem new {added : Option Predicate} (h : Rewrites m r proc' added m') (r' : ProcRef)
    (hr' : m.preds.size ≤ r'.pred.index) : m'.procAt? r' =
      if r'.pred = m.nextPred then added.bind fun p => p.procs[r'.proc.index]? else none := by
  rw [procAt?_eq, h.newPreds r'.pred hr']
  split <;> rfl

theorem of_preds_eq (h : m.procAt? r = some proc)
    (hm : m' = { m with diagnostics := m'.diagnostics }) : Rewrites m r proc none m' := by
  have hprocs : ∀ r', m'.procAt? r' = m.procAt? r' := fun r' => by rw [hm]; rfl
  have hpreds : ∀ i, m'.findPred? i = m.findPred? i := fun i => by rw [hm]; rfl
  refine ⟨⟨by rw [hm], by rw [hm], fun i p hp => ⟨p, by rw [hm]; exact hp, rfl, rfl⟩⟩,
    by rw [hprocs, h], fun r' _ _ => hprocs r', fun i _ _ => hpreds i, fun i hi => ?_⟩
  rw [hpreds, findPred?_eq_none_of_le hi, ite_self]

theorem setProc (h : m.findProc? r = some (pred, proc)) (scope : TypeScope) :
    Rewrites m r proc' none (m.setPred r.pred ({ pred with scope }.setProc r.proc proc')) := by
  obtain ⟨hpred, hproc⟩ := findProc?_eq_some.1 h
  refine ⟨⟨rfl, by simp [setPred], fun i p hp => ?_⟩, ?_, fun r' hr' _ => ?_, fun i hi _ => ?_,
    fun i hi => ?_⟩
  · rw [findPred?_setPred]
    split
    · next hi =>
      subst hi
      rw [hpred, Option.some.injEq] at hp
      subst hp
      exact ⟨_, by rw [hpred]; rfl, by simp [Predicate.setProc], rfl⟩
    · exact ⟨p, hp, rfl, rfl⟩
  · rw [procAt?_setProc hpred hproc, if_pos rfl]
  · rw [procAt?_setProc hpred hproc, if_neg hr']
  · rw [findPred?_setPred, if_neg (Ne.symm hi)]
  · rw [findPred?_eq_none_of_le (by simpa [setPred] using hi), ite_self]

theorem modifyProc (h : m.findProc? r = some (pred, proc)) (f : Procedure → Procedure) :
    Rewrites m r (f proc) none (m.modifyProc r f) := by
  have hset : Rewrites m r (f proc) none
      (m.setPred r.pred ({ pred with scope := pred.scope }.setProc r.proc (f proc))) :=
    setProc h pred.scope
  rw [Module.modifyProc, h]
  exact hset

theorem addPred (h : Rewrites m r proc' none m') (hsize : m'.preds.size = m.preds.size)
    (p : Predicate) : Rewrites m r proc' (some p) (m'.addPred p) := by
  have hold : ∀ {r' : ProcRef}, r'.pred.index < m'.preds.size →
      (m'.addPred p).procAt? r' = m'.procAt? r' :=
    fun {r'} hi => by rw [procAt?_eq, procAt?_eq, findPred?_addPred, if_neg (Nat.ne_of_lt hi)]
  refine ⟨⟨?_, ?_, fun i q hq => ?_⟩, ?_, fun r' hr' hlt => ?_, fun i hi hlt => ?_,
    fun i hi => ?_⟩
  · show { m' with preds := _ } = _
    rw [h.grows.rest]
    rfl
  · rw [Module.addPred, Array.size_push]
    exact Nat.le_succ_of_le h.grows.size_le
  · obtain ⟨q', hq', hrest⟩ := h.grows.preds i q hq
    rw [findPred?_addPred, if_neg (Nat.ne_of_lt (Array.getElem?_eq_some_iff.1 hq').1)]
    exact ⟨q', hq', hrest⟩
  · rw [hold (procAt?_lt h.place), h.place]
  · rw [hold (Nat.lt_of_lt_of_le hlt h.grows.size_le), h.others r' hr' hlt]
  · rw [findPred?_addPred, if_neg (Nat.ne_of_lt (hsize ▸ hlt)), h.otherPreds i hi hlt]
  · obtain ⟨i⟩ := i
    rw [findPred?_addPred, hsize]
    by_cases heq : i = m.preds.size
    · rw [if_pos heq, if_pos (by rw [nextPred, heq])]
    · have hne : (⟨i⟩ : PredId) ≠ m.nextPred := fun h => heq (PredId.mk.inj h)
      rw [if_neg heq, if_neg hne, findPred?_eq_none_of_le (hsize ▸ hi)]

/-- The same procedure is changed again. -/
theorem trans {proc₁ : Procedure} {added : Option Predicate} (h : Rewrites m r proc₁ added m₁)
    (h' : Rewrites m₁ r proc' none m') (hr : r.pred.index < m.preds.size) :
    Rewrites m r proc' added m' where
  grows := h.grows.trans h'.grows
  place := h'.place
  others r' hr' hlt := by
    rw [h'.others r' hr' (Nat.lt_of_lt_of_le hlt h.grows.size_le), h.others r' hr' hlt]
  otherPreds i hi hlt := by
    rw [h'.otherPreds i hi (Nat.lt_of_lt_of_le hlt h.grows.size_le), h.otherPreds i hi hlt]
  newPreds i hi := by
    rw [← h.newPreds i hi]
    have hne : i ≠ r.pred := fun heq => Nat.not_lt.2 hi (heq ▸ hr)
    by_cases hlt : i.index < m₁.preds.size
    · exact h'.otherPreds i hne hlt
    · rw [h'.newPreds i (Nat.not_lt.1 hlt), ite_self,
        findPred?_eq_none_of_le (Nat.not_lt.1 hlt)]

end Rewrites

/-! ### One procedure after the other -/

/-- What becomes of procedures that are worked on one after the other, if the
    step for each is described by `became`. -/
structure Reworks (became : Module → ProcRef → Procedure → Procedure → Option Predicate → Prop)
    (m : Module) (rs : List ProcRef) (m' : Module) : Prop where
  grows : m.Grows m'
  others : ∀ r, r ∉ rs → r.pred.index < m.preds.size → m'.procAt? r = m.procAt? r
  changed : ∀ r ∈ rs, ∃ env proc proc' added, m.Grows env ∧ m.procAt? r = some proc ∧
    env.procAt? r = some proc ∧ became env r proc proc' added ∧ m'.procAt? r = some proc' ∧
    ∀ p j q, added = some p → p.procs[j]? = some q → m'.procAt? ⟨env.nextPred, ⟨j⟩⟩ = some q
  new : ∀ r' q, m.preds.size ≤ r'.pred.index → m'.procAt? r' = some q →
    ∃ r ∈ rs, ∃ env proc proc' p, m.Grows env ∧ m.procAt? r = some proc ∧
      env.procAt? r = some proc ∧ became env r proc proc' (some p) ∧ m'.procAt? r = some proc' ∧
      r'.pred = env.nextPred ∧ p.procs[r'.proc.index]? = some q

section

variable (hstep : ∀ {m r m'}, step m r = .ok m' → ∃ proc proc' added, m.procAt? r = some proc ∧
  Rewrites m r proc' added m' ∧ became m r proc proc' added) (h : rs.foldlM step m = .ok m')

include hstep h

/-- Each procedure is worked on once, whatever has become of the others. -/
theorem foldlM_rewrites (hnodup : rs.Nodup) (hold : ∀ r ∈ rs, r.pred.index < m.preds.size) :
    Reworks became m rs m' := by
  induction rs generalizing m with
  | nil =>
    cases h
    refine ⟨.refl _, fun _ _ _ => rfl, fun r hr => absurd hr not_mem_nil,
      fun r' q hr' hq => ?_⟩
    rw [procAt?_eq_none_of_le hr'] at hq
    cases hq
  | cons r rs ih =>
    rw [foldlM_cons, except_bind_eq_ok] at h
    obtain ⟨m₁, h₁, h₂⟩ := h
    obtain ⟨hnot, hnodup⟩ := nodup_cons.1 hnodup
    obtain ⟨proc, proc', added, hproc, hrw, hbecame⟩ := hstep h₁
    have hlt : r.pred.index < m.preds.size := procAt?_lt hproc
    have hrest := ih h₂ hnodup fun r' hr' =>
      Nat.lt_of_lt_of_le (hold r' (mem_cons_of_mem _ hr')) hrw.grows.size_le
    -- What has been worked on is not worked on again, and neither is what has been
    -- added meanwhile.
    have hplace : m'.procAt? r = some proc' := by
      rw [hrest.others r hnot (Nat.lt_of_lt_of_le hlt hrw.grows.size_le), hrw.place]
    have hadded : ∀ {r' : ProcRef} {q : Procedure}, m.preds.size ≤ r'.pred.index →
        m₁.procAt? r' = some q → m'.procAt? r' = some q := by
      intro r' q hr' hq
      rw [hrest.others r' (fun hmem => ?_) (procAt?_lt hq), hq]
      exact Nat.not_lt.2 hr' (hold r' (mem_cons_of_mem _ hmem))
    have hsame : ∀ {r'}, r' ∈ rs → m₁.procAt? r' = m.procAt? r' := fun {r'} hr' =>
      hrw.others r' (fun heq => hnot (heq ▸ hr')) (hold r' (mem_cons_of_mem _ hr'))
    refine ⟨hrw.grows.trans hrest.grows, fun r' hr' hlt' => ?_, fun r' hr' => ?_,
      fun r' q hr' hq => ?_⟩
    · rw [hrest.others r' (fun hmem => hr' (mem_cons_of_mem _ hmem))
        (Nat.lt_of_lt_of_le hlt' hrw.grows.size_le),
        hrw.others r' (fun heq => hr' (heq ▸ mem_cons_self)) hlt']
    · rcases mem_cons.1 hr' with rfl | hmem
      · refine ⟨m, proc, proc', added, .refl m, hproc, hproc, hbecame, hplace, ?_⟩
        rintro p j q rfl hq
        refine hadded (Nat.le_refl _) ?_
        rw [hrw.new _ (Nat.le_refl _), if_pos rfl]
        exact hq
      · obtain ⟨env, old, new, more, hgrows, hold', hrest'⟩ := hrest.changed r' hmem
        exact ⟨env, old, new, more, hrw.grows.trans hgrows, hsame hmem ▸ hold', hrest'⟩
    · by_cases hlt' : r'.pred.index < m₁.preds.size
      · have hq₁ : m₁.procAt? r' = some q := by
          rw [← hq, hrest.others r' (fun hmem => ?_) hlt']
          exact Nat.not_lt.2 hr' (hold r' (mem_cons_of_mem _ hmem))
        rw [hrw.new r' hr'] at hq₁
        split at hq₁
        · next hnext =>
          obtain ⟨p, rfl, hp⟩ := bind_eq_some_iff.1 hq₁
          exact ⟨r, mem_cons_self, m, proc, proc', p, .refl m, hproc, hproc, hbecame, hplace,
            hnext, hp⟩
        · cases hq₁
      · obtain ⟨r₁, hr₁, env, old, new, p, hgrows, hold', hrest'⟩ :=
          hrest.new r' q (Nat.not_lt.1 hlt') hq
        exact ⟨r₁, mem_cons_of_mem _ hr₁, env, old, new, p, hrw.grows.trans hgrows,
          hsame hr₁ ▸ hold', hrest'⟩

theorem findPred?_foldlM (hi : i.index < m.preds.size) (hnot : ∀ r ∈ rs, i ≠ r.pred) :
    m'.findPred? i = m.findPred? i := by
  induction rs generalizing m with
  | nil =>
    cases h
    rfl
  | cons r rs ih =>
    rw [foldlM_cons, except_bind_eq_ok] at h
    obtain ⟨m₁, h₁, h₂⟩ := h
    obtain ⟨hr, hnot⟩ := forall_mem_cons.1 hnot
    obtain ⟨proc, proc', added, -, hrw, -⟩ := hstep h₁
    rw [ih h₂ (Nat.lt_of_lt_of_le hi hrw.grows.size_le) hnot, hrw.otherPreds i hr hi]

theorem foldlM_added (hnodup : rs.Nodup) (hold : ∀ r ∈ rs, r.pred.index < m.preds.size) :
    ∃ (env : ProcRef → Module) (added : ProcRef → Option Predicate),
      (∀ r ∈ rs, m.Grows (env r) ∧ ∃ proc proc', m.procAt? r = some proc ∧
        became (env r) r proc proc' (added r) ∧ m'.procAt? r = some proc' ∧
        ∀ p, added r = some p → m'.findPred? (env r).nextPred = some p) ∧
      ∀ r ∈ rs, ∀ r' ∈ rs, (added r).isSome → (added r').isSome →
        (env r).nextPred = (env r').nextPred → r = r' := by
  induction rs generalizing m with
  | nil => exact ⟨fun _ => m, fun _ => none, by simp, by simp⟩
  | cons r rs ih =>
    rw [foldlM_cons, except_bind_eq_ok] at h
    obtain ⟨m₁, h₁, h₂⟩ := h
    obtain ⟨hnot, hnodup'⟩ := nodup_cons.1 hnodup
    obtain ⟨proc, proc', first, hproc, hrw, hbecame⟩ := hstep h₁
    have hold' : ∀ r' ∈ rs, r'.pred.index < m.preds.size := fun r' hr' =>
      hold r' (mem_cons_of_mem _ hr')
    have hold₁ : ∀ r' ∈ rs, r'.pred.index < m₁.preds.size := fun r' hr' =>
      Nat.lt_of_lt_of_le (hold' r' hr') hrw.grows.size_le
    obtain ⟨env, added, hrest, hinj⟩ := ih h₂ hnodup' hold₁
    -- What the first step adds takes the place of number `m.preds.size`, so that what
    -- is added later comes behind it.
    have hadded : ∀ p, first = some p → m₁.findPred? m.nextPred = some p := by
      intro p hp
      rw [hrw.newPreds m.nextPred (Nat.le_refl _), if_pos rfl, hp]
    have hlater : first.isSome → ∀ r' ∈ rs, m.nextPred ≠ (env r').nextPred := by
      intro hsome r' hr' heq
      obtain ⟨p, hp⟩ := isSome_iff_exists.1 hsome
      have hlt : m.preds.size < m₁.preds.size := (Array.getElem?_eq_some_iff.1 (hadded p hp)).1
      have hle := (hrest r' hr').1.size_le
      have hindex : m.preds.size = (env r').preds.size := congrArg PredId.index heq
      omega
    have hne : ∀ {r'}, r' ∈ rs → r' ≠ r := fun {r'} hr' heq => hnot (heq ▸ hr')
    refine ⟨Function.update env r m, Function.update added r first, fun r' hr' => ?_,
      fun a ha b hb hsa hsb heq => ?_⟩
    · rcases mem_cons.1 hr' with rfl | hmem
      · rw [update_self, update_self]
        refine ⟨.refl m, proc, proc', hproc, hbecame, ?_, fun p hp => ?_⟩
        · rw [(foldlM_rewrites hstep h₂ hnodup' hold₁).others _ hnot
            (Nat.lt_of_lt_of_le (procAt?_lt hproc) hrw.grows.size_le), hrw.place]
        · have hlt := (Array.getElem?_eq_some_iff.1 (hadded p hp)).1
          rw [findPred?_foldlM hstep h₂ hlt, hadded p hp]
          exact fun r' hr' heq => Nat.lt_irrefl _ (heq ▸ hold' r' hr')
      · rw [update_of_ne (hne hmem), update_of_ne (hne hmem)]
        obtain ⟨hgrows, old, new, hold₂, hrest'⟩ := hrest r' hmem
        refine ⟨hrw.grows.trans hgrows, old, new, ?_, hrest'⟩
        rw [← hold₂, hrw.others r' (hne hmem) (hold' r' hmem)]
    · rcases mem_cons.1 ha with rfl | ha' <;> rcases mem_cons.1 hb with rfl | hb'
      · rfl
      · rw [update_self] at hsa heq
        rw [update_of_ne (hne hb')] at heq
        exact absurd heq (hlater hsa b hb')
      · rw [update_self] at hsb heq
        rw [update_of_ne (hne ha')] at heq
        exact absurd heq.symm (hlater hsb a ha')
      · rw [update_of_ne (hne ha')] at hsa heq
        rw [update_of_ne (hne hb')] at hsb heq
        exact hinj a ha' b hb' hsa hsb heq

end

/-! ### Tabling a procedure -/

/-- What is read while a procedure of the module is tabled. -/
def tableEnv (m : Module) (r : ProcRef) (pred : Predicate) (proc : Procedure) : TableEnv :=
  ⟨m, r, pred, proc.body.info.context⟩

/-- The procedure in its tabled form. -/
def inTable (e : TableEnv) (proc : Procedure) (tabled : Tabled) (s : WitnessState) : Procedure :=
  { proc with
    vars := s.vars
    witnesses := s.witnesses
    body := tabledBody e proc.body.info.purity proc.head tabled.body
    table := some tabled.layout
    tableTip := tabled.tip }

/-- The tabled form of a procedure, and its generator, as they are made in some
    state of the module. -/
structure TabledAs (env : Module) (r : ProcRef) (proc : Procedure) (pred : Predicate)
    (tabled : Tabled) (s : WitnessState) (added : Option Predicate) : Prop where
  found : env.findProc? r = some (pred, proc)
  returns : Returns ((env.tableEnv r pred proc).tabled proc) (.ofProc pred proc) (some tabled) s
  generator : tabled.generator.mapM
    (env.generatorPred (env.tableEnv r pred proc) proc.body.info.purity s) = .ok added

/-- The procedure of a generator. -/
def generatorProc (e : TableEnv) (purity : Purity) (s : WitnessState) (g : Generator) : Procedure :=
  let body := tabledBody e purity g.outputs g.body
  { context := body.info.context
    vars := s.vars
    head := g.outputs
    modes := g.outputs.map fun _ => .output
    body
    determinism := .nondet
    witnesses := s.witnesses }

theorem derivedPred_procs {base : String} (h : m.derivedPred pred base proc = .ok p) :
    p.procs = #[proc] := by
  obtain ⟨_, -, heq⟩ := except_bind_eq_ok.1 h
  cases heq
  rfl

theorem eq_of_getElem?_single {i : Nat} (h : #[proc][i]? = some proc') : i = 0 ∧ proc' = proc := by
  obtain ⟨hlt, rfl⟩ := Array.getElem?_eq_some_iff.1 h
  obtain rfl : i = 0 := Nat.lt_one_iff.1 hlt
  exact ⟨rfl, rfl⟩

theorem TabledAs.added_cases {tabled : Tabled} {added : Option Predicate}
    (h : TabledAs env r proc pred tabled s added) :
    tabled.generator = none ∧ added = none ∨ ∃ g gen, tabled.generator = some g ∧
      added = some gen ∧ gen.procs =
        #[generatorProc (env.tableEnv r pred proc) proc.body.info.purity s g] := by
  have hgen := h.generator
  cases hg : tabled.generator with
  | none =>
    rw [hg] at hgen
    cases hgen
    exact .inl ⟨rfl, rfl⟩
  | some g =>
    rw [hg, mapM_some] at hgen
    obtain ⟨gen, hok, heq⟩ := except_bind_eq_ok.1 hgen
    cases heq
    obtain ⟨derived, hderived, heq⟩ := except_bind_eq_ok.1 hok
    cases heq
    have hprocs := derivedPred_procs hderived
    exact .inr ⟨g, _, rfl, rfl, hprocs⟩

/-- What becomes of a procedure when it is tabled. -/
def Tables (env : Module) (r : ProcRef) (proc proc' : Procedure) (added : Option Predicate) :
    Prop :=
  proc.method = .normal ∧ proc' = proc ∧ added = none ∨
    ∃ pred tabled s, TabledAs env r proc pred tabled s added ∧
      proc' = inTable (env.tableEnv r pred proc) proc tabled s

theorem tableProc_cases (h : m.tableProc r = .ok m') : ∃ proc proc' added,
    m.procAt? r = some proc ∧ Rewrites m r proc' added m' ∧ Tables m r proc proc' added := by
  simp only [tableProc, except_bind_eq_ok] at h
  obtain ⟨⟨pred, proc⟩, hproc, ⟨found, s⟩, hrun, h⟩ := h
  have hfound := proc_eq_ok.1 hproc
  have hold := procAt?_of_findProc? hfound
  cases found with
  | none =>
    cases h
    refine ⟨proc, proc, none, hold, .of_preds_eq hold rfl, .inl ⟨?_, rfl, rfl⟩⟩
    exact Decidable.of_not_not fun hmethod => tabled_ne_none hmethod hrun
  | some tabled =>
    refine ⟨proc, inTable (m.tableEnv r pred proc) proc tabled s, ?_⟩
    cases hgen : tabled.generator with
    | none =>
      simp only [hgen] at h
      cases h
      refine ⟨none, hold, .setProc hfound s.scope, .inr ⟨pred, tabled, s, ⟨hfound, hrun, ?_⟩, rfl⟩⟩
      rw [hgen]
      rfl
    | some g =>
      simp only [hgen, except_bind_eq_ok] at h
      obtain ⟨gen, hok, heq⟩ := h
      cases heq
      refine ⟨some gen, hold, .addPred (.setProc hfound s.scope) (by simp [setPred]) gen,
        .inr ⟨pred, tabled, s, ⟨hfound, hrun, ?_⟩, rfl⟩⟩
      rw [hgen, mapM_some, tableEnv, hok]
      rfl

/-- The tabled form of a procedure is in its place, and its generator, if it
    has one, is the predicate that is declared next. -/
theorem tableProc_inTable (h : m.tableProc r = .ok m') (hproc : m.procAt? r = some proc)
    (hmethod : proc.method ≠ .normal) : ∃ pred tabled s, m.findProc? r = some (pred, proc) ∧
      Returns ((m.tableEnv r pred proc).tabled proc) (.ofProc pred proc) (some tabled) s ∧
      m'.procAt? r = some (inTable (m.tableEnv r pred proc) proc tabled s) ∧
      ∀ g, tabled.generator = some g → m'.procAt? ⟨m.nextPred, ⟨0⟩⟩ =
        some (generatorProc (m.tableEnv r pred proc) proc.body.info.purity s g) := by
  obtain ⟨old, proc', added, hold, hrw, htables⟩ := tableProc_cases h
  obtain rfl : proc = old := Option.some.inj (hproc.symm.trans hold)
  rcases htables with ⟨hnormal, -⟩ | ⟨pred, tabled, s, htabled, rfl⟩
  · exact absurd hnormal hmethod
  refine ⟨pred, tabled, s, htabled.found, htabled.returns, hrw.place, fun g hg => ?_⟩
  rcases htabled.added_cases with ⟨hnone, -⟩ | ⟨g', gen, hsome, rfl, hprocs⟩
  · rw [hg] at hnone
    cases hnone
  · obtain rfl : g = g' := Option.some.inj (hg.symm.trans hsome)
    rw [hrw.new _ (Nat.le_refl _), if_pos rfl, bind_some, hprocs]
    rfl

/-- The code for a table is run in its place. -/
theorem tableProc_eq_ok {code : Synth Tabled} (hproc : m.proc r = .ok (pred, proc))
    (h : m.tableProc r = .ok m') (hcode : (⟨m, r, pred, proc.body.info.context⟩ : TableEnv).tabled
      proc = do return some (← code)) :
    ∃ tabled s, Returns code (.ofProc pred proc) tabled s ∧
      (∃ proc', m'.procAt? r = some proc' ∧
        ∀ {T : Type} (M : Machine T), proc'.body.run M = tabled.body.run M) ∧
      ∀ g, tabled.generator = some g → ∃ proc', m'.procAt? ⟨m.nextPred, ⟨0⟩⟩ = some proc' ∧
        ∀ {T : Type} (M : Machine T), proc'.body.run M = g.body.run M := by
  have hfound := proc_eq_ok.1 hproc
  have hmethod : proc.method ≠ .normal := by
    intro hnormal
    rw [TableEnv.tabled, hnormal] at hcode
    have hnone : Returns (do return some (← code)) (.ofProc pred proc) none (.ofProc pred proc) :=
      hcode ▸ returns_pure.2 ⟨rfl, rfl⟩
    simp at hnone
  obtain ⟨pred', tabled, s, hfound', hreturns, hplace, hgen⟩ :=
    tableProc_inTable h (procAt?_of_findProc? hfound) hmethod
  cases Option.some.inj (hfound.symm.trans hfound')
  simp only [tableEnv, hcode, returns_bind, returns_pure, Option.some.injEq] at hreturns
  obtain ⟨_, _, hreturns, rfl, rfl⟩ := hreturns
  exact ⟨tabled, s, hreturns, ⟨_, hplace, fun M => run_tabledBody M ..⟩,
    fun g hg => ⟨_, hgen g hg, fun M => run_tabledBody M ..⟩⟩

/-! ### Choosing actions -/

/-- The actions of a procedure are to be tabled. -/
structure Chosen (m : Module) (r : ProcRef) (pred : Predicate) (proc : Procedure) (info : GoalInfo)
    (code : ForeignCode) (unit : IoUnit) : Prop where
  found : m.findProc? r = some (pred, proc)
  status : pred.status ≠ .imported
  origin : pred.origin = .user
  method : proc.method = .normal
  states : proc.hasIoStates = .ok true
  body : proc.body = .foreign info code
  asked : code.ioTabling = some .tabled ∧ unit = .alone ∨
    code.ioTabling = some .unitize ∧ unit = .unitize

/-- The procedure that a body is moved to. -/
def movedProc (m : Module) (r : ProcRef) (proc : Procedure) (info : GoalInfo) (code : ForeignCode) :
    Procedure :=
  { proc with body := .foreign info { code with callee := ⟨m.nextPred, r.proc⟩ } }

/-- The call of the procedure that a body is moved to. -/
def outlinedCall (m : Module) (r : ProcRef) (proc : Procedure) (info : GoalInfo)
    (outlined : Predicate) : Goal :=
  .callProc ⟨m.nextPred, r.proc⟩ outlined.symName proc.head (proc.headOf .output)
    ⟨info.determinism, info.purity⟩ info.context

/-- What becomes of a procedure when actions are chosen. -/
def Chooses (env : Module) (r : ProcRef) (proc proc' : Procedure) (added : Option Predicate) :
    Prop :=
  (∀ pred info code unit, ¬ Chosen env r pred proc info code unit) ∧ proc' = proc ∧ added = none ∨
    ∃ pred info code unit, Chosen env r pred proc info code unit ∧
      (pred.hasMarker .noInline = false ∧ added = none ∧
        proc' = { proc with method := .tableIo (env.options.ioPurpose pred.status) unit } ∨
      pred.hasMarker .noInline = true ∧ ∃ outlined,
        env.derivedPred pred ("OutlinedForIOTablingFrom_" ++ pred.name)
          (movedProc env r proc info code) = .ok outlined ∧ added = some outlined ∧
        proc' = { proc with
          body := outlinedCall env r proc info outlined
          method := .tableIo (env.options.ioPurpose pred.status) unit })

theorem tableActions_cases {info : GoalInfo} {code : ForeignCode} {unit : IoUnit}
    (hc : Chosen m r pred proc info code unit)
    (h : m.tableActions r pred proc code unit = .ok m') : ∃ proc' added,
    Rewrites m r proc' added m' ∧ Chooses m r proc proc' added := by
  have hold := procAt?_of_findProc? hc.found
  simp only [tableActions] at h
  split at h
  · next hmarker =>
    simp only [outline, hc.body, except_bind_eq_ok] at h
    obtain ⟨m₁, ⟨outlined, hok, heq⟩, heq'⟩ := h
    cases heq
    cases heq'
    -- The predicate is added first, and the procedure is changed twice.
    have hsame : Rewrites m r proc none m := .of_preds_eq hold rfl
    have hadd := hsame.addPred rfl outlined
    obtain ⟨p₁, hp₁⟩ := exists_findProc? hadd.place
    have hbody := hadd.trans
      (.modifyProc hp₁ ({ · with body := outlinedCall m r proc info outlined })) (procAt?_lt hold)
    obtain ⟨p₂, hp₂⟩ := exists_findProc? hbody.place
    refine ⟨_, _, hbody.trans (.modifyProc hp₂ _) (procAt?_lt hold),
      .inr ⟨pred, info, code, unit, hc, .inr ⟨hmarker, outlined, ?_, rfl, rfl⟩⟩⟩
    rw [← hok]
    rfl
  · next hmarker =>
    simp only [except_bind_eq_ok] at h
    obtain ⟨_, heq, heq'⟩ := h
    cases heq
    cases heq'
    exact ⟨_, none, .modifyProc hc.found _, .inr ⟨pred, info, code, unit, hc,
      .inl ⟨by simpa using hmarker, rfl, rfl⟩⟩⟩

theorem chooseIoProc_cases (h : m.chooseIoProc r = .ok m') : ∃ proc proc' added,
    m.procAt? r = some proc ∧ Rewrites m r proc' added m' ∧ Chooses m r proc proc' added := by
  simp only [chooseIoProc, except_bind_eq_ok] at h
  obtain ⟨⟨pred, proc⟩, hproc, h⟩ := h
  have hfound := proc_eq_ok.1 hproc
  have hold := procAt?_of_findProc? hfound
  have hkeep : m' = { m with diagnostics := m'.diagnostics } →
      (∀ info code unit, ¬ Chosen m r pred proc info code unit) → ∃ proc proc' added,
        m.procAt? r = some proc ∧ Rewrites m r proc' added m' ∧ Chooses m r proc proc' added := by
    intro hm hnot
    refine ⟨proc, proc, none, hold, .of_preds_eq hold hm,
      .inl ⟨fun p info code unit hc => ?_, rfl, rfl⟩⟩
    obtain rfl : pred = p := (Prod.mk.inj (Option.some.inj (hfound.symm.trans hc.found))).1
    exact hnot info code unit hc
  simp only at h
  split at h
  · next hskip =>
    cases h
    refine hkeep rfl fun info code unit hc => ?_
    simp only [Bool.or_eq_true, decide_eq_true_eq, EvalMethod.isTabled, bne_iff_ne] at hskip
    rcases hskip with (hskip | hskip) | hskip
    · exact hc.status hskip
    · exact hskip hc.origin
    · exact hskip hc.method
  · next hskip =>
    simp only [Bool.or_eq_true, decide_eq_true_eq, EvalMethod.isTabled, bne_iff_ne, not_or,
      not_not] at hskip
    obtain ⟨⟨hstatus, horigin⟩, hmethod⟩ := hskip
    obtain ⟨states, hstates, h⟩ := except_bind_eq_ok.1 h
    cases states with
    | false =>
      cases h
      refine hkeep rfl fun info code unit hc => ?_
      have := hstates.symm.trans hc.states
      cases this
    | true =>
      cases hbody : proc.body with
      | foreign info code =>
        have hchosen : ∀ unit, (code.ioTabling = some .tabled ∧ unit = .alone ∨
            code.ioTabling = some .unitize ∧ unit = .unitize) →
            Chosen m r pred proc info code unit := fun unit hasked =>
          ⟨hfound, hstatus, horigin, hmethod, hstates, hbody, hasked⟩
        have hnot : code.ioTabling ≠ some .tabled → code.ioTabling ≠ some .unitize →
            ∀ info code unit, ¬ Chosen m r pred proc info code unit := by
          intro hne hne' info' code' unit hc
          have := hbody.symm.trans hc.body
          cases this
          exact hc.asked.elim (fun h => hne h.1) fun h => hne' h.1
        simp only [hbody, Bool.not_true, Bool.false_eq_true, if_false] at h
        split at h
        · next hasked =>
          obtain ⟨proc', added, hrest⟩ := tableActions_cases (hchosen _ (.inl ⟨hasked, rfl⟩)) h
          exact ⟨proc, proc', added, hold, hrest⟩
        · next hasked =>
          obtain ⟨proc', added, hrest⟩ := tableActions_cases (hchosen _ (.inr ⟨hasked, rfl⟩)) h
          exact ⟨proc, proc', added, hold, hrest⟩
        · next hasked =>
          cases h
          exact hkeep rfl (hnot (by simp [hasked]) (by simp [hasked]))
        all_goals
          next hasked =>
          cases h
          refine hkeep ?_ (hnot (by simp [hasked]) (by simp [hasked]))
          split <;> rfl
      | _ =>
        simp only [hbody] at h
        cases h
        refine hkeep rfl fun info code unit hc => ?_
        have := hbody.symm.trans hc.body
        cases this

/-! ### The parts of the pass -/

/-- What becomes of a procedure that cannot be tabled. -/
def Refuses (_ : Module) (_ : ProcRef) (proc proc' : Procedure) (added : Option Predicate) : Prop :=
  proc' = { proc with method := .normal } ∧ added = none

theorem refuseTable_cases {refusal : TablingRefusal} (h : m.refuseTable refusal r = .ok m') :
    ∃ proc proc' added, m.procAt? r = some proc ∧ Rewrites m r proc' added m' ∧
      Refuses m r proc proc' added := by
  simp only [refuseTable, except_bind_eq_ok] at h
  obtain ⟨⟨pred, proc⟩, hproc, heq⟩ := h
  cases heq
  have hold := procAt?_of_findProc? (proc_eq_ok.1 hproc)
  have hset : ∀ d, Rewrites m r { proc with method := .normal } none
      ((m.report d).modifyProc r ({ · with method := .normal })) := by
    intro d
    have hreport : Rewrites m r proc none (m.report d) := .of_preds_eq hold rfl
    obtain ⟨p, hp⟩ := exists_findProc? hreport.place
    exact hreport.trans (.modifyProc hp ({ · with method := .normal })) (procAt?_lt hold)
  exact ⟨proc, _, none, hold, hset _, rfl, rfl⟩

/-- The module in which tabling starts: actions that are to be traced have been
    chosen. -/
def readied (m : Module) : Except Fault Module :=
  if m.options.traceTableIo then m.chooseIo else pure m

theorem readied_cases (h : m.readied = .ok m') :
    m.options.traceTableIo = true ∧ Reworks Chooses m m.allProcs m' ∨
      m.options.traceTableIo = false ∧ m' = m := by
  unfold readied at h
  split at h
  · next htrace =>
    refine .inl ⟨htrace, foldlM_rewrites chooseIoProc_cases h (nodup_allProcs m) fun r hr => ?_⟩
    obtain ⟨proc, hproc⟩ := isSome_iff_exists.1 (mem_allProcs.1 hr)
    exact procAt?_lt hproc
  · next htrace =>
    cases h
    exact .inr ⟨by simpa using htrace, rfl⟩

theorem Grows.of_readied (h : m.readied = .ok m₀) : m.Grows m₀ := by
  rcases readied_cases h with ⟨-, hre⟩ | ⟨-, rfl⟩
  · exact hre.grows
  · exact .refl _

theorem procAt?_readied (h : m.readied = .ok m₀) (hproc : m.procAt? r = some proc)
    (hmethod : proc.method ≠ .normal) : m₀.procAt? r = some proc := by
  rcases readied_cases h with ⟨-, hre⟩ | ⟨-, rfl⟩
  · obtain ⟨env, proc₁, proc', added, -, hold, -, hchooses, hplace, -⟩ :=
      hre.changed r (mem_allProcs.2 (by rw [hproc]; rfl))
    obtain rfl : proc = proc₁ := Option.some.inj (hproc.symm.trans hold)
    rcases hchooses with ⟨-, rfl, -⟩ | ⟨_, _, _, _, hc, -⟩
    · exact hplace
    · exact absurd hc.method hmethod
  · exact hproc

theorem mem_tabledProcs :
    r ∈ m.tabledProcs ↔ ∃ proc, m.procAt? r = some proc ∧ proc.method ≠ .normal := by
  rw [tabledProcs, mem_filter, mem_allProcs, procAt?]
  cases m.findProc? r with
  | none => simp
  | some found => simp [EvalMethod.isTabled]

theorem lt_of_mem_tabledProcs (h : r ∈ m.tabledProcs) : r.pred.index < m.preds.size := by
  obtain ⟨proc, hproc, -⟩ := mem_tabledProcs.1 h
  exact procAt?_lt hproc

theorem nodup_tabledProcs (m : Module) : m.tabledProcs.Nodup := (nodup_allProcs m).filter _

theorem table_eq (hsupported : m.options.tablingRefused? = none) :
    m.table = m.readied >>= fun m₀ => m₀.tabledProcs.foldlM tableProc m₀ := by
  unfold table readied
  simp only [hsupported]
  split <;> rfl

theorem foldlM_of_table (h : m.table = .ok m') (hsupported : m.options.tablingRefused? = none) :
    ∃ m₀, m.readied = .ok m₀ ∧ m₀.tabledProcs.foldlM tableProc m₀ = .ok m' := by
  rw [table_eq hsupported] at h
  exact except_bind_eq_ok.1 h

/-- Either nothing is tabled, or actions are chosen and procedures are
    tabled. -/
theorem table_cases (h : m.table = .ok m') :
    (m.options.tablingRefused?.isSome ∧ Reworks Refuses m m.tabledProcs m') ∨
      m.options.tablingRefused? = none ∧ ∃ m₀, m.readied = .ok m₀ ∧
        Reworks Tables m₀ m₀.tabledProcs m' := by
  cases hrefused : m.options.tablingRefused? with
  | some refusal =>
    unfold table at h
    simp only [hrefused] at h
    exact .inl ⟨rfl, foldlM_rewrites refuseTable_cases h (nodup_tabledProcs m)
      fun r => lt_of_mem_tabledProcs⟩
  | none =>
    obtain ⟨m₀, h₀, h⟩ := foldlM_of_table h hrefused
    exact .inr ⟨rfl, m₀, h₀, foldlM_rewrites tableProc_cases h (nodup_tabledProcs m₀)
      fun r => lt_of_mem_tabledProcs⟩

theorem reworks_of_readied (h : m.table = .ok m') (hsupported : m.options.tablingRefused? = none)
    (h₀ : m.readied = .ok m₀) : Reworks Tables m₀ m₀.tabledProcs m' := by
  rcases table_cases h with ⟨hrefused, -⟩ | ⟨-, m₁, h₁, hre⟩
  · rw [hsupported] at hrefused
    cases hrefused
  · obtain rfl : m₀ = m₁ := Except.ok.inj (h₀.symm.trans h₁)
    exact hre

/-- A procedure that is to be tabled is put in its tabled form, and its
    generator is added. -/
theorem Reworks.tabled {m₀ : Module} (h : Reworks Tables m₀ m₀.tabledProcs m')
    (hproc : m₀.procAt? r = some proc) (hmethod : proc.method ≠ .normal) :
    ∃ env pred tabled s added, m₀.Grows env ∧ TabledAs env r proc pred tabled s added ∧
      m'.procAt? r = some (inTable (env.tableEnv r pred proc) proc tabled s) ∧
      ∀ p j q, added = some p → p.procs[j]? = some q →
        m'.procAt? ⟨env.nextPred, ⟨j⟩⟩ = some q := by
  obtain ⟨env, proc₁, proc', added, hgrows, hold, -, htables, hplace, hnew⟩ :=
    h.changed r (mem_tabledProcs.2 ⟨proc, hproc, hmethod⟩)
  obtain rfl : proc = proc₁ := Option.some.inj (hproc.symm.trans hold)
  rcases htables with ⟨hnormal, -⟩ | ⟨pred, tabled, s, htabled, rfl⟩
  · exact absurd hnormal hmethod
  · exact ⟨env, pred, tabled, s, added, hgrows, htabled, hplace, hnew⟩

theorem table_tabled (h : m.table = .ok m') (hsupported : m.options.tablingRefused? = none)
    (hproc : m.procAt? r = some proc) (hmethod : proc.method ≠ .normal) :
    ∃ env pred tabled s added, m.Grows env ∧ TabledAs env r proc pred tabled s added ∧
      m'.procAt? r = some (inTable (env.tableEnv r pred proc) proc tabled s) := by
  rcases table_cases h with ⟨hrefused, -⟩ | ⟨-, m₀, h₀, hre⟩
  · rw [hsupported] at hrefused
    cases hrefused
  · obtain ⟨env, pred, tabled, s, added, hgrows, htabled, hplace, -⟩ :=
      hre.tabled (procAt?_readied h₀ hproc hmethod) hmethod
    exact ⟨env, pred, tabled, s, added, (Grows.of_readied h₀).trans hgrows, htabled, hplace⟩

/-! ### Computed results -/

theorem exists_of_toOption {x : Except Fault Module} {q : Module → Bool}
    (h : x.toOption.any q = true) : ∃ m, x = .ok m ∧ q m = true := by
  cases x with
  | error e => cases h
  | ok m => exact ⟨m, rfl, h⟩

theorem exists_of_table {q : Procedure → Bool}
    (h : m.table.toOption.any (fun m' => (m'.procAt? r).any q) = true) :
    ∃ m' proc', m.table = .ok m' ∧ m'.procAt? r = some proc' ∧ q proc' = true := by
  obtain ⟨m', hm', hq⟩ := exists_of_toOption h
  obtain ⟨hsome, hq⟩ := (any_eq_true_iff_get _ _).1 hq
  exact ⟨m', _, hm', (some_get hsome).symm, hq⟩

theorem procAt?_declare (m : Module) (d : PredDecl) (body : Goal) :
    (m.declare d body).procAt? ⟨m.nextPred, ⟨0⟩⟩ = (m.declared d body).procs[0]? := by
  have hnext : m.nextPred.index = m.preds.size := rfl
  rw [procAt?_eq, declare, findPred?_addPred, if_pos hnext]
  rfl

end Module

end Clausal
