import Clausal.Proofs.InlineCode
import Clausal.Proofs.Strictness

/-!
# Tabled modules with inline code

Tabling a module by plain calls and by inline code comes to the same, but for
the calls themselves and for what is known of goals in which a primitive is run
that never succeeds (`Module.inline_code_agrees`). A plain call of such a
primitive is known not to succeed, and inline code is not, so that a branch
that gives the program up hides which variables the other branches bind
(`TabledExample.copy_binds_less_inline`).
-/

namespace Clausal

open List Array

/-! ### Results side by side -/

/-- Where `y` has a result so has `x`, and the other way round under the
    condition `C`, and the results are related by `R`. -/
structure Agrees {α β : Type} (C : Prop) (R : α → β → Prop) (x : Except Fault α)
    (y : Except Fault β) : Prop where
  back : ∀ {b}, y = .ok b → ∃ a, x = .ok a ∧ R a b
  forth : C → ∀ {a}, x = .ok a → ∃ b, y = .ok b ∧ R a b

namespace Agrees

variable {α β α' β' : Type} {C : Prop} {R : α → β → Prop} {S : α' → β' → Prop}
  {x : Except Fault α} {y : Except Fault β}

theorem ok {a : α} {b : β} (h : R a b) : Agrees C R (.ok a) (.ok b) := by
  refine ⟨fun hb => ?_, fun _ _ ha => ?_⟩
  · cases hb
    exact ⟨a, rfl, h⟩
  · cases ha
    exact ⟨b, rfl, h⟩

theorem error {f f' : Fault} : Agrees C R (.error f) (.error f') :=
  ⟨fun h => absurd h (by simp), fun _ _ h => absurd h (by simp)⟩

/-- A result that is used in two ways. -/
theorem map {z : Except Fault α'} {f : α' → α} {g : α' → β} (h : ∀ c, R (f c) (g c)) :
    Agrees C R (f <$> z) (g <$> z) := by
  cases z with
  | error _ => exact .error
  | ok c => exact .ok (h c)

theorem self {x : Except Fault α} {R : α → α → Prop} (h : ∀ {a}, x = .ok a → R a a) :
    Agrees C R x x :=
  ⟨fun hx => ⟨_, hx, h hx⟩, fun _ _ hx => ⟨_, hx, h hx⟩⟩

protected theorem bind {f : α → Except Fault α'} {g : β → Except Fault β'} (h : Agrees C R x y)
    (hf : ∀ a b, x = .ok a → y = .ok b → R a b → Agrees C S (f a) (g b)) :
    Agrees C S (x >>= f) (y >>= g) where
  back hy := by
    obtain ⟨b, hb, hg⟩ := Module.except_bind_eq_ok.1 hy
    obtain ⟨a, ha, hR⟩ := h.back hb
    obtain ⟨c, hc, hS⟩ := (hf a b ha hb hR).back hg
    exact ⟨c, Module.except_bind_eq_ok.2 ⟨a, ha, hc⟩, hS⟩
  forth hC c hx := by
    obtain ⟨a, ha, hc⟩ := Module.except_bind_eq_ok.1 hx
    obtain ⟨b, hb, hR⟩ := h.forth hC ha
    obtain ⟨d, hd, hS⟩ := (hf a b ha hb hR).forth hC hc
    exact ⟨d, Module.except_bind_eq_ok.2 ⟨b, hb, hd⟩, hS⟩

theorem of_alike {R : α → α → Prop} {x y : Synth α} {s : WitnessState}
    (h : Synth.AlikeBy C [] R x y) (hs : C → s.Closed) :
    Agrees C (fun a b => b.2 = a.2 ∧ R a.1 b.1) (x.run s) (y.run s) where
  back {b} hy := by
    obtain ⟨a, hx, hR, -⟩ := h.back (fun hC => ⟨hs hC, by simp⟩) hy
    exact ⟨(a, b.2), hx, rfl, hR⟩
  forth hC a hx := by
    obtain ⟨b, hy, hR, -⟩ := h.forth hC (fun hC => ⟨hs hC, by simp⟩) hx
    exact ⟨(b, a.2), hy, rfl, hR⟩

end Agrees

/-! ### Modules with inline code -/

/-- The same procedure with inline code. -/
structure Procedure.Inlines (q q' : Procedure) : Prop where
  rest : q' = { q with body := q'.body }
  body : q.body.Inlines q'.body

/-- The same predicate with inline code. -/
structure Predicate.Inlines (p p' : Predicate) : Prop where
  rest : p' = { p with procs := p'.procs }
  procs : Forall₂ Procedure.Inlines p.procs.toList p'.procs.toList

namespace Module

/-- The module with primitives reached by inline code, or by plain calls where
    they are given no more than their arguments. -/
def setInline (inline : Bool) (m : Module) : Module :=
  { m with options := { m.options with tablingViaExtraArgs := inline } }

/-- The same module with inline code. -/
structure Inlines (m m' : Module) : Prop where
  calls : m.options.tablingViaExtraArgs = false
  rest : m' = { m.setInline true with preds := m'.preds }
  preds : Forall₂ Predicate.Inlines m.preds.toList m'.preds.toList

end Module

theorem Procedure.Inlines.refl (q : Procedure) : q.Inlines q := ⟨rfl, .same _⟩

theorem Predicate.Inlines.refl (p : Predicate) : p.Inlines p :=
  ⟨rfl, forall₂_same.2 fun q _ => .refl q⟩

theorem rel_bind {α β α' β' : Type} {R : α → β → Prop} {S : α' → β' → Prop} {a : Option α}
    {b : Option β} {f : α → Option α'} {g : β → Option β'} (h : Option.Rel R a b)
    (hf : ∀ x y, R x y → Option.Rel S (f x) (g y)) : Option.Rel S (a.bind f) (b.bind g) := by
  cases h with
  | none => exact .none
  | some h => exact hf _ _ h

theorem forall₂_set {α β : Type} {R : α → β → Prop} {as : List α} {bs : List β}
    (h : Forall₂ R as bs) (i : Nat) {a : α} {b : β} (hab : R a b) :
    Forall₂ R (as.set i a) (bs.set i b) := by
  induction h generalizing i with
  | nil => exact .nil
  | cons hhead htail ih =>
    cases i with
    | zero => exact .cons hab htail
    | succ i => exact .cons hhead (ih i)

namespace Module

variable {C : Prop} {m m' : Module} {r : ProcRef} {pred pred' : Predicate} {proc proc' : Procedure}

theorem inlines_setInline (m : Module) : (m.setInline false).Inlines (m.setInline true) :=
  ⟨rfl, rfl, forall₂_same.2 fun p _ => .refl p⟩

namespace Inlines

variable (h : m.Inlines m')

include h

theorem size_eq : m'.preds.size = m.preds.size := by
  simpa using h.preds.length_eq.symm

theorem findProc? (r : ProcRef) :
    Option.Rel (fun a b => a.1.Inlines b.1 ∧ a.2.Inlines b.2) (m.findProc? r) (m'.findProc? r) := by
  have hpred : Option.Rel Predicate.Inlines (m.findPred? r.pred) (m'.findPred? r.pred) := by
    simpa [findPred?] using forall₂_getElem? h.preds r.pred.index
  refine rel_bind hpred fun p p' hp => ?_
  have hproc : Option.Rel Procedure.Inlines p.procs[r.proc.index]? p'.procs[r.proc.index]? := by
    simpa using forall₂_getElem? hp.procs r.proc.index
  exact rel_bind hproc fun q q' hq => .some ⟨hp, hq⟩

theorem setProc (hpred : pred.Inlines pred') (hproc : proc.Inlines proc') (scope : TypeScope) :
    (m.setPred r.pred ({ pred with scope }.setProc r.proc proc)).Inlines
      (m'.setPred r.pred ({ pred' with scope }.setProc r.proc proc')) := by
  refine ⟨h.calls, ?_, ?_⟩
  · conv => lhs; rw [h.rest]
    rfl
  · simp only [setPred, toList_setIfInBounds]
    refine forall₂_set h.preds _ ⟨?_, ?_⟩
    · conv => lhs; rw [hpred.rest]
      rfl
    · simp only [Predicate.setProc, toList_setIfInBounds]
      exact forall₂_set hpred.procs _ hproc

theorem addPred (hpred : pred.Inlines pred') : (m.addPred pred).Inlines (m'.addPred pred') := by
  refine ⟨h.calls, ?_, ?_⟩
  · conv => lhs; rw [h.rest]
    rfl
  · simp only [Module.addPred, toList_push]
    exact rel_append h.preds (.cons hpred .nil)

theorem twin (hpred : pred.Inlines pred') (r : ProcRef) (proc : Procedure) :
    (m.tableEnv r pred proc).Twin (m'.tableEnv r pred' proc) where
  calls := h.calls
  inline := by
    show m'.options.tablingViaExtraArgs = true
    rw [h.rest]
    rfl
  category := category_congr (by rw [h.rest]; rfl)
  dummyConstant t := by
    show m'.dummyConstant t = m.dummyConstant t
    have htypes : m'.types = m.types := by
      rw [h.rest]
      rfl
    have hown : m'.ownDummyConstant = m.ownDummyConstant := by
      funext t
      cases t with
      | defined n args => rw [ownDummyConstant, ownDummyConstant, htypes]
      | _ => rfl
    rw [dummyConstant, dummyConstant, hown, denoted_congr htypes]
  states := by
    show m'.options.traceTableIoStates = m.options.traceTableIoStates
    rw [h.rest]
    rfl
  nextPred := by
    show m'.nextPred = m.nextPred
    rw [nextPred, nextPred, h.size_eq]
  proc := rfl
  pred := hpred.rest
  context := rfl

theorem freshPredName_eq (base : String) : m'.freshPredName base = m.freshPredName base := by
  have hname : m'.name = m.name := by
    rw [h.rest]
    rfl
  have hisName : m'.isPredName = m.isPredName := by
    funext name
    have hmap : m'.preds.toList.map (fun p => p.home == m.name && p.name == name) =
        m.preds.toList.map fun p => p.home == m.name && p.name == name :=
      map_eq_of_forall₂ (h.preds.imp fun p p' hp => by rw [hp.rest])
    rw [isPredName, isPredName, hname, ← any_toList, ← any_toList]
    simpa [Function.comp_def] using congrArg (List.any · id) hmap
  rw [freshPredName, freshPredName, hisName, h.size_eq]

theorem derivedPred (hpred : pred.Inlines pred') (base : String) (hproc : proc.Inlines proc') :
    Agrees C Predicate.Inlines (m.derivedPred pred base proc)
      (m'.derivedPred pred' base proc') := by
  have hname : m'.name = m.name := by
    rw [h.rest]
    rfl
  unfold Module.derivedPred
  rw [hname, h.freshPredName_eq, hpred.rest]
  have hvars : proc'.vars.types proc'.head = proc.vars.types proc.head := by rw [hproc.rest]
  have hlen : proc'.head.length = proc.head.length := by rw [hproc.rest]
  rw [hvars, hlen]
  refine (Agrees.self (R := fun ts ts' => ts' = ts) fun _ => rfl).bind fun ts ts' _ _ hts => .ok ?_
  subst hts
  exact ⟨rfl, .cons hproc .nil⟩

theorem generatorPred {e e' : TableEnv} (he : e.Twin e') (hpred : e.pred.Inlines e'.pred)
    (purity : Purity) (s : WitnessState) {g g' : Generator} (hg : g.Inlines g') :
    Agrees C Predicate.Inlines (m.generatorPred e purity s g)
      (m'.generatorPred e' purity s g') := by
  unfold Module.generatorPred
  rw [hg.name, hg.outputs]
  have hbody := hg.body.tabledBody he.context purity g.outputs
  refine (h.derivedPred hpred g.name ⟨?_, hbody⟩).bind fun p p' _ _ hp => .ok ⟨?_, hp.procs⟩
  · rw [hbody.info.context]
  · conv => lhs; rw [hp.rest]

end Inlines

theorem tableProc_agrees (h : m.Inlines m') (hsame : m'.procAt? r = m.procAt? r)
    (hclosed : C → ∀ proc, m.procAt? r = some proc →
      proc.witnesses.All fun _ v => v.index < proc.vars.size) :
    Agrees C Inlines (m.tableProc r) (m'.tableProc r) := by
  have hfind := h.findProc? r
  unfold procAt? at hsame hclosed
  unfold tableProc Module.proc
  generalize m.findProc? r = found at hfind hsame hclosed ⊢
  generalize m'.findProc? r = found' at hfind hsame ⊢
  cases hfind with
  | none => exact .error
  | @some a b hab =>
    obtain ⟨pred, proc⟩ := a
    obtain ⟨pred', _⟩ := b
    have hpred : pred.Inlines pred' := hab.1
    cases hsame
    have he := h.twin hpred r proc
    have hstate : WitnessState.ofProc pred' proc = .ofProc pred proc := by
      rw [hpred.rest]
      rfl
    have hrun := Agrees.of_alike (s := .ofProc pred proc) (TableEnv.tabled_alike he proc)
      fun hC => hclosed hC proc rfl
    refine Agrees.bind (.ok (R := fun a b => a = (pred, proc) ∧ b = (pred', proc)) ⟨rfl, rfl⟩) ?_
    rintro _ _ - - ⟨rfl, rfl⟩
    simp only [hstate]
    refine hrun.bind fun a b _ _ hab => ?_
    obtain ⟨tabled, _⟩ := a
    obtain ⟨tabled', s⟩ := b
    obtain ⟨rfl, htabled⟩ := hab
    cases htabled with
    | none => exact .ok h
    | @some tabled tabled' htabled =>
      have hproc : (inTable (m.tableEnv r pred proc) proc tabled s).Inlines
          (inTable (m'.tableEnv r pred' proc) proc tabled' s) := by
        refine ⟨?_, htabled.body.tabledBody he.context _ _⟩
        rw [inTable, inTable, htabled.layout, htabled.tip]
      have hchanged := h.setProc (r := r) hpred hproc s.scope
      have hgenerator := htabled.generator
      obtain ⟨body, layout, tip, generator⟩ := tabled
      obtain ⟨body', layout', tip', generator'⟩ := tabled'
      simp only at hgenerator
      cases hgenerator with
      | none => exact .ok hchanged
      | some hg =>
        exact (h.generatorPred he hpred proc.body.info.purity s hg).bind
          fun gen gen' _ _ hgen => .ok (hchanged.addPred hgen)

theorem foldlM_agrees {rs : List ProcRef} (h : m.Inlines m') (hnodup : rs.Nodup)
    (hold : ∀ r ∈ rs, r.pred.index < m.preds.size)
    (hsame : ∀ r ∈ rs, m'.procAt? r = m.procAt? r)
    (hclosed : C → ∀ r ∈ rs, ∀ proc, m.procAt? r = some proc →
      proc.witnesses.All fun _ v => v.index < proc.vars.size) :
    Agrees C Inlines (rs.foldlM tableProc m) (rs.foldlM tableProc m') := by
  induction rs generalizing m m' with
  | nil => exact .ok h
  | cons r rs ih =>
    obtain ⟨hnot, hnodup⟩ := nodup_cons.1 hnodup
    obtain ⟨hr, hsame⟩ := forall_mem_cons.1 hsame
    refine (tableProc_agrees h hr fun hC => hclosed hC r mem_cons_self).bind
      fun m₁ m₁' h₁ h₁' hm₁ => ?_
    obtain ⟨_, _, _, -, hrw, -⟩ := tableProc_cases h₁
    obtain ⟨_, _, _, -, hrw', -⟩ := tableProc_cases h₁'
    -- What is left to be tabled is not the procedure that was tabled just now.
    have hleft : ∀ r' ∈ rs, r' ≠ r ∧ r'.pred.index < m.preds.size := fun r' hr' =>
      ⟨fun heq => hnot (heq ▸ hr'), hold r' (mem_cons_of_mem _ hr')⟩
    have hkeeps : ∀ r' ∈ rs, m₁.procAt? r' = m.procAt? r' := fun r' hr' =>
      hrw.others r' (hleft r' hr').1 (hleft r' hr').2
    refine ih hm₁ hnodup (fun r' hr' => ?_) (fun r' hr' => ?_) fun hC r' hr' proc hproc => ?_
    · exact Nat.lt_of_lt_of_le (hleft r' hr').2 hrw.grows.size_le
    · rw [hkeeps r' hr', ← hsame r' hr']
      exact hrw'.others r' (hleft r' hr').1 (h.size_eq ▸ (hleft r' hr').2)
    · rw [hkeeps r' hr'] at hproc
      exact hclosed hC r' (mem_cons_of_mem _ hr') proc hproc

/-! ### Options -/

variable {b : Bool}

theorem foldlM_setInline {step : Module → ProcRef → Except Fault Module}
    (hstep : ∀ m r, step (m.setInline b) r = setInline b <$> step m r) (rs : List ProcRef)
    (m : Module) : rs.foldlM step (m.setInline b) = setInline b <$> rs.foldlM step m := by
  induction rs generalizing m with
  | nil => rfl
  | cons r rs ih =>
    rw [foldlM_cons, foldlM_cons, hstep]
    cases step m r with
    | error f => rfl
    | ok m₁ => exact ih m₁

theorem modifyProc_setInline (m : Module) (r : ProcRef) (f : Procedure → Procedure) :
    (m.setInline b).modifyProc r f = (m.modifyProc r f).setInline b := by
  unfold modifyProc
  have hfind : (m.setInline b).findProc? r = m.findProc? r := rfl
  rw [hfind]
  cases m.findProc? r <;> rfl

theorem refuseTable_setInline (m : Module) (refusal : TablingRefusal) (r : ProcRef) :
    (m.setInline b).refuseTable refusal r = setInline b <$> m.refuseTable refusal r := by
  have hproc : (m.setInline b).proc r = m.proc r := rfl
  unfold refuseTable
  rw [hproc]
  cases m.proc r with
  | error f => rfl
  | ok found => exact congrArg Except.ok (modifyProc_setInline (m.report _) r _)

theorem outline_setInline (m : Module) (r : ProcRef) (pred : Predicate) (proc : Procedure)
    (code : ForeignCode) : (m.setInline b).outline r pred proc code =
      setInline b <$> m.outline r pred proc code := by
  have hderived : ∀ base moved,
      (m.setInline b).derivedPred pred base moved = m.derivedPred pred base moved :=
    fun _ _ => rfl
  have hnext : (m.setInline b).nextPred = m.nextPred := rfl
  unfold outline
  simp only [hnext, hderived]
  cases m.derivedPred pred _ _ with
  | error f => rfl
  | ok outlined => exact congrArg Except.ok (modifyProc_setInline (m.addPred outlined) r _)

theorem tableActions_setInline (m : Module) (r : ProcRef) (pred : Predicate) (proc : Procedure)
    (code : ForeignCode) (unit : IoUnit) : (m.setInline b).tableActions r pred proc code unit =
      setInline b <$> m.tableActions r pred proc code unit := by
  unfold tableActions
  rw [outline_setInline]
  split
  · cases m.outline r pred proc code with
    | error f => rfl
    | ok m₁ => exact congrArg Except.ok (modifyProc_setInline m₁ r _)
  · exact congrArg Except.ok (modifyProc_setInline m r _)

theorem unsaid_setInline (m : Module) (pred : Predicate) (proc : Procedure) (code : ForeignCode) :
    (pure (if (m.setInline b).options.traceTableIoRequire && !code.mayCall then
      (m.setInline b).reportUnsaid pred proc else m.setInline b) : Except Fault Module) =
      setInline b <$> pure (if m.options.traceTableIoRequire && !code.mayCall then
        m.reportUnsaid pred proc else m) := by
  have hrequire : (m.setInline b).options.traceTableIoRequire = m.options.traceTableIoRequire := rfl
  rw [hrequire]
  split <;> rfl

theorem chooseIoProc_setInline (m : Module) (r : ProcRef) :
    (m.setInline b).chooseIoProc r = setInline b <$> m.chooseIoProc r := by
  have hproc : (m.setInline b).proc r = m.proc r := rfl
  unfold chooseIoProc
  rw [hproc]
  cases m.proc r with
  | error f => rfl
  | ok found =>
    obtain ⟨pred, proc⟩ := found
    simp only [bind, Except.bind]
    split
    · rfl
    · cases proc.hasIoStates with
      | error f => rfl
      | ok states =>
        simp only
        split
        · rfl
        · cases proc.body with
          | foreign info code =>
            simp only [tableActions_setInline]
            cases code.ioTabling with
            | none => exact unsaid_setInline ..
            | some asked =>
              cases asked with
              | notTabled => exact unsaid_setInline ..
              | tabled | unitize | descendant => rfl
          | _ => rfl

theorem readied_setInline (m : Module) : (m.setInline b).readied = setInline b <$> m.readied := by
  unfold readied
  have htrace : (m.setInline b).options.traceTableIo = m.options.traceTableIo := rfl
  rw [htrace]
  split
  · exact foldlM_setInline chooseIoProc_setInline m.allProcs m
  · rfl

/-! ### The pass -/

/-- The witnesses that procedures have on record are in their tables. -/
def RecordsInTables (m : Module) : Prop :=
  ∀ r proc, m.procAt? r = some proc → proc.witnesses.All fun _ v => v.index < proc.vars.size

theorem RecordsInTables.readied {m₀ : Module} (hm : m.RecordsInTables) (h : m.readied = .ok m₀) :
    m₀.RecordsInTables := by
  rcases readied_cases h with ⟨-, hre⟩ | ⟨-, rfl⟩
  · intro r proc hproc
    by_cases hlt : r.pred.index < m.preds.size
    · by_cases hr : r ∈ m.allProcs
      · obtain ⟨env, old, proc', added, -, hold, -, hchooses, hplace, -⟩ := hre.changed r hr
        obtain rfl : proc' = proc := Option.some.inj (hplace.symm.trans hproc)
        have hrecords := hm r old hold
        rcases hchooses with ⟨-, rfl, -⟩ | ⟨_, _, _, _, -, ⟨-, -, rfl⟩ | ⟨-, _, -, -, rfl⟩⟩ <;>
          exact hrecords
      · rw [hre.others r hr hlt] at hproc
        exact hm r proc hproc
    · obtain ⟨r₁, -, env, old, proc', p, -, hold, -, hchooses, -, -, hq⟩ :=
        hre.new r proc (Nat.not_lt.1 hlt) hproc
      have hrecords := hm r₁ old hold
      rcases hchooses with ⟨-, -, hnone⟩ | ⟨_, _, _, _, -, ⟨-, hnone, -⟩ |
        ⟨-, outlined, hok, hadded, -⟩⟩
      · cases hnone
      · cases hnone
      · cases hadded
        rw [derivedPred_procs hok] at hq
        obtain ⟨-, rfl⟩ := eq_of_getElem?_single hq
        exact hrecords
  · exact hm

theorem table_agrees (m : Module) :
    Agrees m.RecordsInTables Inlines (m.setInline false).table (m.setInline true).table := by
  cases hrefused : m.options.tablingRefused? with
  | some refusal =>
    have hfold : ∀ b, (m.setInline b).table =
        setInline b <$> m.tabledProcs.foldlM (refuseTable · refusal ·) m := by
      intro b
      have hrefused' : (m.setInline b).options.tablingRefused? = some refusal := hrefused
      unfold table
      rw [hrefused']
      exact foldlM_setInline (refuseTable_setInline · refusal ·) m.tabledProcs m
    rw [hfold, hfold]
    exact .map inlines_setInline
  | none =>
    have htable : ∀ b, (m.setInline b).table =
        setInline b <$> m.readied >>= fun m₀ => m₀.tabledProcs.foldlM tableProc m₀ := by
      intro b
      rw [table_eq (m := m.setInline b) hrefused, readied_setInline]
    rw [htable, htable]
    cases h₀ : m.readied with
    | error f => exact .error
    | ok m₀ =>
      exact foldlM_agrees (inlines_setInline m₀) (nodup_tabledProcs m₀)
        (fun r => lt_of_mem_tabledProcs) (fun _ _ => rfl) fun hm r _ => hm.readied h₀ r

/-- Where a module is tabled by inline code it is tabled by plain calls, and the
    other way round if the witnesses on record are in the tables. The results
    differ in the calls, and in what is known of goals that run a primitive which
    never succeeds. -/
theorem inline_code_agrees (m : Module) :
    (∀ n', (m.setInline true).table = .ok n' →
      ∃ n, (m.setInline false).table = .ok n ∧ n.Inlines n') ∧
    (m.RecordsInTables → ∀ n, (m.setInline false).table = .ok n →
      ∃ n', (m.setInline true).table = .ok n' ∧ n.Inlines n') :=
  ⟨fun _ => (table_agrees m).back, fun hm _ => (table_agrees m).forth hm⟩

end Module

/-! ### An example -/

namespace TabledExample

/-- A procedure that copies its input, memoed. -/
def memoedCopy : Module :=
  let m := Module.start "m"
  m.declare
    { name := "copy"
      args := [.input "X" .int, .output "Y" .int]
      method := .memo .allStrict }
    (.assign ⟨1⟩ ⟨0⟩ (m.context 1))

theorem memoedCopy_records : memoedCopy.RecordsInTables := by
  intro r proc hproc
  have hempty : memoedCopy.preds.all (fun p => p.procs.all (·.witnesses = {})) = true := by
    decide +kernel
  rw [Module.procAt?_eq] at hproc
  obtain ⟨p, hp, hq⟩ := Option.bind_eq_some_iff.1 hproc
  have hall := all_eq_true_iff_forall_mem.1 hempty p (mem_of_getElem? hp)
  have hnone := all_eq_true_iff_forall_mem.1 hall proc (mem_of_getElem? hq)
  rw [of_decide_eq_true hnone]
  exact WitnessMap.all_empty _

/-- The memoed procedure is tabled in both ways. -/
theorem copy_inlined : ∃ n n', (memoedCopy.setInline false).table = .ok n ∧
    (memoedCopy.setInline true).table = .ok n' ∧ n.Inlines n' := by
  obtain ⟨n, hn, -⟩ := Module.exists_of_toOption (x := (memoedCopy.setInline false).table)
    (q := fun _ => true) (by decide +kernel)
  obtain ⟨n', hn', hinlines⟩ := (Module.inline_code_agrees memoedCopy).2 memoedCopy_records n hn
  exact ⟨n, n', hn, hn', hinlines⟩

/-- With inline code the procedure is not known to bind its output, because it is
    not known that giving the program up never succeeds. -/
theorem copy_binds_less_inline : ∃ n n' proc proc',
    (memoedCopy.setInline false).table = .ok n ∧ (memoedCopy.setInline true).table = .ok n' ∧
    n.procAt? tabledProc = some proc ∧ n'.procAt? tabledProc = some proc' ∧
    (proc.body.descendant? [0, 3, 1, 1]).map (·.info.unreachable) = some true ∧
    (proc'.body.descendant? [0, 3, 1, 1]).map (·.info.unreachable) = some false ∧
    ⟨1⟩ ∈ proc.body.info.bound ∧ ⟨1⟩ ∉ proc'.body.info.bound := by
  obtain ⟨n, proc, hn, hproc, h⟩ := Module.exists_of_table (m := memoedCopy.setInline false)
    (r := tabledProc) (q := fun p => ⟨1⟩ ∈ p.body.info.bound ∧
      (p.body.descendant? [0, 3, 1, 1]).map (·.info.unreachable) = some true) (by decide +kernel)
  obtain ⟨n', proc', hn', hproc', h'⟩ := Module.exists_of_table (m := memoedCopy.setInline true)
    (r := tabledProc) (q := fun p => ⟨1⟩ ∉ p.body.info.bound ∧
      (p.body.descendant? [0, 3, 1, 1]).map (·.info.unreachable) = some false) (by decide +kernel)
  obtain ⟨hbound, hun⟩ := of_decide_eq_true h
  obtain ⟨hbound', hun'⟩ := of_decide_eq_true h'
  exact ⟨n, n', proc, proc', hn, hn', hproc, hproc', hun, hun', hbound, hbound'⟩

end TabledExample

end Clausal
