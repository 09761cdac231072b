import Clausal.Proofs.CodeShape

/-!
# References to procedures

A goal names procedures: the callees of its calls, and those that the constants
in it stand for (`Goal.procRefs`). A reference resolves if the module has the
predicate and the predicate has the procedure. The code that is emitted for a
table names the primitives, the tabled procedure itself and its generator, and
whatever the body names.
-/

namespace Clausal

open List

variable {r : ProcRef} {e : TableEnv} {P : ProcRef → Prop}

/-! ### References of goals -/

/-- The procedures that the right-hand side of a unification names. -/
def UnifyRhs.procRefs : UnifyRhs → List ProcRef
  | .var _ => []
  | .functor symbol _ => symbol.proc?.toList

/-- The procedures that the kind of a unification names. -/
def Unification.procRefs : Unification → List ProcRef
  | .construct _ symbol _ | .deconstruct _ symbol _ _ => symbol.proc?.toList
  | .assign _ _ | .test _ _ | .complicated _ _ => []

/-- The procedure that a call without a named callee names: the relation that a
    tuple is inserted into. -/
def GenericCallee.procRefs : GenericCallee → List ProcRef
  | .closure _ => []
  | .insertion relation => [relation]

namespace Goal

mutual

/-- The procedures that a goal names. -/
def procRefs : Goal → List ProcRef
  | .conj _ _ gs | .disj _ gs => procRefsList gs
  | .switch _ _ _ arms => procRefsArms arms
  | .negation _ g | .scope _ _ g => procRefs g
  | .ite _ _ c y n => procRefs c ++ procRefs y ++ procRefs n
  | .call _ callee _ _ => [callee]
  | .genericCall _ callee _ _ => callee.procRefs
  | .foreign _ code => [code.callee]
  | .unify _ _ rhs kind => rhs.procRefs ++ kind.procRefs
  | .lambda _ _ _ body kind => procRefs body ++ kind.procRefs

def procRefsList : List Goal → List ProcRef
  | [] => []
  | g :: gs => procRefs g ++ procRefsList gs

def procRefsArms : List (Symbol × Goal) → List ProcRef
  | [] => []
  | (symbol, g) :: arms => symbol.proc?.toList ++ procRefs g ++ procRefsArms arms

end

variable {g g' : Goal} {gs gs' : List Goal}

section

-- The equations are proved here, before several proofs ask for them at once.
attribute [local simp] procRefs procRefsList procRefsArms

theorem mem_procRefsList : r ∈ procRefsList gs ↔ ∃ g ∈ gs, r ∈ g.procRefs := by
  induction gs with
  | nil => simp
  | cons g gs ih => simp [ih]

theorem mem_procRefsArms {arms : List (Symbol × Goal)} :
    r ∈ procRefsArms arms ↔ ∃ arm ∈ arms, arm.1.proc? = some r ∨ r ∈ arm.2.procRefs := by
  induction arms with
  | nil => simp
  | cons arm arms ih => simp [ih, or_assoc]

@[simp] theorem procRefs_setInfo (i : GoalInfo) (g : Goal) :
    (g.setInfo i).procRefs = g.procRefs := by
  cases g <;> simp [setInfo]

end

/-- All procedures that a goal names are of a kind. -/
def RefersTo (P : ProcRef → Prop) (g : Goal) : Prop := ∀ r ∈ g.procRefs, P r

theorem RefersTo.mono {Q : ProcRef → Prop} (h : g.RefersTo P) (hPQ : ∀ r, P r → Q r) :
    g.RefersTo Q :=
  fun r hr => hPQ r (h r hr)

@[simp] theorem procRefs_setNonlocals (vars : VarSet) (g : Goal) :
    (g.setNonlocals vars).procRefs = g.procRefs :=
  procRefs_setInfo ..

@[simp] theorem procRefs_exposeFree (g : Goal) : g.exposeFree.procRefs = g.procRefs :=
  procRefs_setInfo ..

theorem procRefs_requantify (outside : VarSet) (g : Goal) :
    (g.requantify outside).procRefs = g.procRefs := by
  have hlist : ∀ {gs gs'}, Forall₂ (fun g g' => procRefs g' = procRefs g) gs gs' →
      procRefsList gs' = procRefsList gs := by
    intro gs gs' h
    induction h with
    | nil => rfl
    | cons hg _ ih => rw [procRefsList, procRefsList, hg, ih]
  have harms : ∀ {arms arms'}, Forall₂ (fun a b => b.1 = a.1 ∧ procRefs b.2 = procRefs a.2)
      arms arms' → procRefsArms arms' = procRefsArms arms := by
    intro arms arms' h
    induction h with
    | nil => rfl
    | cons harm _ ih => rw [procRefsArms, procRefsArms, harm.1, harm.2, ih]
  exact Congruent.requantify (P := fun g g' => procRefs g' = procRefs g)
    { refl := fun _ => rfl
      nonlocals := fun vars h => by rw [procRefs_setNonlocals, h]
      conj := fun h => by rw [procRefs, procRefs, hlist h]
      disj := fun h => by rw [procRefs, procRefs, hlist h]
      switch := fun h => by rw [procRefs, procRefs, harms h]
      negation := fun h => by rw [procRefs, procRefs, h]
      ite := fun hc hy hn => by rw [procRefs, procRefs, hc, hy, hn]
      scope := fun h => by rw [procRefs, procRefs, h]
      lambda := fun h => by rw [procRefs, procRefs, h] } g outside

/-! ### References of goals that are built -/

/-- The procedures that goals name are all of a kind. -/
abbrev AllReferTo (P : ProcRef → Prop) : List Goal → Prop := AllOf (RefersTo P)

theorem AllOf.procRefsList (h : AllReferTo P gs) : ∀ r ∈ procRefsList gs, P r := by
  intro r hr
  obtain ⟨g, hg, hr⟩ := mem_procRefsList.1 hr
  exact h g hg r hr

section

variable (context : Context)

theorem AllOf.conjoin (h : AllReferTo P gs) : (conjoin gs context).RefersTo P := by
  have hflat : AllReferTo P (gs.flatMap conjuncts) := by
    intro k hk
    obtain ⟨g, hg, hk⟩ := mem_flatMap.1 hk
    unfold conjuncts at hk
    split at hk
    · exact fun r hr => h _ hg r (by rw [procRefs]; exact mem_procRefsList.2 ⟨k, hk, hr⟩)
    · exact mem_singleton.1 hk ▸ h g hg
  unfold Goal.conjoin
  split
  · next g hg => exact hflat g (by rw [hg]; exact mem_singleton.2 rfl)
  · intro r hr
    rw [procRefs_exposeFree, procRefs] at hr
    exact hflat.procRefsList r hr

theorem AllOf.disjoin (h : AllReferTo P gs) : (disjoin gs context).RefersTo P := by
  unfold Goal.disjoin
  split
  · exact AllOf.procRefsList .nil
  · intro r hr
    rw [procRefs_exposeFree, procRefs] at hr
    exact h.procRefsList r hr

theorem RefersTo.failure : (failure context).RefersTo P :=
  AllOf.procRefsList .nil

theorem RefersTo.ifThenElse {cond yes no : Goal} (hc : cond.RefersTo P) (hy : yes.RefersTo P)
    (hn : no.RefersTo P) : (ifThenElse cond yes no context).RefersTo P := by
  intro r hr
  rw [Goal.ifThenElse, procRefs_exposeFree, procRefs, mem_append, mem_append] at hr
  rcases hr with (hr | hr) | hr
  · exact hc r hr
  · exact hy r hr
  · exact hn r hr

theorem RefersTo.switchOn {arms : List (Symbol × Goal)}
    (h : ∀ arm ∈ arms, arm.1.proc? = none ∧ arm.2.RefersTo P) (v : ProgVar) (canFail : Bool) :
    (switchOn v arms canFail context).RefersTo P := by
  intro r hr
  rw [Goal.switchOn, procRefs_exposeFree, procRefs] at hr
  obtain ⟨arm, harm, hr⟩ := mem_procRefsArms.1 hr
  obtain ⟨hnone, hrefs⟩ := h arm harm
  rcases hr with hr | hr
  · rw [hnone] at hr
    cases hr
  · exact hrefs r hr

theorem RefersTo.construct {symbol : Symbol} (h : ∀ r, symbol.proc? = some r → P r) (v : ProgVar)
    (args : List ProgVar) : (construct v symbol args context).RefersTo P := by
  intro r hr
  rw [Goal.construct, procRefs_exposeFree, procRefs, UnifyRhs.procRefs, Unification.procRefs,
    mem_append, or_self, Option.mem_toList] at hr
  exact h r hr

theorem RefersTo.constant {symbol : Symbol} (hsymbol : symbol.proc? = some r) (h : P r)
    (v : ProgVar) : (Goal.construct v symbol [] context).RefersTo P :=
  .construct context (fun _ hr => Option.some.inj (hsymbol.symm.trans hr) ▸ h) v []

theorem RefersTo.stringConst (v : ProgVar) (value : String) :
    (Goal.stringConst v value context).RefersTo P :=
  .construct context (fun _ h => by cases h) v []

theorem RefersTo.assign (v w : ProgVar) : (assign v w context).RefersTo P := by
  intro r hr
  rw [Goal.assign, procRefs_exposeFree] at hr
  cases hr

theorem RefersTo.callProc {callee : ProcRef} (h : P callee) (name : SymName)
    (args outputs : List ProgVar) (shape : CallShape) :
    (callProc callee name args outputs shape context).RefersTo P := by
  intro r hr
  rw [Goal.callProc, procRefs_exposeFree, procRefs, mem_singleton] at hr
  exact hr ▸ h

end

theorem RefersTo.promised (h : g.RefersTo P) (purity : Purity) :
    (e.promised purity g).RefersTo P := by
  unfold TableEnv.promised
  split
  · intro r hr
    rw [within, procRefs_exposeFree, procRefs] at hr
    exact h r hr
  · exact h

theorem RefersTo.tabledBody (h : g.RefersTo P) (purity : Purity) (head : List ProgVar) :
    (Module.tabledBody e purity head g).RefersTo P := by
  refine RefersTo.promised (fun r hr => h r ?_) purity
  rwa [procRefs_requantify] at hr

end Goal

/-! ### References of the code for a table -/

namespace TableEnv

open Synth Goal

variable {n : Nat} {outputs args : List ProgVar} {many : Bool} {model : CodeModel}
  {given : Prop} {kind : TableKind} {g body : Goal} {gen : Option Generator} {p : Primitive}

section

variable (hP : ∀ p : Primitive, P p.proc)

include hP

theorem callWith_refersTo {extra : List ForeignArg}
    (h : (e.callWith p args extra).MayReturn g) : g.RefersTo P := by
  obtain ⟨_, _, h⟩ := h
  obtain ⟨-, ⟨-, -, rfl⟩ | ⟨code, rfl, hcallee, -⟩⟩ := callWith_cases h
  · exact .callProc _ (hP p) _ _ _ _
  · intro r hr
    rw [callForeign, procRefs_exposeFree, procRefs, mem_singleton] at hr
    rw [hr, hcallee]
    exact hP p

theorem tableError_refersTo {problem : String} (h : (e.tableError problem).MayReturn g) :
    g.RefersTo P := by
  obtain ⟨_, _, h⟩ := h
  simp only [tableError, returns_bind, returns_pure] at h
  obtain ⟨_, _, -, call, _, hcall, rfl, rfl⟩ := h
  exact AllOf.conjoin _ (.cons (.stringConst _ _ _) (.single (callWith_refersTo hP ⟨_, _, hcall⟩)))

variable (hself : P e.proc)

include hself

theorem Step.refersTo (h : e.Step n outputs many g) : g.RefersTo P := by
  cases h with
  | run hcall => exact callWith_refersTo hP ⟨_, _, hcall⟩
  | access _ _ => exact .callProc _ (hP _) _ _ _ _
  | build _ hsymbol => exact .construct _ (fun r hr => (hsymbol r hr).1 ▸ hself) _ _
  | remake _ => exact .construct _ (fun _ hr => by cases hr) _ _

theorem Fails.refersTo (h : e.Fails n outputs g) : g.RefersTo P := by
  cases h with
  | call h _ => exact callWith_refersTo hP h
  | failure => exact .failure _
  | after h => exact AllOf.conjoin _ (.cons (h.refersTo hP hself) (.single (.failure _)))

theorem Rest.refersTo (h : e.Rest n outputs many g) : g.RefersTo P := by
  cases h with
  | step h => exact h.refersTo hP hself
  | steps h => exact AllOf.conjoin _ (h.imp fun _ hg => hg.refersTo hP hself)
  | retry h hf =>
    exact AllOf.disjoin _ (.cons (h.refersTo hP hself) (.single (hf.refersTo hP hself)))

variable (hbody : body.RefersTo P)

include hbody

theorem Visit.refersTo (h : e.Visit n outputs body many model g) : g.RefersTo P := by
  cases h with
  | once h => exact AllOf.conjoin _ (.cons hbody (.single (h.refersTo hP hself)))
  | cond h hf => exact .ifThenElse _ hbody (h.refersTo hP hself) (hf.refersTo hP hself)
  | each h _ hf =>
    have hgs := AllOf.conjoin e.context (.cons hbody (h.imp fun _ hg => hg.refersTo hP hself))
    exact AllOf.disjoin _ (.cons hgs (.single (hf.refersTo hP hself)))

theorem Arm.refersTo (h : e.Arm n outputs body many model g) : g.RefersTo P := by
  cases h with
  | visit h => exact h.refersTo hP hself hbody
  | answer h =>
    obtain ⟨gs, hgs, rfl⟩ := h
    exact AllOf.conjoin _ (hgs.all.imp fun _ hg => hg.refersTo hP hself)
  | fails _ => exact .failure _
  | error h => exact tableError_refersTo hP h

/-- Whatever the method, the code for a table names primitives, the procedure
    that is tabled and what the body names, and with a generator also that. -/
theorem Shape.refersTo (h : e.Shape n outputs body given kind g gen)
    (hgen : gen.isSome → P ⟨e.env.nextPred, ⟨0⟩⟩) :
    g.RefersTo P ∧ ∀ gen' ∈ gen, gen'.body.RefersTo P := by
  have hsteps : ∀ {many gs}, e.Steps n outputs many gs → AllReferTo P gs :=
    fun h => h.imp fun _ hg => hg.refersTo hP hself
  cases h with
  | switch _ hpre hsetup _ harms _ _ =>
    refine ⟨AllOf.conjoin _ ((hsteps hpre).append (.cons (hsetup.refersTo hP hself)
      (.single (.switchOn _ (fun a ha => ?_) _ _)))), by simp⟩
    obtain ⟨⟨st, hsymbol⟩, harm⟩ := harms a ha
    exact ⟨by rw [hsymbol]; rfl, harm.refersTo hP hself hbody⟩
  | consume hpre hsave hsetup _ hanswers _ hshape =>
    refine ⟨AllOf.conjoin _ ((hsteps hpre).append ((AllOf.cons (callWith_refersTo hP hsave) (.cons
      (.stringConst _ _ _) (.cons (.constant _ rfl (hgen rfl) _) (.single
      (hsetup.refersTo hP hself))))).append (hsteps hanswers.all))), ?_⟩
    rintro _ ⟨⟩
    obtain ⟨_, _, _, _, hpickup, -, hvisit, heq⟩ := hshape
    rw [heq]
    exact AllOf.conjoin _ (.cons (callWith_refersTo hP hpickup)
      (.single (hvisit.refersTo hP hself hbody)))
  | action hrange _ hlookup hhas hmoves _ haround =>
    obtain ⟨pre, post, rfl, hpre, hpost⟩ := haround
    have hmove : AllReferTo P _ := hmoves.imp fun _ hg => by
      rcases hg with hg | ⟨v, w, rfl⟩
      · exact hg.refersTo hP hself
      · exact .assign _ v w
    have honce := RefersTo.ifThenElse e.context (callWith_refersTo hP hhas)
      (hmove.conjoin e.context)
      (((hsteps hpre).append (.cons hbody (hsteps hpost))).conjoin e.context)
    exact ⟨.ifThenElse _ (callWith_refersTo hP hrange)
      (AllOf.conjoin _ (.cons (hlookup.refersTo hP hself) (.single honce))) hbody, by simp⟩

end

end TableEnv

/-! ### References in a module -/

namespace Module

open Goal

variable {m m₀ m' env : Module} {pred : Predicate} {proc : Procedure}

/-- The module has the predicate that a reference names, and the predicate the
    procedure. -/
def Resolves (m : Module) (r : ProcRef) : Prop := (m.procAt? r).isSome = true

/-- All references in the bodies of the module resolve. -/
def RefsResolve (m : Module) : Prop :=
  ∀ r proc, m.procAt? r = some proc → proc.body.RefersTo m.Resolves

/-- The module has the primitives. -/
def HasPrimitives (m : Module) : Prop := ∀ p : Primitive, m.Resolves p.proc

instance (m : Module) : Decidable m.RefsResolve :=
  decidable_of_iff (∀ r ∈ m.allProcs, ∀ proc ∈ m.procAt? r, ∀ callee ∈ proc.body.procRefs,
      (m.procAt? callee).isSome = true) <| by
    constructor
    · intro h r proc hproc
      exact h r (mem_allProcs.2 (by rw [hproc]; rfl)) proc hproc
    · exact fun h r _ proc hproc => h r proc hproc

instance (m : Module) : Decidable m.HasPrimitives :=
  decidable_of_iff (∀ p ∈ Primitive.all, (m.procAt? p.proc).isSome = true)
    ⟨fun h p => h p (mem_of_getElem? (Primitive.all_getElem?_pred p)), fun h p _ => h p⟩

/-- The body of a procedure is to be moved to a predicate of its own: its actions
    are chosen, and it is not to be inlined. -/
def Outlines (m : Module) (r : ProcRef) : Prop :=
  ∃ pred proc info code unit, Chosen m r pred proc info code unit ∧ pred.hasMarker .noInline = true

theorem Grows.chosen_iff (hgrows : m.Grows env) (hm : m.procAt? r = some proc)
    (henv : env.procAt? r = some proc) : ∃ p q, m.findProc? r = some (p, proc) ∧
      env.findProc? r = some (q, proc) ∧ q.hasMarker .noInline = p.hasMarker .noInline ∧
      ∀ info code unit, Chosen env r q proc info code unit ↔ Chosen m r p proc info code unit := by
  obtain ⟨p, hp⟩ := exists_findProc? hm
  obtain ⟨q, hq⟩ := exists_findProc? henv
  obtain ⟨q', hq', -, hdecl⟩ := hgrows.preds _ p (findProc?_eq_some.1 hp).1
  obtain rfl : q = q' := Option.some.inj ((findProc?_eq_some.1 hq).1.symm.trans hq')
  have hstatus : q.status = p.status := by rw [hdecl]
  have horigin : q.origin = p.origin := by rw [hdecl]
  refine ⟨p, q, hp, hq, by rw [hdecl]; rfl, fun info code unit => ⟨fun h => ?_, fun h => ?_⟩⟩
  · exact ⟨hp, hstatus ▸ h.status, horigin ▸ h.origin, h.method, h.states, h.body, h.asked⟩
  · exact ⟨hq, hstatus ▸ h.status, horigin ▸ h.origin, h.method, h.states, h.body, h.asked⟩

theorem Outlines.of_chosen (hgrows : m.Grows env) (hm : m.procAt? r = some proc) {info : GoalInfo}
    {code : ForeignCode} (h : Chosen env r pred proc info code unit)
    (hmarker : pred.hasMarker .noInline = true) : m.Outlines r := by
  obtain ⟨p, q, -, hq, hmarkers, hiff⟩ := hgrows.chosen_iff hm (procAt?_of_findProc? h.found)
  obtain rfl : pred = q := (Prod.mk.inj (Option.some.inj (h.found.symm.trans hq))).1
  exact ⟨p, proc, info, code, unit, (hiff info code unit).1 h, hmarkers ▸ hmarker⟩

theorem movedProc_of_chooses {proc' : Procedure} (h : Chooses env r proc proc' (some pred)) :
    ∃ source info code unit, Chosen env r source proc info code unit ∧
      source.hasMarker .noInline = true ∧ pred.procs = #[movedProc env r proc info code] ∧
      proc'.body = outlinedCall env r proc info pred := by
  rcases h with ⟨-, -, hnone⟩ | ⟨source, info, code, unit, hc, ⟨-, hnone, -⟩ | ⟨hmarker, outlined,
    hok, hsome, rfl⟩⟩
  · cases hnone
  · cases hnone
  · cases hsome
    exact ⟨source, info, code, unit, hc, hmarker, derivedPred_procs hok, rfl⟩

theorem resolves_of_grows (h : m.Grows m') : ∀ r, m.Resolves r → m'.Resolves r :=
  fun _ => h.isSome_procAt?

theorem Reworks.mem_of_isSome {became : Module → ProcRef → Procedure → Procedure →
    Option Predicate → Prop} {rs : List ProcRef} (h : Reworks became m rs m')
    (hlt : r.pred.index < m.preds.size) (hr : m'.Resolves r) : m.Resolves r := by
  by_cases hmem : r ∈ rs
  · obtain ⟨_, _, _, _, -, hold, -⟩ := h.changed r hmem
    rw [Resolves, hold]
    rfl
  · rwa [Resolves, h.others r hmem hlt] at hr

theorem refsResolve_chosen (h : Reworks Chooses m m.allProcs m₀) (hm : m.RefsResolve)
    (hfirst : ∀ r, m.Outlines r → r.proc = ⟨0⟩) : m₀.RefsResolve := by
  intro r proc₀ hproc₀
  have hsome : m₀.Resolves r := by
    rw [Resolves, hproc₀]
    rfl
  by_cases hlt : r.pred.index < m.preds.size
  · obtain ⟨env, proc, proc', added, hgrows, hold, -, hchooses, hplace, hadded⟩ :=
      h.changed r (mem_allProcs.2 (h.mem_of_isSome hlt hsome))
    obtain rfl : proc' = proc₀ := Option.some.inj (hplace.symm.trans hproc₀)
    have hbody := (hm r proc hold).mono (resolves_of_grows h.grows)
    rcases hchooses with ⟨-, rfl, -⟩ | ⟨pred, info, code, unit, hc, ⟨-, -, rfl⟩ |
      ⟨hmarker, outlined, hok, hnew, rfl⟩⟩
    · exact hbody
    · exact hbody
    · refine RefersTo.callProc _ ?_ _ _ _ _
      rw [hfirst r (.of_chosen hgrows hold hc hmarker), Resolves,
        hadded outlined 0 _ hnew (by rw [derivedPred_procs hok]; rfl)]
      rfl
  · obtain ⟨r₁, -, env, proc, proc', pred, hgrows, hold, -, hchooses, -, hpred, hget⟩ :=
      h.new r proc₀ (Nat.not_lt.1 hlt) hproc₀
    obtain ⟨source, info, code, unit, hc, hmarker, hprocs, -⟩ := movedProc_of_chooses hchooses
    rw [hprocs] at hget
    obtain ⟨hzero, rfl⟩ := eq_of_getElem?_single hget
    -- The callee is the procedure itself.
    have hself : (⟨env.nextPred, r₁.proc⟩ : ProcRef) = r := by
      rw [hfirst r₁ (.of_chosen hgrows hold hc hmarker), ← hpred, ← hzero]
    intro callee hcallee
    rw [movedProc, procRefs, mem_singleton] at hcallee
    rwa [hcallee, hself]

/-- Tabling adds no references that lead nowhere. -/
theorem refsResolve_tabled (h : Reworks Tables m₀ m₀.tabledProcs m') (hm₀ : m₀.RefsResolve)
    (hprims : m₀.HasPrimitives) : m'.RefsResolve := by
  have hP : m'.HasPrimitives := fun p => resolves_of_grows h.grows _ (hprims p)
  -- What is emitted for a procedure names nothing that is missing in the end.
  have hcode : ∀ {env r proc pred tabled s added}, TabledAs env r proc pred tabled s added →
      m₀.procAt? r = some proc → m'.Resolves r →
      (∀ p q, added = some p → p.procs[0]? = some q → m'.Resolves ⟨env.nextPred, ⟨0⟩⟩) →
      tabled.body.RefersTo m'.Resolves ∧
        ∀ g, tabled.generator = some g → g.body.RefersTo m'.Resolves := by
    intro env r proc pred tabled s added htabled hold hself hadded
    refine (TableEnv.tabled_shape htabled.returns).refersTo hP hself
      ((hm₀ r proc hold).mono (resolves_of_grows h.grows)) fun hgen => ?_
    rcases htabled.added_cases with ⟨hnone, -⟩ | ⟨g, gen, -, hsome, hprocs⟩
    · rw [hnone] at hgen
      cases hgen
    · exact hadded gen _ hsome (by rw [hprocs]; rfl)
  intro r proc' hproc'
  have hself : m'.Resolves r := by
    rw [Resolves, hproc']
    rfl
  by_cases hlt : r.pred.index < m₀.preds.size
  · by_cases hmem : r ∈ m₀.tabledProcs
    · obtain ⟨env, proc, proc₁, added, -, hold, -, htables, hplace, hadded⟩ := h.changed r hmem
      obtain rfl : proc₁ = proc' := Option.some.inj (hplace.symm.trans hproc')
      rcases htables with ⟨-, rfl, -⟩ | ⟨pred, tabled, s, htabled, rfl⟩
      · exact (hm₀ r _ hold).mono (resolves_of_grows h.grows)
      · refine RefersTo.tabledBody (hcode htabled hold hself fun p q hp hq => ?_).1 _ _
        rw [Resolves, hadded p 0 q hp hq]
        rfl
    · rw [h.others r hmem hlt] at hproc'
      exact (hm₀ r proc' hproc').mono (resolves_of_grows h.grows)
  · obtain ⟨r₁, -, env, proc, proc₁, p, -, hold, -, htables, hplace, hpred, hget⟩ :=
      h.new r proc' (Nat.not_lt.1 hlt) hproc'
    rcases htables with ⟨-, -, hnone⟩ | ⟨pred, tabled, s, htabled, rfl⟩
    · cases hnone
    · rcases htabled.added_cases with ⟨-, hnone⟩ | ⟨g, gen, hgen, hsome, hprocs⟩
      · cases hnone
      · cases hsome
        rw [hprocs] at hget
        obtain ⟨hzero, rfl⟩ := eq_of_getElem?_single hget
        have hplace' : m'.Resolves r₁ := by
          rw [Resolves, hplace]
          rfl
        refine RefersTo.tabledBody ((hcode htabled hold hplace' fun _ _ _ _ => ?_).2 g hgen) _ _
        have heq : (⟨env.nextPred, ⟨0⟩⟩ : ProcRef) = r := by rw [← hpred, ← hzero]
        rwa [heq]

theorem not_refsResolve_of_outlines (hchosen : Reworks Chooses m m.allProcs m₀)
    (h : Reworks Tables m₀ m₀.tabledProcs m') (hr : m.Outlines r) (hne : r.proc ≠ ⟨0⟩) :
    ¬ m'.RefsResolve := by
  obtain ⟨pred, proc, info, code, unit, hc, hmarker⟩ := hr
  have hm := procAt?_of_findProc? hc.found
  obtain ⟨env, proc₁, proc', added, hgrows, hold, henv, hchooses, -, hadded⟩ :=
    hchosen.changed r (mem_allProcs.2 (by rw [hm]; rfl))
  obtain rfl : proc = proc₁ := Option.some.inj (hm.symm.trans hold)
  obtain ⟨p, q, hp, hq, hmarkers, hiff⟩ := hgrows.chosen_iff hm henv
  obtain rfl : pred = p := (Prod.mk.inj (Option.some.inj (hc.found.symm.trans hp))).1
  rcases hchooses with ⟨hnot, -⟩ | ⟨q', info', code', unit', hc', ⟨hmarker', -⟩ | ⟨-, outlined, hok,
    hsome, -⟩⟩
  · exact absurd ((hiff info code unit).2 hc) (hnot q info code unit)
  · obtain rfl : q = q' := (Prod.mk.inj (Option.some.inj (hq.symm.trans hc'.found))).1
    rw [hmarkers, hmarker] at hmarker'
    cases hmarker'
  · -- The moved body stays as it is, since it is evaluated normally.
    have hmoved : m₀.procAt? ⟨env.nextPred, ⟨0⟩⟩ = some (movedProc env r proc info' code') :=
      hadded outlined 0 _ hsome (by rw [derivedPred_procs hok]; rfl)
    have hstays : m'.procAt? ⟨env.nextPred, ⟨0⟩⟩ = some (movedProc env r proc info' code') := by
      rw [h.others _ (fun hmem => ?_) (procAt?_lt hmoved), hmoved]
      obtain ⟨tabled, htabled, hmethod⟩ := mem_tabledProcs.1 hmem
      rw [hmoved, Option.some.injEq] at htabled
      exact hmethod (htabled ▸ hc.method)
    intro hall
    have hcallee : m'.Resolves ⟨env.nextPred, r.proc⟩ :=
      hall _ _ hstays _ (mem_singleton.2 rfl)
    have hlt : env.nextPred.index < m₀.preds.size := procAt?_lt hmoved
    obtain ⟨found, hfound⟩ := Option.isSome_iff_exists.1 (h.mem_of_isSome hlt hcallee)
    obtain ⟨_, -, _, _, _, _, -, -, -, hchooses, -, -, hget⟩ :=
      hchosen.new _ found hgrows.size_le hfound
    obtain ⟨_, _, _, _, -, -, hprocs, -⟩ := movedProc_of_chooses hchooses
    rw [hprocs] at hget
    have hzero : r.proc.index = 0 := (eq_of_getElem?_single hget).1
    exact hne (by rw [← hzero])

theorem refsResolve_refused (h : Reworks Refuses m m.tabledProcs m') (hm : m.RefsResolve) :
    m'.RefsResolve := by
  intro r proc' hproc'
  by_cases hlt : r.pred.index < m.preds.size
  · by_cases hmem : r ∈ m.tabledProcs
    · obtain ⟨env, proc, proc₁, added, -, hold, -, ⟨rfl, -⟩, hplace, -⟩ := h.changed r hmem
      obtain rfl := Option.some.inj (hplace.symm.trans hproc')
      exact (hm r proc hold).mono (resolves_of_grows h.grows)
    · rw [h.others r hmem hlt] at hproc'
      exact (hm r proc' hproc').mono (resolves_of_grows h.grows)
  · obtain ⟨_, -, _, _, _, _, -, -, -, ⟨-, hnone⟩, -⟩ := h.new r proc' (Nat.not_lt.1 hlt) hproc'
    cases hnone

/-- After the tabling pass all references resolve, as they did before, if and
    only if the bodies that are moved to predicates of their own all come from
    first procedures. -/
theorem references_resolve_iff (hm : m.RefsResolve) (hprims : m.HasPrimitives)
    (h : m.table = .ok m') :
    m'.RefsResolve ↔ (m.options.tablingRefused? = none → m.options.traceTableIo = true →
      ∀ r, m.Outlines r → r.proc = ⟨0⟩) := by
  rcases table_cases h with ⟨hrefused, hre⟩ | ⟨hsupported, m₀, h₀, hre⟩
  · refine iff_of_true (refsResolve_refused hre hm) fun hnone => ?_
    rw [hnone] at hrefused
    cases hrefused
  · rcases readied_cases h₀ with ⟨htrace, hchosen⟩ | ⟨htrace, rfl⟩
    · constructor
      · intro hall _ _ r hr
        by_contra hne
        exact not_refsResolve_of_outlines hchosen hre hr hne hall
      · intro hfirst
        exact refsResolve_tabled hre (refsResolve_chosen hchosen hm (hfirst hsupported htrace))
          fun p => resolves_of_grows hchosen.grows _ (hprims p)
    · refine iff_of_true (refsResolve_tabled hre hm hprims) fun _ htrue => ?_
      rw [htrace] at htrue
      cases htrue

end Module

/-! ### Examples -/

namespace TabledExample

/-- An action that is traced and not to be inlined. -/
def actDecl : PredDecl :=
  { name := "act"
    args := [.input "S0" .ioState, .output "S" .ioState]
    markers := [.noInline] }

/-- The module before the action is declared. -/
def actBase : Module := .start "m" { traceTableIo := true }

def actPred : Predicate :=
  actBase.declared actDecl
    (actBase.foreignBody actDecl (some .tabled) false "act(S0, S);" .pure (actBase.context 1))

def actModule : Module := actBase.addPred actPred

theorem proc_eq_zero_of_outlines {m : Module} (h : ∀ p ∈ m.preds, p.procs.size = 1)
    (hr : m.Outlines r) : r.proc = ⟨0⟩ := by
  obtain ⟨pred, proc, info, code, unit, hc, -⟩ := hr
  obtain ⟨hpred, hproc⟩ := Module.findProc?_eq_some.1 hc.found
  obtain ⟨hlt, -⟩ := Array.getElem?_eq_some_iff.1 hproc
  have hzero : r.proc.index = 0 := by
    rw [h pred (Array.mem_of_getElem? hpred)] at hlt
    omega
  rw [← hzero]

/-- The action is moved to another predicate, and all references resolve. -/
theorem act_references_resolve : actModule.RefsResolve ∧ actModule.HasPrimitives ∧
    actModule.Outlines tabledProc ∧ ∃ m', actModule.table = .ok m' ∧ m'.RefsResolve := by
  have hrefs : actModule.RefsResolve := by decide +kernel
  have hprims : actModule.HasPrimitives := by decide +kernel
  have hone : ∀ p ∈ actModule.preds, p.procs.size = 1 := by decide +kernel
  refine ⟨hrefs, hprims, ?_, ?_⟩
  · exact ⟨actPred, _, _, _, .alone, ⟨rfl, by decide, rfl, rfl, by decide, rfl, .inl ⟨rfl, rfl⟩⟩,
      rfl⟩
  · obtain ⟨m', hm', -⟩ := Module.exists_of_toOption (x := actModule.table) (q := fun _ => true)
      (by decide +kernel)
    exact ⟨m', hm', (Module.references_resolve_iff hrefs hprims hm').2 fun _ _ _ =>
      proc_eq_zero_of_outlines hone⟩

/-- The action in two modes. -/
def actTwice : Module := actBase.addPred { actPred with procs := actPred.procs ++ actPred.procs }

/-- The second procedure is made to call a second one of a predicate that has one
    alone. -/
theorem act_twice_dangles : actTwice.RefsResolve ∧ actTwice.HasPrimitives ∧
    ∃ m', actTwice.table = .ok m' ∧ ¬ m'.RefsResolve := by
  refine ⟨by decide +kernel, by decide +kernel, ?_⟩
  obtain ⟨m', hm', h⟩ := Module.exists_of_toOption (x := actTwice.table)
    (q := fun m' => !decide m'.RefsResolve) (by decide +kernel)
  exact ⟨m', hm', by simpa using h⟩

end TabledExample

end Clausal
