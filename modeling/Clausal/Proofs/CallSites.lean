import Clausal.Module.Declaring
import Clausal.Proofs.Pass
import Clausal.Proofs.Subgoals

/-!
# Calls and declarations agree

Declarations and calls work out the witnesses independently of each other, and
while the pass is under way some heads have them and others do not. Still,
once it is done, every call passes what its callee takes.

The places of a body at which predicates are named (`Goal.callSites`) are
compared before and after the pass. They are the same ones in the same order,
with the witnesses in front of the arguments, but for the accessors that are
called in set-ups and for closures that have become calls (`SitesAgree`).
-/

namespace Clausal

open List Goal

variable {s s' : WitnessState} {info : GoalInfo} {body g' : Goal} {out : WitnessHead} {env : Module}
  {Q : Ty → ProgVar → Prop} {bound args : List ProgVar} {p : Predicate}

/-! ### Call sites -/

inductive SiteKind where
  | call | foreign
  /-- A constant for the procedure. -/
  | closure
deriving DecidableEq, Repr

/-- A place that names a procedure and has arguments for it. -/
structure CallSite where
  kind : SiteKind
  callee : ProcRef
  args : List ProgVar
deriving DecidableEq, Repr

namespace Goal

mutual

/-- The call sites of a goal, in order, those in lambda expressions
    included. -/
def callSites : Goal → List CallSite
  | .conj _ _ gs | .disj _ gs => callSitesList gs
  | .switch _ _ _ arms => callSitesArms arms
  | .negation _ g | .scope _ _ g => callSites g
  | .ite _ _ c y n => callSites c ++ callSites y ++ callSites n
  | .call _ callee _ args => [⟨.call, callee, args⟩]
  | .foreign _ code => [⟨.foreign, code.callee, code.args.map (·.var)⟩]
  | .unify _ _ (.functor (.closure callee) args) _ => [⟨.closure, callee, args⟩]
  | .unify .. | .genericCall .. => []
  | .lambda _ _ _ body _ => callSites body

def callSitesList : List Goal → List CallSite
  | [] => []
  | g :: gs => callSites g ++ callSitesList gs

def callSitesArms : List (Symbol × Goal) → List CallSite
  | [] => []
  | (_, g) :: arms => callSites g ++ callSitesArms arms

end

/-- The site that a goal without parts is. -/
def ownSites : Goal → List CallSite
  | .call _ callee _ args => [⟨.call, callee, args⟩]
  | .foreign _ code => [⟨.foreign, code.callee, code.args.map (·.var)⟩]
  | .unify _ _ (.functor (.closure callee) args) _ => [⟨.closure, callee, args⟩]
  | _ => []

theorem ownSites_ofAtoms : OfAtoms ownSites where
  info i g := by
    cases g with
    | unify i lhs rhs kind =>
      cases rhs with
      | var => rfl
      | functor f args => cases f <;> rfl
    | _ => rfl
  nil g hg := by
    cases g with
    | call | foreign | unify => cases hg
    | _ => rfl

section

-- The equations are proved here, before several proofs ask for them at once.
attribute [local simp] callSites callSitesList callSitesArms

theorem callSitesArms_eq (arms : List (Symbol × Goal)) :
    callSitesArms arms = callSitesList (arms.map Prod.snd) := by
  induction arms with
  | nil => rfl
  | cons arm arms ih => simp [ih]

theorem callSitesList_congr {gs : List Goal} (h : ∀ g ∈ gs, g.callSites = g.gather ownSites) :
    callSitesList gs = gatherList ownSites gs := by
  induction gs with
  | nil => rfl
  | cons g gs ih =>
    obtain ⟨hg, hgs⟩ := forall_mem_cons.1 h
    rw [callSitesList, gatherList, hg, ih hgs]

/-- The sites are gathered from the goals inside a goal. -/
theorem callSites_eq (g : Goal) : g.callSites = g.gather ownSites := by
  induction g using parts_induction with
  | step g ih =>
  have hparts : callSitesList g.parts = gatherList ownSites g.parts := callSitesList_congr ih
  cases g with
  | conj | disj => rwa [callSites, gather]
  | switch =>
    rw [callSites, gather, gatherArms_eq, callSitesArms_eq]
    exact hparts
  | negation | scope | lambda | ite =>
    simpa [gather, gatherList, parts, children, ownSites] using hparts
  | unify i lhs rhs kind =>
    rw [gather]
    cases rhs with
    | var => rfl
    | functor f args => cases f <;> rfl
  | call | genericCall | foreign => rw [gather]; rfl

end

theorem callSitesList_eq (gs : List Goal) : callSitesList gs = gatherList ownSites gs :=
  callSitesList_congr fun g _ => callSites_eq g

@[simp] theorem callSitesList_append (gs gs' : List Goal) :
    callSitesList (gs ++ gs') = callSitesList gs ++ callSitesList gs' := by
  simp only [callSitesList_eq, gatherList_append]

@[simp] theorem callSites_setInfo (i : GoalInfo) (g : Goal) :
    (g.setInfo i).callSites = g.callSites := by
  simp only [callSites_eq, gather_setInfo ownSites_ofAtoms.info]

@[simp] theorem callSites_conjoin (gs : List Goal) (context : Context) :
    (conjoin gs context).callSites = callSitesList gs := by
  rw [callSites_eq, callSitesList_eq, gather_conjoin ownSites_ofAtoms.info]

@[simp] theorem callSites_withSetup (setup : List Goal) (g : Goal) :
    (withSetup setup g).callSites = callSitesList setup ++ g.callSites := by
  simp only [callSites_eq, callSitesList_eq, gather_withSetup ownSites_ofAtoms.info]

theorem callSites_requantify (g : Goal) (outside : VarSet) :
    (g.requantify outside).callSites = g.callSites := by
  rw [callSites_eq, callSites_eq, ownSites_ofAtoms.requantify]

end Goal

/-! ### Sites that agree -/

/-- What becomes of a call site: the witnesses of the callee go in front of the
    arguments, each in the relation `Q` to its type. A closure that has
    witnesses becomes a call, with the arguments of the closure behind those
    that are captured. -/
inductive SiteAgrees (m : Module) (Q : Ty → ProgVar → Prop) : CallSite → CallSite → Prop
  | same {site : CallSite} {pred : Predicate}
      (pred_found : m.findPred? site.callee.pred = some pred)
      (no_witnesses : pred.witnessCount = 0) : SiteAgrees m Q site site
  | witnesses {kind : SiteKind} {callee : ProcRef} {args w : List ProgVar} {pred : Predicate}
      (pred_found : m.findPred? callee.pred = some pred) (takes_witnesses : pred.witnessCount ≠ 0)
      (not_closure : kind ≠ .closure) (arity : args.length = pred.argTypes.length)
      (typed : Forall₂ Q pred.witnessTypes w) :
      SiteAgrees m Q ⟨kind, callee, args⟩ ⟨kind, callee, w ++ args⟩
  | closure {callee : ProcRef} {captured args w : List ProgVar} {pred : Predicate}
      (pred_found : m.findPred? callee.pred = some pred) (takes_witnesses : pred.witnessCount ≠ 0)
      (arity : (captured ++ args).length = pred.argTypes.length)
      (typed : Forall₂ Q pred.witnessTypes w) :
      SiteAgrees m Q ⟨.closure, callee, captured⟩ ⟨.call, callee, w ++ (captured ++ args)⟩

/-- The sites of a goal before and after: one comes from the other, in the same
    order, but for the calls of accessors in set-ups. -/
inductive SitesAgree (R : CallSite → CallSite → Prop) : List CallSite → List CallSite → Prop
  | nil : SitesAgree R [] []
  | accessor {p : Primitive} {args : List ProgVar} {old new : List CallSite}
      (primitive : p ∈ dictionaryAccessors) (arity : args.length = 3)
      (rest : SitesAgree R old new) : SitesAgree R old (⟨.call, p.proc, args⟩ :: new)
  | cons {a b : CallSite} {old new : List CallSite} (head : R a b) (rest : SitesAgree R old new) :
      SitesAgree R (a :: old) (b :: new)

section

variable {R : CallSite → CallSite → Prop} {old old' new new' : List CallSite}

theorem SitesAgree.append (h : SitesAgree R old new) (h' : SitesAgree R old' new') :
    SitesAgree R (old ++ old') (new ++ new') := by
  induction h with
  | nil => exact h'
  | accessor hp ha _ ih => exact .accessor hp ha ih
  | cons hab _ ih => exact .cons hab ih

theorem SitesAgree.single {a b : CallSite} (h : R a b) : SitesAgree R [a] [b] := .cons h .nil

theorem SitesAgree.origin (h : SitesAgree R old new) {b : CallSite} (hb : b ∈ new) :
    (∃ a ∈ old, R a b) ∨
      ∃ p ∈ dictionaryAccessors, b.kind = .call ∧ b.callee = p.proc ∧ b.args.length = 3 := by
  induction h with
  | nil => cases hb
  | accessor hp ha _ ih =>
    rcases mem_cons.1 hb with rfl | hb
    · exact .inr ⟨_, hp, rfl, rfl, ha⟩
    · exact ih hb
  | cons hab _ ih =>
    rcases mem_cons.1 hb with rfl | hb
    · exact .inl ⟨_, mem_cons_self, hab⟩
    · rcases ih hb with ⟨a, ha, hab⟩ | hacc
      · exact .inl ⟨a, mem_cons_of_mem _ ha, hab⟩
      · exact .inr hacc

theorem Setup.sitesAgree {context : Context} {X : ProgVar → Prop} {goals : List Goal}
    (h : Setup context X goals bound) :
    SitesAgree R [] (Goal.callSitesList goals) := by
  induction h with
  | nil => exact .nil
  | @construct X v f args goals bound hf _ _ ih =>
    have hnone : (Goal.construct v f args context).callSites = [] := by
      cases f with
      | closure p => cases hf
      | _ => rfl
    rwa [Goal.callSitesList, hnone]
  | accessor hp _ _ ih =>
    rw [Goal.callSitesList]
    exact .accessor hp rfl ih

theorem Serves.sitesAgree {context : Context} {inputs outputs : List ProgVar} {setup : List Goal}
    (h : Serves context s inputs outputs setup s') :
    SitesAgree R [] (Goal.callSitesList setup) := by
  obtain ⟨bound, -, -, hs⟩ := h.block
  exact (hs (fun _ => True) ⟨fun _ _ _ => trivial, fun _ _ _ => trivial⟩).1.sitesAgree

theorem SitesAgree.withSetup {setup : List Goal} {core : Goal}
    (hs : SitesAgree R [] (Goal.callSitesList setup)) (hc : SitesAgree R old core.callSites) :
    SitesAgree R old (Goal.withSetup setup core).callSites := by
  rw [callSites_withSetup]
  exact hs.append hc

end

namespace Synth

variable {env : WitnessEnv}

theorem callGoal_sitesAgree {callee : ProcRef} {name : SymName}
    (h : Returns (callGoal env info callee name args) s g' s') (hQ : s.witnesses.All Q)
    (hnew : s.NewIn s' Q) {old : CallSite}
    (hold : ∀ pred, env.env.findPred? callee.pred = some pred →
      (pred.witnessCount = 0 → SiteAgrees env.env Q old ⟨.call, callee, args⟩) ∧
      (pred.witnessCount ≠ 0 → args.length = pred.argTypes.length →
        ∀ w, Forall₂ Q pred.witnessTypes w →
          SiteAgrees env.env Q old ⟨.call, callee, w ++ args⟩)) :
    SitesAgree (SiteAgrees env.env Q) [old] g'.callSites := by
  obtain ⟨pred, hpred, ⟨hz, rfl, rfl⟩ | ⟨hnz, w, parts, hw, rfl⟩⟩ := callGoal_cases h
  · exact .single ((hold pred (Module.pred_eq_ok.1 hpred)).1 hz)
  · refine hw.serves.sitesAgree.withSetup (.single ?_)
    exact (hold pred (Module.pred_eq_ok.1 hpred)).2 hnz hw.arity _ (hw.results Q hQ hnew).forall₂

theorem unifyGoal_sitesAgree {lhs : ProgVar} {rhs : UnifyRhs} {kind : Unification}
    (h : Returns (unifyGoal env info lhs rhs kind) s g' s') (hQ : s.witnesses.All Q)
    (hnew : s.NewIn s' Q) :
    SitesAgree (SiteAgrees env.env Q) (Goal.unify info lhs rhs kind).callSites g'.callSites := by
  cases rhs with
  | var v =>
    rcases unifyGoal_var_cases h with ⟨rfl, -⟩ | ⟨_, _, _, -, -, rfl⟩
    · exact .nil
    · exact .nil
  | functor f args =>
    cases f with
    | closure callee =>
      obtain ⟨pred, hpred, ⟨hz, rfl, -⟩ |
        ⟨hnz, head, name, s₁, callInfo, body, captured, hhead, -, -, hbody, rfl⟩⟩ :=
        unifyGoal_closure_cases h
      · exact .single (.same (Module.pred_eq_ok.1 hpred) hz)
      · -- The lambda expression has one site, its call.
        obtain ⟨-, hnew₁⟩ := hnew.mono hhead.grows.vars.size_le (callGoal_advances hbody).vars
        refine callGoal_sitesAgree hbody (hhead.witnesses ▸ hQ) hnew₁ fun pred' hpred' => ?_
        obtain rfl : pred' = pred := by
          rw [Module.pred_eq_ok.1 hpred, Option.some.injEq] at hpred'
          exact hpred'.symm
        exact ⟨fun hz => absurd hz hnz, fun _ harity _ htyped => .closure hpred' hnz harity htyped⟩
    | cons name arity =>
      rcases consGoal_cases h with ⟨rfl, -⟩ | ⟨_, _, _, hs, -, rfl⟩
      · exact .nil
      · exact hs.sitesAgree.withSetup .nil
    | _ =>
      obtain ⟨rfl, -⟩ := returns_pure.1 h
      exact .nil

theorem foreignGoal_sitesAgree {code : ForeignCode}
    (h : Returns (foreignGoal env info code) s g' s') (hQ : s.witnesses.All Q)
    (hnew : s.NewIn s' Q) :
    SitesAgree (SiteAgrees env.env Q) (Goal.foreign info code).callSites g'.callSites := by
  obtain ⟨pred, hpred, ⟨hz, rfl, -⟩ | ⟨hnz, w, parts, hw, rfl⟩⟩ := foreignGoal_cases h
  · exact .single (.same (Module.pred_eq_ok.1 hpred) hz)
  · refine hw.serves.sitesAgree.withSetup ?_
    rw [Goal.callSites, Goal.callSites, map_append, map_var_foreignWitnesses]
    exact .single (.witnesses (Module.pred_eq_ok.1 hpred) hnz (by decide) hw.arity
      (hw.results Q hQ hnew).forall₂)

theorem Worked.sitesAgree {gs gs' : List Goal} (h : Worked env s gs gs' s')
    (ih : ∀ g ∈ gs, ∀ {g' s s'}, Returns (goal env g) s g' s' → s.witnesses.All Q → s.NewIn s' Q →
      SitesAgree (SiteAgrees env.env Q) g.callSites g'.callSites)
    (hQ : s.witnesses.All Q) (hnew : s.NewIn s' Q) :
    SitesAgree (SiteAgrees env.env Q) (Goal.callSitesList gs) (Goal.callSitesList gs') := by
  induction h with
  | nil => exact .nil
  | cons hrun hruns ih' =>
    obtain ⟨hg, hgs⟩ := forall_mem_cons.1 ih
    have hgrows := goal_grows _ hrun
    obtain ⟨hnew₁, hnew₂⟩ := hnew.mono hgrows.vars.size_le hruns.grows.vars
    rw [Goal.callSitesList, Goal.callSitesList]
    exact (hg hrun hQ hnew₁).append (ih' hgs (hgrows.records Q hQ hnew₁) hnew₂)

/-- The call sites of a body, before and after. -/
theorem goal_sitesAgree (g : Goal) : ∀ {g' s s'}, Returns (goal env g) s g' s' →
    s.witnesses.All Q → s.NewIn s' Q →
      SitesAgree (SiteAgrees env.env Q) g.callSites g'.callSites := by
  induction g using parts_induction with
  | step g ih =>
  intro g' s s' h hQ hnew
  cases g with
  | conj | disj | switch | negation | scope | ite =>
    obtain ⟨gs', _, hr, hfill⟩ := returns_compound rfl h
    obtain ⟨hold, hnow⟩ := ownSites_ofAtoms.refilled hfill
    rw [callSites_eq, callSites_eq, hold, hnow, ← callSitesList_eq, ← callSitesList_eq]
    exact hr.worked.sitesAgree ih hQ hnew
  | lambda =>
    obtain ⟨body', captured, hb, -, rfl⟩ := returns_lambda h
    rw [Goal.callSites, Goal.callSites]
    exact ih _ mem_cons_self hb hQ hnew
  | call =>
    rw [goal] at h
    exact callGoal_sitesAgree h hQ hnew fun pred hpred =>
      ⟨.same hpred, fun hnz harity _ htyped => .witnesses hpred hnz (by decide) harity htyped⟩
  | genericCall =>
    rw [goal] at h
    rcases genericGoal_cases h with ⟨rfl, -⟩ | ⟨_, _, hm, rfl⟩
    · exact .nil
    · exact hm.sitesAgree.withSetup .nil
  | foreign => exact foreignGoal_sitesAgree (by rwa [goal] at h) hQ hnew
  | unify => exact unifyGoal_sitesAgree (by rwa [goal] at h) hQ hnew

theorem callSitesList_assigns (targets sources : List ProgVar) (context : Context) :
    Goal.callSitesList (Goal.assigns targets sources context) = [] := by
  rw [Goal.assigns]
  induction targets.zip sources with
  | nil => rfl
  | cons p ps ih => rw [map_cons, Goal.callSitesList, ih]; rfl

theorem procedure_sitesAgree (h : Returns (procedure env pred proc) s (out, body) s')
    (himported : pred.status ≠ .imported) (hQ : s.witnesses.All Q) (hnew : s.NewIn s' Q) :
    SitesAgree (SiteAgrees env.env Q) proc.body.callSites body.callSites := by
  obtain ⟨s₁, hhead, ⟨himp, -⟩ | ⟨-, g, s₂, existentials, hg, hex, g', rfl, hbody⟩⟩ :=
    procedure_cases h
  · exact absurd himp himported
  obtain ⟨parts, hparts⟩ := setupHead_cases hhead
  have hgrows := goal_grows proc.body hg
  -- What is added behind the body calls nothing but accessors.
  have hexistentials : s₂.Grows s' ∧
      SitesAgree (SiteAgrees env.env Q) [] (Goal.callSitesList existentials) := by
    rcases produceExistentials_cases hex with ⟨rfl, rfl⟩ | ⟨_, _, _, _, _, hm₁, hm₂, -, -, rfl⟩
    · exact ⟨.refl _, .nil⟩
    · refine ⟨(hm₁.advances.trans hm₂.advances).toGrows, ?_⟩
      simp only [callSitesList_append, callSitesList_assigns, append_nil]
      exact hm₁.sitesAgree.append hm₂.sitesAgree
  obtain ⟨hnew₁, hnew'⟩ := hnew.mono hparts.grows.vars.size_le (hgrows.trans hexistentials.1).vars
  obtain ⟨hnew₂, -⟩ := hnew'.mono hgrows.vars.size_le hexistentials.1.vars
  have hsites := goal_sitesAgree proc.body hg (hparts.grows.records Q hQ hnew₁) hnew₂
  rw [apply_body_eq (fun g => (append_nil _).symm) callSites_conjoin
    callSites_requantify hbody, Goal.callSitesList]
  simpa using hsites.append hexistentials.2

end Synth

/-! ### Modules -/

theorem SitesAgree.imp {R R' : CallSite → CallSite → Prop} {old new : List CallSite}
    (h : SitesAgree R old new) (hR : ∀ a b, R a b → R' a b) : SitesAgree R' old new := by
  induction h with
  | nil => exact .nil
  | accessor hp ha _ ih => exact .accessor hp ha ih
  | cons hab _ ih => exact .cons (hR _ _ hab) ih

theorem SiteAgrees.of_sameDecls {a b : CallSite} (hd : m.SameDecls env) (h : SiteAgrees env Q a b) :
    SiteAgrees m Q a b := by
  cases h with
  | same hfound hz =>
    obtain ⟨p, hp, hpq⟩ := hd.of_findPred? hfound
    exact .same hp (hpq.witnessCount_eq ▸ hz)
  | witnesses hfound hnz hkind harity htyped =>
    obtain ⟨p, hp, hpq⟩ := hd.of_findPred? hfound
    exact .witnesses hp (hpq.witnessCount_eq ▸ hnz) hkind (hpq.argTypes_eq ▸ harity)
      (hpq.witnessTypes_eq ▸ htyped)
  | closure hfound hnz harity htyped =>
    obtain ⟨p, hp, hpq⟩ := hd.of_findPred? hfound
    exact .closure hp (hpq.witnessCount_eq ▸ hnz) (hpq.argTypes_eq ▸ harity)
      (hpq.witnessTypes_eq ▸ htyped)

theorem SiteAgrees.length_args {a b : CallSite} (h : SiteAgrees m Q a b) (hb : b.kind ≠ .closure)
    (ha : a.kind ≠ .closure → ∀ callee ∈ m.findPred? a.callee.pred,
      a.args.length = callee.argTypes.length) :
    ∃ callee, m.findPred? b.callee.pred = some callee ∧
      b.args.length = callee.witnessCount + callee.argTypes.length := by
  have hcount : ∀ {callee : Predicate} {w args : List ProgVar}, callee.witnessCount ≠ 0 →
      Forall₂ Q callee.witnessTypes w → args.length = callee.argTypes.length →
      (w ++ args).length = callee.witnessCount + callee.argTypes.length := by
    intro callee w args hnz hw hargs
    have hexempt : callee.isExempt = false := by
      cases hex : callee.isExempt with
      | true => exact absurd (if_pos hex) hnz
      | false => rfl
    rw [length_append, ← hw.length_eq, Predicate.length_witnessTypes hexempt, hargs]
  cases h with
  | same hfound hz => exact ⟨_, hfound, by rw [ha hb _ hfound, hz, Nat.zero_add]⟩
  | witnesses hfound hnz _ harity hw => exact ⟨_, hfound, hcount hnz hw harity⟩
  | closure hfound hnz harity hw => exact ⟨_, hfound, hcount hnz hw harity⟩

/-- What the records of a procedure name are variables of the right types, as
    they are if there is nothing on record. -/
def Procedure.TypedRecords (proc : Procedure) : Prop :=
  proc.witnesses.All fun type v => proc.vars.type v = .ok type

namespace Module

variable {m m' : Module} {r : ProcRef} {pred : Predicate} {proc : Procedure}

/-- Heads, modes and calls are as long as what is declared. -/
structure Consistent (m : Module) : Prop where
  heads : ∀ pred ∈ m.preds, ∀ proc ∈ pred.procs,
    proc.head.length = pred.argTypes.length ∧ proc.modes.length = pred.argTypes.length
  calls : ∀ pred ∈ m.preds, ∀ proc ∈ pred.procs, ∀ site ∈ proc.body.callSites,
    site.kind ≠ .closure → ∀ callee ∈ m.findPred? site.callee.pred,
      site.args.length = callee.argTypes.length

/-- The accessors of dictionaries are declared where every module declares
    them. -/
def DeclaresAccessors (m : Module) : Prop :=
  ∀ p ∈ dictionaryAccessors, m.findPred? p.pred = some p.toPredicate

theorem witnessCount_accessor : ∀ p ∈ dictionaryAccessors, p.toPredicate.witnessCount = 0 :=
  forall_accessor rfl rfl

theorem mem_of_findProc? (h : m.findProc? r = some (pred, proc)) :
    pred ∈ m.preds ∧ proc ∈ pred.procs :=
  have ⟨hpred, hproc⟩ := findProc?_eq_some.1 h
  ⟨Array.mem_of_getElem? hpred, Array.mem_of_getElem? hproc⟩

theorem Changes.length_head (h : Changes m r proc env p out body s) (hsame : pred.SameDecl p) :
    out.head.length = pred.witnessTypes.length + proc.head.length ∧
      out.modes.length = pred.witnessTypes.length + proc.modes.length := by
  obtain ⟨w, hhead, hmodes, hw⟩ := h.head
  rw [hhead, hmodes, length_append, length_append, ← hw.length_eq, hsame.witnessTypes_eq,
    hsame.witnessModes_eq]
  simp [Predicate.witnessModes, Predicate.witnessTypes, Nat.add_assoc]

/-- Head, modes and argument types grow by the same witnesses. -/
theorem Consistent.length_head (hm : m.Consistent) (h : m.addWitnesses = .ok m')
    (hr : m.findProc? r = some (pred, proc)) {pred' : Predicate} {proc' : Procedure}
    (hr' : m'.findProc? r = some (pred', proc')) :
    proc'.head.length = pred'.argTypes.length ∧ proc'.modes.length = pred'.argTypes.length ∧
      pred'.argTypes.length = pred.witnessCount + pred.argTypes.length := by
  obtain ⟨p, k, hrk, hexempt, hnonexempt⟩ := addWitnesses_proc h hr
  rw [hr', Option.some.injEq, Prod.mk.injEq] at hrk
  obtain ⟨rfl, rfl⟩ := hrk
  obtain ⟨hpred, hproc⟩ := mem_of_findProc? hr
  obtain ⟨hhead, hmodes⟩ := hm.heads pred hpred proc hproc
  cases hex : pred.isExempt with
  | true =>
    obtain ⟨htypes, rfl⟩ := hexempt hex
    rw [htypes, Predicate.witnessCount, if_pos hex, Nat.zero_add]
    exact ⟨hhead, hmodes, rfl⟩
  | false =>
    obtain ⟨htypes, env, q, out, body, s, hc, hsame, rfl⟩ := hnonexempt hex
    obtain ⟨hhead', hmodes'⟩ := hc.length_head hsame
    rw [htypes, length_append, ← Predicate.length_witnessTypes hex, ← hhead]
    exact ⟨hhead', hmodes'.trans (by rw [hmodes, hhead]), rfl⟩

theorem Changes.sitesAgree (h : Changes m r proc env p out body s)
    (himported : p.status ≠ .imported) :
    SitesAgree (SiteAgrees m fun type v => proc.TypedRecords → s.vars.type v = .ok type)
      proc.body.callSites body.callSites := by
  obtain ⟨s₁, parts, hparts, hgrows⟩ := Synth.procedure_head h.returns
  have hext : proc.vars.Extends s.vars := hparts.grows.vars.trans hgrows.vars
  refine (Synth.procedure_sitesAgree h.returns himported ?_ fun _ _ _ ht _ => ht).imp
    fun a b hab => hab.of_sameDecls h.decls
  exact ⟨fun t source ht hrec => hext.type_eq (hrec.1 t source ht),
    fun c v hc hrec => hext.type_eq (hrec.2 c v hc)⟩

theorem DeclaresAccessors.length_args (hacc : m.DeclaresAccessors) {p : Primitive}
    (hp : p ∈ dictionaryAccessors) :
    ∃ callee, m.findPred? p.proc.pred = some callee ∧
      3 = callee.witnessCount + callee.argTypes.length := by
  refine ⟨_, hacc p hp, ?_⟩
  rw [witnessCount_accessor p hp, Nat.zero_add]
  exact forall_accessor (P := fun p => 3 = p.toPredicate.argTypes.length) rfl rfl p hp

theorem Consistent.length_args (hm : m.Consistent) (hacc : m.DeclaresAccessors)
    (h : m.addWitnesses = .ok m') (hr : m.findProc? r = some (pred, proc)) {new : List CallSite}
    (hsites : SitesAgree (SiteAgrees m Q) proc.body.callSites new) {site : CallSite}
    (hsite : site ∈ new) (hkind : site.kind ≠ .closure) {callee : Predicate} {target : Procedure}
    (hcallee : m'.findProc? site.callee = some (callee, target)) :
    site.args.length = target.head.length := by
  obtain ⟨hpred, hproc⟩ := mem_of_findProc? hr
  have hlength : ∃ q, m.findPred? site.callee.pred = some q ∧
      site.args.length = q.witnessCount + q.argTypes.length := by
    rcases hsites.origin hsite with ⟨a, ha, hab⟩ | ⟨p, hp, -, hcallee, hargs⟩
    · exact hab.length_args hkind (hm.calls pred hpred proc hproc a ha)
    · rw [hcallee, hargs]
      exact hacc.length_args hp
  obtain ⟨q, hq, hargs⟩ := hlength
  obtain ⟨q', k, hk⟩ := findProc?_of_addWitnesses h hcallee
  obtain rfl : q' = q := Option.some.inj ((findProc?_eq_some.1 hk).1.symm.trans hq)
  obtain ⟨hhead, -, htypes⟩ := hm.length_head h hk hcallee
  rw [hargs, hhead, htypes]

/-- Calls and declarations agree after the pass. Procedures that take witnesses
    have them in front, in the order and of the modes and types that the
    declaration says, and every call in a body passes what its callee takes. -/
theorem calls_agree_with_declarations (hm : m.Consistent) (hacc : m.DeclaresAccessors)
    (h : m.addWitnesses = .ok m') (hr : m.findProc? r = some (pred, proc)) :
    ∃ pred' proc', m'.findProc? r = some (pred', proc') ∧
      proc'.head.length = pred'.argTypes.length ∧ proc'.modes.length = pred'.argTypes.length ∧
      (pred.isExempt = true → pred'.argTypes = pred.argTypes ∧ proc' = proc) ∧
      (pred.isExempt = false →
        pred'.argTypes = pred.witnessTypes ++ pred.argTypes ∧
        proc'.modes = pred.witnessModes ++ proc.modes ∧
        ∃ w, proc'.head = w ++ proc.head ∧
          List.Forall₂ (fun type v => proc.vars.size ≤ v.index ∧ proc'.vars.type v = .ok type)
            pred.witnessTypes w) ∧
      (pred.isExempt = false → pred.status ≠ .imported →
        SitesAgree (SiteAgrees m fun type v => proc.TypedRecords → proc'.vars.type v = .ok type)
          proc.body.callSites proc'.body.callSites ∧
        ∀ site ∈ proc'.body.callSites, site.kind ≠ .closure →
          ∀ callee target, m'.findProc? site.callee = some (callee, target) →
            site.args.length = target.head.length) := by
  obtain ⟨pred', proc', hr', hexempt, hnonexempt⟩ := addWitnesses_proc h hr
  obtain ⟨hhead, hmodes, -⟩ := hm.length_head h hr hr'
  refine ⟨pred', proc', hr', hhead, hmodes, hexempt, fun hex => ?_, fun hex himported => ?_⟩
  · obtain ⟨htypes, env, p, out, body, s, hc, hsame, rfl⟩ := hnonexempt hex
    obtain ⟨w, hw, hwmodes, hwtypes⟩ := hc.head
    exact ⟨htypes, hsame.witnessModes_eq ▸ hwmodes, w, hw, hsame.witnessTypes_eq ▸ hwtypes⟩
  · obtain ⟨-, env, p, out, body, s, hc, hsame, rfl⟩ := hnonexempt hex
    have hsites := hc.sitesAgree (hsame.status_eq ▸ himported)
    exact ⟨hsites, fun site hsite hkind callee target hcallee =>
      hm.length_args hacc h hr hsites hsite hkind hcallee⟩

end Module

/-! ### An example -/

/-- What a check finds of a procedure that comes out of a pass. -/
theorem Module.of_ok_any {result : Except Fault Module} {r : ProcRef}
    {check : Module → Procedure → Bool}
    (h : result.toOption.any (fun m' => (m'.findProc? r).any fun p => check m' p.2) = true) :
    ∃ m' pred' proc', result = .ok m' ∧ m'.findProc? r = some (pred', proc') ∧
      check m' proc' = true := by
  cases result with
  | error e => cases h
  | ok m' =>
    rw [Except.toOption, Option.any_some] at h
    obtain ⟨⟨pred', proc'⟩, hr, hcheck⟩ := (Option.any_eq_true _ _).1 h
    exact ⟨m', pred', proc', rfl, hr, hcheck⟩

namespace HiddenType

def context : Context := ⟨"hidden.m", 1⟩

/-- A predicate of the module `hidden`. -/
def declared (d : PredDecl) (body : Goal) : Predicate := (Module.start "hidden").declared d body

/-- Makes a value and does not tell its type. -/
def make : Predicate :=
  declared
    { name := "make"
      scope := .ofNames ["T"]
      args := [{ ArgDecl.output "X" (.var ⟨0⟩) with bodyType := some .int }]
      existVars := [⟨0⟩] }
    (.intConst ⟨0⟩ 42 context)

/-- Takes a value of any type. -/
def take : Predicate :=
  declared { name := "take", scope := .ofNames ["T"], args := [.input "X" (.var ⟨0⟩)] }
    (.success context)

/-- `make(X), take(X), F = take`. -/
def runBody : Goal :=
  .conjoin
    [.callProc ⟨⟨2⟩, ⟨0⟩⟩ make.symName [⟨0⟩] [⟨0⟩] {} context,
     .callProc ⟨⟨3⟩, ⟨0⟩⟩ take.symName [⟨0⟩] [] {} context,
     .construct ⟨1⟩ (.closure ⟨⟨3⟩, ⟨0⟩⟩) [] context] context

def run : Predicate :=
  declared
    { name := "run"
      scope := .ofNames ["A"]
      locals := [.named "X" (.var ⟨0⟩), .named "F" (.higherOrder .predicate [.var ⟨0⟩])] }
    runBody

/-- `X = Y`, with a type-info that nobody has recorded. -/
def sameBody : Goal :=
  .exposeFree (.unify { context, determinism := .semidet } ⟨0⟩ (.var ⟨1⟩) (.complicated true [⟨2⟩]))

def same : Predicate :=
  declared
    { name := "same"
      args := [.input "X" .int, .input "Y" .int, .input "Info" .typeInfo]
      determinism := .semidet }
    sameBody

/-- A module in which numbers are compared. -/
def comparing : Module :=
  { name := "hidden"
    preds := #[Primitive.typeInfoFromDictionary.toPredicate,
      Primitive.superclassFromDictionary.toPredicate, same] }

/-- A module in which a value of a hidden type is passed on. -/
def hidden : Module :=
  { name := "hidden"
    preds := #[Primitive.typeInfoFromDictionary.toPredicate,
      Primitive.superclassFromDictionary.toPredicate, make, take, run] }

theorem consistent_hidden : hidden.Consistent := ⟨by decide, by decide⟩

theorem declaresAccessors_hidden : hidden.DeclaresAccessors := forall_accessor rfl rfl

/-- All that `run` calls gets what it takes. -/
theorem calls_agree_with_declarations_run : ∃ m' pred' proc',
    hidden.addWitnesses = .ok m' ∧ m'.findProc? ⟨⟨4⟩, ⟨0⟩⟩ = some (pred', proc') ∧
      ∀ site ∈ proc'.body.callSites, site.kind ≠ .closure →
        ∀ callee target, m'.findProc? site.callee = some (callee, target) →
          site.args.length = target.head.length := by
  obtain ⟨m', hm'⟩ : ∃ m', hidden.addWitnesses = .ok m' := exists_of_isOk (by decide +kernel)
  obtain ⟨pred', proc', hr, -, -, -, -, hcalls⟩ := Module.calls_agree_with_declarations
    (r := ⟨⟨4⟩, ⟨0⟩⟩) consistent_hidden declaresAccessors_hidden hm' rfl
  exact ⟨m', pred', proc', hm', hr, (hcalls (by decide +kernel) (by decide)).2⟩

end HiddenType

end Clausal
