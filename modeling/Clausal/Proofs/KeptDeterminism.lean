import Clausal.Proofs.Annotations
import Clausal.Proofs.Captures

/-!
# Determinism and witnesses

Set-up goals are `det`, so they make no difference to what a goal promises. But
where a goal and its set-up stand on their own, their determinism is worked out
from promises, and a determinism that commits to a solution does not come out of
that (`Determinism.uncommitted`).
-/

namespace Clausal

open List Determinism Goal

variable {g g' last : Goal} {gs gs' setup : List Goal}

/-- The determinism that makes the same promises and does not commit. -/
def Determinism.uncommitted (d : Determinism) : Determinism := ofParts d.canFail d.maxSolutions

theorem Determinism.uncommitted_conjoin (a b : Determinism) :
    (a.conjoin b).uncommitted = a.conjoin b := by
  cases a <;> cases b <;> rfl

theorem Determinism.conjoin_eq_uncommitted (d : Determinism) : d.conjoin .det = d.uncommitted := by
  cases d <;> rfl

theorem Goal.sequenced_single (g : Goal) : sequenced [g] = g.info.determinism.uncommitted := by
  show Determinism.det.conjoin g.info.determinism = _
  cases g.info.determinism <;> rfl

theorem Goal.uncommitted_sequenced (gs : List Goal) :
    (sequenced gs).uncommitted = sequenced gs := by
  cases gs with
  | nil => rfl
  | cons g gs => rw [← singleton_append, sequenced_append, uncommitted_conjoin]

theorem Goal.sequenced_det (h : ∀ g ∈ gs, g.info.determinism = .det) : sequenced gs = .det := by
  induction gs with
  | nil => rfl
  | cons g gs ih =>
    obtain ⟨hg, hgs⟩ := forall_mem_cons.1 h
    rw [← singleton_append, sequenced_append, ih hgs, sequenced_single, hg]
    rfl

theorem Goal.sequenced_setup (h : ∀ k ∈ setup, k.info.determinism = .det) (last : Goal) :
    sequenced (setup ++ [last]) = last.info.determinism.uncommitted := by
  rw [sequenced_append, sequenced_det h, sequenced_single]
  cases last.info.determinism <;> rfl

/-- What becomes of a goal when the witnesses in it are made explicit, as far as
    determinism goes. -/
inductive Redone : Goal → Goal → Prop
  | kept {g g' : Goal} (atom : g.isAtom) (single : g'.conjuncts = [g'])
      (same : g'.info.determinism = g.info.determinism) : Redone g g'
  /-- A goal behind its set-up is what it was, and the conjunction promises the same. -/
  | setup {g last : Goal} {setup : List Goal} {i : GoalInfo} (atom : g.isAtom)
      (det : ∀ k ∈ setup, k.info.determinism = .det)
      (same : last.info.determinism = g.info.determinism)
      (whole : i.determinism = g.info.determinism.uncommitted) :
      Redone g (.conj i .plain (setup ++ [last]))
  | conj {i i' : GoalInfo} {gs gs' : List Goal} (parts : Forall₂ Redone gs gs')
      (same : i'.determinism = i.determinism) :
      Redone (.conj i .plain gs) (.conj i' .plain (gs'.flatMap conjuncts))
  | node {g g' : Goal} (parts : Forall₂ Redone g.parts g'.parts) (single : g'.conjuncts = [g'])
      (same : g'.info.determinism = g.info.determinism) : Redone g g'

theorem Redone.withSetup (atom : g.isAtom) (hlast : last.isAtom)
    (hsetup : ∀ k ∈ setup, k.isAtom ∧ k.info.determinism = .det)
    (same : last.info.determinism = g.info.determinism) : Redone g (.withSetup setup last) := by
  by_cases hne : setup = []
  · rw [hne]
    exact .kept atom (conjuncts_of_isAtom hlast) same
  have hatoms : ∀ k ∈ setup ++ [last], k.isAtom :=
    forall_mem_append.2 ⟨fun k hk => (hsetup k hk).1, by simpa using hlast⟩
  have hdet : ∀ k ∈ setup, k.info.determinism = .det := fun k hk => (hsetup k hk).2
  obtain ⟨i, hi⟩ := withSetup_eq_conj hne hatoms
  rw [hi]
  refine .setup atom hdet same ?_
  have hwhole : (Goal.withSetup setup last).info.determinism = sequenced (setup ++ [last]) := by
    rw [Goal.withSetup, if_neg (by simpa using hne), Goal.conjoin,
      flatMap_conjuncts_of_isAtom hatoms]
    split
    · next k hk =>
      have := congrArg length hk
      simp [hne] at this
    · rfl
  rwa [hi, sequenced_setup hdet, same] at hwhole

theorem Redone.determinism_eq (h : Redone g g') : g'.info.determinism = g.info.determinism ∨
    g'.info.determinism = g.info.determinism.uncommitted := by
  cases h with
  | kept _ _ same | node _ _ same | conj _ same => exact .inl same
  | setup _ _ _ whole => exact .inr whole

/-- What is known of a goal's determinism is what its conjuncts promise, none of
    which is a conjunction. -/
structure Goal.Flat (g : Goal) : Prop where
  promised : g.info.determinism.uncommitted = sequenced g.conjuncts
  flat : ∀ k ∈ g.conjuncts, ∀ i ks, k ≠ .conj i .plain ks

theorem Redone.promises (h : Redone g g')
    (hconj : ∀ i gs gs', g = .conj i .plain gs → Forall₂ Redone gs gs' →
      sequenced (gs'.flatMap conjuncts) = i.determinism.uncommitted) :
    sequenced g'.conjuncts = g.info.determinism.uncommitted := by
  cases h with
  | kept _ single same | node _ single same => rw [single, sequenced_single, same]
  | setup _ det same _ => rw [conjuncts, sequenced_setup det, same]
  | conj parts _ => exact hconj _ _ _ rfl parts

theorem Redone.sequenced_flatMap (h : Forall₂ Redone gs gs')
    (hgs : ∀ g ∈ gs, ∀ i ks, g ≠ .conj i .plain ks) :
    sequenced (gs'.flatMap conjuncts) = sequenced gs := by
  induction h with
  | nil => rfl
  | @cons g g' gs gs' hg _ ih =>
    obtain ⟨hfirst, hrest⟩ := forall_mem_cons.1 hgs
    rw [flatMap_cons, sequenced_append, hg.promises fun i ks _ heq => absurd heq (hfirst i ks),
      ih hrest, ← sequenced_single, ← sequenced_append, singleton_append]

/-- Goals behind a body that are `det` make no difference to its promises. -/
theorem Goal.determinism_conjoin_after (hne : gs ≠ [])
    (hgs : ∀ k ∈ gs, k.isAtom ∧ k.info.determinism = .det) (context : Context) :
    (conjoin (g :: gs) context).info.determinism = sequenced g.conjuncts := by
  rw [Goal.conjoin, flatMap_cons, flatMap_conjuncts_of_isAtom fun k hk => (hgs k hk).1]
  split
  · next k hk =>
    rcases append_eq_singleton_iff.1 hk with ⟨hnil, rfl⟩ | ⟨-, rfl⟩
    · rw [hnil, (hgs k mem_cons_self).2]
      rfl
    · exact absurd rfl hne
  · show sequenced (_ ++ _) = _
    rw [sequenced_append, sequenced_det fun k hk => (hgs k hk).2, conjoin_eq_uncommitted,
      uncommitted_sequenced]

namespace Synth

variable {env : WitnessEnv} {s s' : WitnessState} {vars : VarSet}

theorem Worked.redone {gs gs' : List Goal} (h : Worked env s gs gs' s')
    (ih : ∀ c ∈ gs, ∀ {s g' s'}, Returns (goal env c) s g' s' → Redone c g') :
    Forall₂ Redone gs gs' := by
  induction h with
  | nil => exact .nil
  | cons hg _ ih' =>
    exact .cons (ih _ mem_cons_self hg) (ih' fun c hc => ih c (mem_cons_of_mem _ hc))

theorem goal_redone (g : Goal) : ∀ {s g' s'}, Returns (goal env g) s g' s' → Redone g g' := by
  induction g using parts_induction with
  | step g ih =>
  intro s g' s' h
  rcases g.shape with hg | ⟨_, _, _, _, _, rfl⟩ | hg
  · obtain ⟨gs', _, hr, hfill⟩ := returns_compound hg h
    have hparts := hr.worked.redone ih
    cases hfill with
    | @conj i k =>
      cases k with
      | plain => exact .conj hparts rfl
      | parallel => exact .node hparts rfl rfl
    | _ => exact .node hparts rfl rfl
  · obtain ⟨body', captured, hb, -, rfl⟩ := returns_lambda h
    exact .node (.cons (ih _ mem_cons_self hb) .nil) rfl rfl
  · rcases atom_cases hg h with ⟨_, _, _, _, hs, hcore, rfl⟩ |
      ⟨_, _, _, _, _, _, _, _, _, _, _, rfl, -, -, -, -, rfl⟩
    · exact .withSetup hg hcore.atom hs.plain hcore.determinism
    · exact .kept rfl rfl rfl

end Synth

/-- The goals of a body are redone, `det` goals behind it bind the witnesses that
    it gives back, and the whole may be quantified anew. If there are no such goals,
    or if the body was annotated with what its conjuncts promise, it promises what it
    did, and is of the same determinism unless that commits to a solution. -/
theorem Module.bodies_keep_promises {m m' : Module} {r : ProcRef} {pred : Predicate}
    {proc : Procedure} (h : m.addWitnesses = .ok m') (hr : m.findProc? r = some (pred, proc))
    (hexempt : pred.isExempt = false) (himported : pred.status ≠ .imported) :
    ∃ pred' proc' before after whole, m'.findProc? r = some (pred', proc') ∧
      Redone proc.body before ∧ (∀ k ∈ after, k.isAtom ∧ k.info.determinism = .det) ∧
      (whole = if after.isEmpty then before
        else .conjoin (before :: after) proc.body.info.context) ∧
      (proc'.body = whole ∨ proc'.body = whole.requantify (.ofList proc'.head)) ∧
      (after = [] ∨ proc.body.Flat →
        proc'.body.info.determinism = proc.body.info.determinism ∨
          proc'.body.info.determinism = proc.body.info.determinism.uncommitted) := by
  obtain ⟨pred', proc', hr', -, hchanged⟩ := addWitnesses_proc h hr
  obtain ⟨-, env, p, out, body, s, hc, hsame, rfl⟩ := hchanged hexempt
  obtain ⟨s₁, -, ⟨himp, -⟩ | ⟨-, before, s₂, after, hg, hex, whole, hwhole, hbody⟩⟩ :=
    Synth.procedure_cases hc.returns
  · exact absurd himp (hsame.status_eq ▸ himported)
  have hredone := Synth.goal_redone _ hg
  have hafter := Synth.produceExistentials_plain hex
  refine ⟨pred', _, before, after, whole, hr', hredone, hafter, hwhole, hbody, fun hflat => ?_⟩
  have hquantified : body.info.determinism = whole.info.determinism := by
    rcases hbody with rfl | rfl
    · rfl
    · cases whole <;> rw [Goal.requantify] <;> rfl
  show body.info.determinism = _ ∨ body.info.determinism = _
  rw [hquantified, hwhole]
  split
  · exact hredone.determinism_eq
  · next hne =>
    have hne : after ≠ [] := by simpa using hne
    replace hflat := hflat.resolve_left hne
    right
    rw [determinism_conjoin_after hne hafter]
    refine hredone.promises fun i gs gs' heq parts => ?_
    rw [heq] at hflat
    exact (Redone.sequenced_flatMap parts hflat.flat).trans hflat.promised.symm

/-! ### An example -/

namespace HiddenType

/-- `make` gives back the type of its value, and is `det` as before. -/
theorem make_stays_det : ∃ m' pred' proc', holding.addWitnesses = .ok m' ∧
    m'.findProc? ⟨⟨2⟩, ⟨0⟩⟩ = some (pred', proc') ∧ proc'.body.info.determinism = .det := by
  obtain ⟨m', -, -, hm', -⟩ := make_setupVars
  have hmake : holding.findProc? ⟨⟨2⟩, ⟨0⟩⟩ = some (make, make.procs[0]) := rfl
  obtain ⟨pred', proc', _, _, _, hr', -, -, -, -, hdet⟩ := Module.bodies_keep_promises hm' hmake
    (by decide +kernel) (by decide)
  have hflat : (make.procs[0]).body.Flat :=
    ⟨by decide, fun k hk i ks => by rw [mem_singleton.1 hk]; exact Goal.noConfusion⟩
  exact ⟨m', pred', proc', hm', hr', (hdet (.inr hflat)).elim id id⟩

/-- Takes a number, and commits to the first of many solutions. -/
def commit : Predicate :=
  declared { name := "commit", args := [.input "X" .int], determinism := .ccMulti }
    (.callProc ⟨⟨3⟩, ⟨0⟩⟩ take.symName [⟨0⟩] [] { determinism := .ccMulti } context)

/-- With a type-info to be made for it, the call is no longer said to commit. -/
theorem commit_becomes_det : ∃ m' pred' proc',
    ({ holding with preds := holding.preds.push commit } : Module).addWitnesses = .ok m' ∧
      m'.findProc? ⟨⟨5⟩, ⟨0⟩⟩ = some (pred', proc') ∧
      (proc'.body.info.determinism == .det && proc'.determinism == .ccMulti) = true :=
  Module.of_ok_any (by decide +kernel)

end HiddenType

end Clausal
