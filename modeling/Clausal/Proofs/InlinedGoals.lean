import Clausal.Proofs.CallSites
import Clausal.Proofs.Effects
import Clausal.Tabling.Pass

/-!
# Goals with inline code for primitives

A primitive is reached by a plain call or by inline foreign code. Two goals that
are built in the same way, the one from plain calls and the other from inline
code, have the same shape, and almost the same is known of them
(`Goal.Inlines`). The exception are primitives that never succeed: a plain call
of one is known not to, and inline code is not. What this makes of the goals
around it is not lost altogether. They are never known to bind more, or to
succeed less (`GoalInfo.Blurs`).
-/

namespace Clausal

open List

variable {β : Type} {i j : GoalInfo} {arms : List (Symbol × Goal)} {hopeless : Prop}
  {p q : Primitive} {s s' t t' : Option VarSet}

theorem map_eq_of_forall₂ {α : Type} {f : α → β} {as as' : List α}
    (h : Forall₂ (fun a a' => f a' = f a) as as') : as'.map f = as.map f := by
  induction h with
  | nil => rfl
  | cons h _ ih => rw [map_cons, map_cons, h, ih]

/-! ### Primitives that never succeed -/

/-- Whether a primitive has no solutions: it fails, or gives the program up. -/
def Primitive.isHopeless (p : Primitive) : Bool := p.determinism.maxSolutions == .zero

theorem Primitive.proc_inj (h : p.proc = q.proc) : p = q := by
  have hindex : p.pred.index = q.pred.index := congrArg (fun r => r.pred.index) h
  have hp := all_getElem?_pred p
  rw [hindex, all_getElem?_pred q] at hp
  exact (Option.some.inj hp).symm

/-- A site where a primitive is run that never succeeds. -/
def CallSite.IsHopeless (site : CallSite) : Prop :=
  ∃ p : Primitive, p.isHopeless = true ∧ site.callee = p.proc

namespace Goal

/-- A primitive that never succeeds is run somewhere in the goal. -/
def RunsHopeless (g : Goal) : Prop := ∃ site ∈ g.callSites, site.IsHopeless

variable {g : Goal} {gs : List Goal}

theorem runsHopeless_setInfo (i : GoalInfo) : (g.setInfo i).RunsHopeless ↔ g.RunsHopeless := by
  rw [RunsHopeless, callSites_setInfo, RunsHopeless]

theorem runsHopeless_call {args : List ProgVar} :
    (Goal.call i p.proc p.symName args).RunsHopeless ↔ p.isHopeless = true := by
  rw [RunsHopeless, callSites]
  simp only [mem_singleton, exists_eq_left, CallSite.IsHopeless]
  constructor
  · rintro ⟨q, hq, heq⟩
    rw [Primitive.proc_inj heq]
    exact hq
  · exact fun hp => ⟨p, hp, rfl⟩

theorem exists_callSitesList : (∃ site ∈ callSitesList gs, site.IsHopeless) ↔
    ∃ g ∈ gs, g.RunsHopeless := by
  induction gs with
  | nil => simp [callSitesList]
  | cons g gs ih =>
    simp only [callSitesList, mem_append, mem_cons, or_and_right, exists_or, ih,
      exists_eq_left]
    rfl

theorem exists_callSitesArms :
    (∃ site ∈ callSitesArms arms, site.IsHopeless) ↔ ∃ arm ∈ arms, arm.2.RunsHopeless := by
  rw [callSitesArms_eq, exists_callSitesList]
  simp only [mem_map, exists_exists_and_eq_and]

end Goal

/-! ### What is known of goals -/

/-- What is known of a goal, and of the same goal with inline code. Unless a
    primitive that never succeeds is run in it, the same is known. If one is, the
    goal with inline code may be known to bind less, or not be known never to
    succeed. -/
structure GoalInfo.Blurs (hopeless : Prop) (i j : GoalInfo) : Prop where
  nonlocals : j.nonlocals = i.nonlocals
  determinism : j.determinism = i.determinism
  purity : j.purity = i.purity
  context : j.context = i.context
  unreachable : j.unreachable = true → i.unreachable = true
  bound : i.unreachable = false → ∀ v ∈ j.bound, v ∈ i.bound
  exact : ¬ hopeless → j = i

namespace GoalInfo

variable {hopeless' : Prop}

theorem Blurs.refl (i : GoalInfo) : i.Blurs hopeless i :=
  ⟨rfl, rfl, rfl, rfl, id, fun _ _ h => h, fun _ => rfl⟩

theorem Blurs.imp (h : i.Blurs hopeless j) (himp : hopeless → hopeless') : i.Blurs hopeless' j :=
  { h with exact := fun hnot => h.exact (mt himp hnot) }

theorem Blurs.setNonlocals (h : i.Blurs hopeless j) (vars : VarSet) :
    GoalInfo.Blurs hopeless { i with nonlocals := vars } { j with nonlocals := vars } :=
  ⟨rfl, h.determinism, h.purity, h.context, h.unreachable, h.bound, fun hnot => by
    rw [h.exact hnot]⟩

end GoalInfo

/-- Of the variables that branches bind, the second says less. A branch that
    never succeeds has no say. -/
def BlursBound (s t : Option VarSet) : Prop :=
  ∀ vs, s = some vs → ∃ ws, t = some ws ∧ ∀ v ∈ ws, v ∈ vs

open Goal

theorem BlursBound.common (h : BlursBound s s') (h' : BlursBound t t') :
    BlursBound (commonBound s t) (commonBound s' t') := by
  cases s with
  | none =>
    cases t with
    | none => exact fun _ h => absurd h (by simp [commonBound])
    | some vs =>
      obtain ⟨ws, rfl, hws⟩ := h' vs rfl
      rintro _ ⟨⟩
      cases s' with
      | none => exact ⟨ws, rfl, hws⟩
      | some us => exact ⟨us ∩ ws, rfl, fun v hv => hws v (VarSet.mem_inter.1 hv).2⟩
  | some us =>
    obtain ⟨us', rfl, hus⟩ := h us rfl
    cases t with
    | none =>
      rintro _ ⟨⟩
      cases t' with
      | none => exact ⟨us', rfl, hus⟩
      | some ws => exact ⟨us' ∩ ws, rfl, fun v hv => hus v (VarSet.mem_inter.1 hv).1⟩
    | some vs =>
      obtain ⟨vs', rfl, hvs⟩ := h' vs rfl
      rintro _ ⟨⟩
      refine ⟨us' ∩ vs', rfl, fun v hv => ?_⟩
      obtain ⟨hu, hv⟩ := VarSet.mem_inter.1 hv
      exact VarSet.mem_inter.2 ⟨hus v hu, hvs v hv⟩

theorem BlursBound.union (h : BlursBound s t) (vs : VarSet) :
    BlursBound (s.map (· ∪ vs)) (t.map (· ∪ vs)) := by
  intro us hus
  obtain ⟨us, rfl, rfl⟩ := Option.map_eq_some_iff.1 hus
  obtain ⟨ws, rfl, hws⟩ := h us rfl
  refine ⟨ws ∪ vs, rfl, fun v hv => VarSet.mem_union.2 ?_⟩
  exact (VarSet.mem_union.1 hv).imp_left (hws v)

namespace Goal

theorem blurs_setBranches {bs bs' : List (Option VarSet)} (hi : j = i)
    (hbs : Forall₂ BlursBound bs bs') (hexact : ¬ hopeless → bs' = bs) :
    (setBranches i bs).Blurs hopeless (setBranches j bs') := by
  subst hi
  have hnone : BlursBound none none := fun _ h => by cases h
  have hfold : BlursBound (bs.foldl commonBound none) (bs'.foldl commonBound none) := by
    refine rel_foldl (P := BlursBound) (R := BlursBound) ?_ hnone hbs
    exact fun _ _ h _ _ h' => h.common h'
  have hsame : ¬ hopeless → setBranches j bs' = setBranches j bs := fun hnot => by rw [hexact hnot]
  unfold setBranches at hsame ⊢
  cases hs : bs.foldl commonBound none with
  | none =>
    rw [hs] at hsame
    cases hs' : bs'.foldl commonBound none with
    | none => exact .refl _
    | some ws =>
      rw [hs'] at hsame
      exact ⟨rfl, rfl, rfl, rfl, fun h => absurd h (by simp), fun h => absurd h (by simp), hsame⟩
  | some vs =>
    obtain ⟨ws, hs', hws⟩ := hfold vs hs
    rw [hs, hs'] at hsame
    rw [hs']
    exact ⟨rfl, rfl, rfl, rfl, fun h => absurd h (by simp), fun _ => hws, hsame⟩

theorem blursBound_branchBound (h : i.Blurs hopeless j) :
    BlursBound (branchBound i) (branchBound j) := by
  intro vs hvs
  unfold branchBound at hvs ⊢
  split at hvs
  · cases hvs
  · next hreachable =>
    cases hvs
    rw [if_neg (mt h.unreachable hreachable)]
    exact ⟨_, rfl, h.bound (by simpa using hreachable)⟩

/-! ### Goals with inline code -/

mutual

/-- The second goal is the first with inline code for calls of primitives. -/
inductive Inlines : Goal → Goal → Prop
  | same (g : Goal) : Inlines g g
  | call {i j : GoalInfo} {p : Primitive} {args : List ProgVar} {code : ForeignCode}
      (callee : code.callee = p.proc) (vars : code.args.map (·.var) = args)
      (extra : code.extraArgs = [])
      (info : i.Blurs (Goal.call i p.proc p.symName args).RunsHopeless j) :
      Inlines (.call i p.proc p.symName args) (.foreign j code)
  | conj {i j : GoalInfo} {kind : ConjKind} {gs gs' : List Goal}
      (info : i.Blurs (Goal.conj i kind gs).RunsHopeless j) (parts : InlinesEach gs gs') :
      Inlines (.conj i kind gs) (.conj j kind gs')
  | disj {i j : GoalInfo} {gs gs' : List Goal} (info : i.Blurs (Goal.disj i gs).RunsHopeless j)
      (parts : InlinesEach gs gs') : Inlines (.disj i gs) (.disj j gs')
  | switch {i j : GoalInfo} {v : ProgVar} {canFail : Bool} {arms arms' : List (Symbol × Goal)}
      (info : i.Blurs (Goal.switch i v canFail arms).RunsHopeless j)
      (parts : InlinesArms arms arms') :
      Inlines (.switch i v canFail arms) (.switch j v canFail arms')
  | ite {i j : GoalInfo} {locals : List ProgVar} {c c' y y' n n' : Goal}
      (info : i.Blurs (Goal.ite i locals c y n).RunsHopeless j) (cond : Inlines c c')
      (yes : Inlines y y') (no : Inlines n n') :
      Inlines (.ite i locals c y n) (.ite j locals c' y' n')
  | scope {i j : GoalInfo} {reason : ScopeReason} {g g' : Goal}
      (info : i.Blurs (Goal.scope i reason g).RunsHopeless j) (inner : Inlines g g') :
      Inlines (.scope i reason g) (.scope j reason g')

/-- The same of goals in a list. -/
inductive InlinesEach : List Goal → List Goal → Prop
  | nil : InlinesEach [] []
  | cons {g g' : Goal} {gs gs' : List Goal} (head : Inlines g g') (tail : InlinesEach gs gs') :
      InlinesEach (g :: gs) (g' :: gs')

/-- The same of the arms of a switch. -/
inductive InlinesArms : List (Symbol × Goal) → List (Symbol × Goal) → Prop
  | nil : InlinesArms [] []
  | cons {symbol : Symbol} {g g' : Goal} {arms arms' : List (Symbol × Goal)}
      (head : Inlines g g') (tail : InlinesArms arms arms') :
      InlinesArms ((symbol, g) :: arms) ((symbol, g') :: arms')

end

variable {g' : Goal} {gs' : List Goal}

theorem InlinesEach.forall₂ : ∀ {gs gs' : List Goal}, InlinesEach gs gs' →
    Forall₂ Inlines gs gs'
  | _, _, .nil => .nil
  | _, _, .cons h hs => .cons h hs.forall₂

theorem InlinesEach.of_forall₂ (h : Forall₂ Inlines gs gs') : InlinesEach gs gs' := by
  induction h with
  | nil => exact .nil
  | cons h _ ih => exact .cons h ih

theorem InlinesArms.forall₂ : ∀ {arms arms' : List (Symbol × Goal)}, InlinesArms arms arms' →
    Forall₂ Inlines (arms.map Prod.snd) (arms'.map Prod.snd)
  | _, _, .nil => .nil
  | _, _, .cons h hs => .cons h hs.forall₂

theorem InlinesArms.of_forall₂ {arms' : List (Symbol × Goal)}
    (h : Forall₂ (fun a b => b.1 = a.1 ∧ Inlines a.2 b.2) arms arms') :
    InlinesArms arms arms' := by
  induction h with
  | nil => exact .nil
  | @cons a b _ _ hab _ ih =>
    obtain ⟨symbol, g⟩ := a
    obtain ⟨_, g'⟩ := b
    obtain ⟨rfl, hg⟩ := hab
    exact .cons hg ih

/-- A goal with inline code has the annotation of the goal, blurred at most by hopeless calls. -/
theorem Inlines.info (h : Inlines g g') : g.info.Blurs g.RunsHopeless g'.info := by
  cases h with
  | same => exact .refl _
  | call _ _ _ info => exact info
  | conj info | disj info | switch info | ite info | scope info => exact info

theorem Inlines.setNonlocals (h : Inlines g g') (vars : VarSet) :
    Inlines (g.setNonlocals vars) (g'.setNonlocals vars) := by
  cases h with
  | same => exact .same _
  | call callee args extra info => exact .call callee args extra (info.setNonlocals vars)
  | conj info parts => exact .conj (info.setNonlocals vars) parts
  | disj info parts => exact .disj (info.setNonlocals vars) parts
  | switch info parts => exact .switch (info.setNonlocals vars) parts
  | ite info cond yes no => exact .ite (info.setNonlocals vars) cond yes no
  | scope info inner => exact .scope (info.setNonlocals vars) inner

mutual

theorem Inlines.freeVars_eq : ∀ {g g' : Goal}, Inlines g g' → g'.freeVars = g.freeVars
  | _, _, .same _ => rfl
  | _, _, .call _ args extra _ => by
    rw [freeVars, freeVars, args, extra, map_nil, append_nil]
  | _, _, .conj _ parts => parts.freeVars_eq
  | _, _, .disj _ parts => parts.freeVars_eq
  | _, _, .switch _ parts => by rw [freeVars, freeVars, parts.freeVars_eq]
  | _, _, .ite _ cond yes no => by
    rw [freeVars, freeVars, cond.freeVars_eq, yes.freeVars_eq, no.freeVars_eq]
  | _, _, .scope _ inner => by rw [freeVars, freeVars, inner.freeVars_eq]

theorem InlinesEach.freeVars_eq : ∀ {gs gs' : List Goal}, InlinesEach gs gs' →
    freeVarsList gs' = freeVarsList gs
  | _, _, .nil => rfl
  | _, _, .cons h hs => by rw [freeVarsList, freeVarsList, h.freeVars_eq, hs.freeVars_eq]

theorem InlinesArms.freeVars_eq : ∀ {arms arms' : List (Symbol × Goal)}, InlinesArms arms arms' →
    freeVarsArms arms' = freeVarsArms arms
  | _, _, .nil => rfl
  | _, _, .cons h hs => by rw [freeVarsArms, freeVarsArms, h.freeVars_eq, hs.freeVars_eq]

end

theorem Inlines.exposeFree (h : Inlines g g') : Inlines g.exposeFree g'.exposeFree := by
  rw [Goal.exposeFree, Goal.exposeFree, h.freeVars_eq]
  exact h.setNonlocals _

theorem Inlines.quantified (h : Inlines g g') (outside : VarSet) :
    Inlines (Goal.quantified outside g) (Goal.quantified outside g') := by
  rw [Goal.quantified, Goal.quantified, h.freeVars_eq]
  exact h.setNonlocals _

/-! ### Quantification -/

theorem InlinesEach.conjunctOutsides_eq (h : InlinesEach gs gs') (outside : VarSet) :
    conjunctOutsides outside gs' = conjunctOutsides outside gs := by
  have hfree : gs'.map freeVars = gs.map freeVars :=
    map_eq_of_forall₂ (h.forall₂.imp fun _ _ h => h.freeVars_eq)
  rw [conjunctOutsides, conjunctOutsides, hfree]

theorem RunsHopeless.requantified {g g' : Goal} {outside : VarSet} (h : g.RunsHopeless)
    (hg : g.requantify outside = Goal.quantified outside g') : g'.RunsHopeless := by
  rwa [RunsHopeless, ← callSites_requantify g outside, hg, Goal.quantified, Goal.setNonlocals,
    callSites_setInfo] at h

mutual

/-- Goals with inline code are quantified in the same way. -/
theorem Inlines.requantify : ∀ {g g' : Goal}, Inlines g g' → ∀ outside : VarSet,
    Inlines (g.requantify outside) (g'.requantify outside)
  | _, _, .same _, _ => .same _
  | _, _, .call callee args extra info, outside =>
    Inlines.quantified (.call callee args extra info) outside
  | _, _, .conj info parts, outside => by
    rw [Goal.requantify, Goal.requantify, parts.conjunctOutsides_eq]
    exact Inlines.quantified (.conj (info.imp fun h => h.requantified rfl)
      (parts.requantifyEach _)) outside
  | _, _, .disj info parts, outside =>
    Inlines.quantified (.disj (info.imp fun h => h.requantified rfl) (parts.requantifyList _))
      outside
  | _, _, .switch info parts, outside =>
    Inlines.quantified (.switch (info.imp fun h => h.requantified rfl) (parts.requantifyArms _))
      outside
  | _, _, .ite info cond yes no, outside => by
    rw [Goal.requantify, Goal.requantify, cond.freeVars_eq, yes.freeVars_eq]
    exact Inlines.quantified (.ite (info.imp fun h => h.requantified rfl) (cond.requantify _)
      (yes.requantify _) (no.requantify _)) outside
  | _, _, .scope info inner, outside =>
    Inlines.quantified (.scope (info.imp fun h => h.requantified rfl) (inner.requantify _)) outside

theorem InlinesEach.requantifyEach : ∀ {gs gs' : List Goal}, InlinesEach gs gs' →
    ∀ outsides : List VarSet,
      InlinesEach (Goal.requantifyEach outsides gs) (Goal.requantifyEach outsides gs')
  | _, _, .nil, _ => by
    rw [Goal.requantifyEach]
    exact .nil
  | _, _, .cons h hs, [] => .cons h (hs.requantifyEach [])
  | _, _, .cons h hs, outside :: outsides =>
    .cons (h.requantify outside) (hs.requantifyEach outsides)

theorem InlinesEach.requantifyList : ∀ {gs gs' : List Goal}, InlinesEach gs gs' →
    ∀ outside : VarSet,
      InlinesEach (Goal.requantifyList outside gs) (Goal.requantifyList outside gs')
  | _, _, .nil, _ => .nil
  | _, _, .cons h hs, outside => .cons (h.requantify outside) (hs.requantifyList outside)

theorem InlinesArms.requantifyArms : ∀ {arms arms' : List (Symbol × Goal)},
    InlinesArms arms arms' → ∀ outside : VarSet,
      InlinesArms (Goal.requantifyArms outside arms) (Goal.requantifyArms outside arms')
  | _, _, .nil, _ => .nil
  | _, _, .cons h hs, outside => .cons (h.requantify outside) (hs.requantifyArms outside)

end

/-! ### Goals that are put together -/

/-- The conjuncts of a goal are inlined one by one. -/
theorem Inlines.conjuncts (h : Inlines g g') : Forall₂ Inlines g.conjuncts g'.conjuncts := by
  cases h with
  | same => exact forall₂_same.2 fun g _ => .same g
  | call callee args extra info => exact .cons (.call callee args extra info) .nil
  | conj info parts =>
    rename_i kind _ _
    cases kind with
    | plain => exact parts.forall₂
    | parallel => exact .cons (.conj info parts) .nil
  | disj info parts => exact .cons (.disj info parts) .nil
  | switch info parts => exact .cons (.switch info parts) .nil
  | ite info cond yes no => exact .cons (.ite info cond yes no) .nil
  | scope info inner => exact .cons (.scope info inner) .nil

section Parts

variable (h : Forall₂ Inlines gs gs')

include h

theorem foldl_eq_of_inlines {f : β → Goal → β} (hf : ∀ b {g g'}, Inlines g g' → f b g' = f b g)
    (b : β) : gs'.foldl f b = gs.foldl f b := by
  refine (rel_foldl (P := Eq) ?_ rfl h).symm
  rintro b _ rfl g g' hg
  exact (hf b hg).symm

theorem foldl_worst_of_inlines (p : Purity) :
    gs'.foldl (fun p g => p.worst g.info.purity) p =
      gs.foldl (fun p g => p.worst g.info.purity) p :=
  foldl_eq_of_inlines h (fun p _ _ hg => by rw [hg.info.purity]) p

theorem map_info_of_inlines (hhopeful : ¬ ∃ g ∈ gs, g.RunsHopeless) (f : GoalInfo → β) :
    gs'.map (fun g => f g.info) = gs.map fun g => f g.info := by
  induction h with
  | nil => rfl
  | cons h _ ih =>
    rw [exists_mem_cons_iff, not_or] at hhopeful
    rw [map_cons, map_cons, h.info.exact hhopeful.1, ih hhopeful.2]

/-- The annotation of a sequence is blurred only by a hopeless call in it. -/
theorem blurs_sequentialInfo (context : Context) :
    (sequentialInfo gs context).Blurs (∃ g ∈ gs, g.RunsHopeless) (sequentialInfo gs' context) where
  nonlocals := rfl
  determinism := foldl_eq_of_inlines h (fun d _ _ hg => by rw [hg.info.determinism]) _
  purity := foldl_worst_of_inlines h _
  context := rfl
  unreachable hun := by
    obtain ⟨g', hg', hun⟩ := any_eq_true.1 hun
    obtain ⟨g, hg, hinlines⟩ := exists_of_forall₂ h hg'
    exact any_eq_true.2 ⟨g, hg, hinlines.info.unreachable hun⟩
  bound hreach v hv := by
    obtain ⟨_, hmem, hv⟩ := VarSet.mem_unions.1 hv
    obtain ⟨g', hg', rfl⟩ := mem_map.1 hmem
    obtain ⟨g, hg, hinlines⟩ := exists_of_forall₂ h hg'
    have hreach' : g.info.unreachable = false := by simpa using any_eq_false.1 hreach g hg
    exact VarSet.mem_unions.2 ⟨_, mem_map_of_mem hg, hinlines.info.bound hreach' v hv⟩
  exact hhopeful := by
    have hun : gs'.any (·.info.unreachable) = gs.any (·.info.unreachable) := by
      simpa [Function.comp_def] using congrArg (List.any · id)
        (map_info_of_inlines h hhopeful GoalInfo.unreachable)
    rw [sequentialInfo, sequentialInfo, map_info_of_inlines h hhopeful GoalInfo.bound, hun,
      foldl_worst_of_inlines h, foldl_eq_of_inlines h fun d _ _ hg => by rw [hg.info.determinism]]

theorem blurs_branches (hi : j = i) :
    (setBranches i (gs.map fun g => branchBound g.info)).Blurs (∃ g ∈ gs, g.RunsHopeless)
      (setBranches j (gs'.map fun g => branchBound g.info)) := by
  refine blurs_setBranches hi ?_ fun hhopeful => map_info_of_inlines h hhopeful branchBound
  exact rel_map (fun _ _ hg => blursBound_branchBound hg.info) h

theorem Inlines.conjoin (context : Context) :
    Inlines (Goal.conjoin gs context) (Goal.conjoin gs' context) := by
  have hparts : Forall₂ Inlines (gs.flatMap Goal.conjuncts) (gs'.flatMap Goal.conjuncts) :=
    rel_flatMap h fun _ _ hg => hg.conjuncts
  unfold Goal.conjoin
  generalize gs.flatMap Goal.conjuncts = parts at hparts
  generalize gs'.flatMap Goal.conjuncts = parts' at hparts
  have hmany : Inlines (.conj (sequentialInfo parts context) .plain parts)
      (.conj (sequentialInfo parts' context) .plain parts') :=
    .conj ((blurs_sequentialInfo hparts context).imp exists_callSitesList.2) (.of_forall₂ hparts)
  rcases hparts with _ | ⟨hg, _ | _⟩
  · exact hmany.exposeFree
  · exact hg
  · exact hmany.exposeFree

theorem Inlines.disjoin (context : Context) :
    Inlines (Goal.disjoin gs context) (Goal.disjoin gs' context) := by
  cases h with
  | nil => exact .same _
  | cons hg hgs =>
    have hparts := Forall₂.cons hg hgs
    refine Inlines.exposeFree (.disj ((blurs_branches hparts ?_).imp exists_callSitesList.2)
      (.of_forall₂ hparts))
    rw [foldl_worst_of_inlines hparts,
      foldl_eq_of_inlines hparts fun d _ _ hd => by rw [hd.info.determinism]]

end Parts

theorem joinDeterminism_of_inlines (h : Forall₂ Inlines gs gs') :
    joinDeterminism gs' = joinDeterminism gs := by
  cases h with
  | nil => rfl
  | cons hg hgs =>
    rw [joinDeterminism, joinDeterminism, hg.info.determinism,
      foldl_eq_of_inlines hgs fun d _ _ hd => by rw [hd.info.determinism]]

theorem Inlines.switchOn {arms' : List (Symbol × Goal)} (h : InlinesArms arms arms') (var : ProgVar)
    (canFail : Bool) (context : Context) :
    Inlines (Goal.switchOn var arms canFail context) (Goal.switchOn var arms' canFail context) := by
  have hparts := h.forall₂
  refine Inlines.exposeFree (.switch ((blurs_branches hparts ?_).imp ?_) h)
  · rw [joinDeterminism_of_inlines hparts, foldl_worst_of_inlines hparts]
  · rintro ⟨g, hg, hhopeless⟩
    obtain ⟨arm, harm, rfl⟩ := mem_map.1 hg
    exact exists_callSitesArms.2 ⟨arm, harm, hhopeless⟩

/-- The condition is to bind the same variables. -/
theorem Inlines.ifThenElse {c c' y y' n n' : Goal} (hc : Inlines c c') (hy : Inlines y y')
    (hn : Inlines n n') (hbound : c'.info.bound = c.info.bound) (context : Context) :
    Inlines (Goal.ifThenElse c y n context) (Goal.ifThenElse c' y' n' context) := by
  refine Inlines.exposeFree (.ite (blurs_setBranches ?_ ?_ ?_) hc hy hn)
  · rw [hc.info.determinism, hy.info.determinism, hn.info.determinism, hc.info.purity,
      hy.info.purity, hn.info.purity]
  · refine .cons ?_ (.cons (blursBound_branchBound hn.info) .nil)
    rw [hbound]
    exact (blursBound_branchBound hy.info).union _
  · intro hhopeful
    have hparts : ∀ g, g.RunsHopeless → g = y ∨ g = n → False := by
      rintro g ⟨site, hsite, hg⟩ hmem
      refine hhopeful ⟨site, ?_, hg⟩
      rw [callSites, mem_append, mem_append]
      rcases hmem with rfl | rfl
      · exact .inl (.inr hsite)
      · exact .inr hsite
    rw [hbound, hy.info.exact fun h => hparts y h (.inl rfl),
      hn.info.exact fun h => hparts n h (.inr rfl)]

theorem Inlines.within (h : Inlines g g') (reason : ScopeReason) (context : Context) :
    Inlines (Goal.within reason g context) (Goal.within reason g' context) := by
  refine Inlines.exposeFree (.scope ?_ h)
  rw [h.info.purity]
  exact { h.info with
    purity := rfl
    context := rfl
    exact := fun hhopeful => by rw [h.info.exact hhopeful] }

/-! ### Bodies of tabled procedures -/

theorem Inlines.tabledBody {e e' : TableEnv} (h : Inlines g g') (hcontext : e'.context = e.context)
    (purity : Purity) (head : List ProgVar) :
    Inlines (Module.tabledBody e purity head g) (Module.tabledBody e' purity head g') := by
  have hbody := h.requantify (.ofList head)
  unfold Module.tabledBody TableEnv.promised
  rw [hbody.info.purity, hcontext]
  split
  · exact hbody.within _ _
  · exact hbody

end Goal

end Clausal
