import Clausal.Goal.Build
import Clausal.Goal.Quantify
import Mathlib

/-!
# The goals inside a goal

What holds of a goal if it holds of its parts holds of all goals
(`Goal.parts_induction`). Quantifying a goal anew changes non-local variables and
what lambda expressions capture, so the result is in every relation to the goal
that goals around related parts are in (`Goal.Congruent.requantify`).
-/

namespace Clausal

open List

variable {outside : VarSet} {arms arms' : List (Symbol × Goal)} {g g' : Goal} {gs gs' : List Goal}

/-- The variables that the kind of a unification mentions. -/
def Unification.vars : Unification → List ProgVar
  | .construct v _ args | .deconstruct v _ args _ => v :: args
  | .assign v w | .test v w => [v, w]
  | .complicated _ typeInfos => typeInfos

namespace Goal

/-- The direct subgoals, in order, and the body of a lambda expression. -/
def parts : Goal → List Goal
  | .lambda _ _ _ body _ => [body]
  | g => g.children

theorem sizeOf_lt_of_mem_parts {g c : Goal} (hc : c ∈ g.parts) : sizeOf c < sizeOf g := by
  cases g with
  | conj i k gs | disj i gs =>
    have : sizeOf c < sizeOf gs := sizeOf_lt_of_mem hc
    simp
    omega
  | switch i v f arms =>
    obtain ⟨⟨symbol, c⟩, harm, rfl⟩ := mem_map.1 hc
    have := sizeOf_lt_of_mem harm
    simp at this ⊢
    omega
  | negation | scope =>
    obtain rfl := mem_singleton.1 hc
    simp
  | lambda =>
    obtain rfl := mem_singleton.1 hc
    simp
    omega
  | ite =>
    simp only [parts, children, mem_cons, not_mem_nil, or_false] at hc
    rcases hc with rfl | rfl | rfl <;> simp <;> omega
  | call | genericCall | foreign | unify => cases hc

/-- The variables that a goal without parts mentions. -/
def atomVars : Goal → List ProgVar
  | .call _ _ _ args => args
  | .genericCall _ callee args _ => callee.vars ++ args
  | .foreign _ code => (code.args ++ code.extraArgs).map (·.var)
  | .unify _ lhs rhs kind => lhs :: rhs.vars ++ kind.vars
  | _ => []

/-- The variables that a goal mentions apart from those that its parts do. What
    a lambda expression is said to capture counts. -/
def ownVars : Goal → List ProgVar
  | .switch _ v _ _ => [v]
  | .ite _ locals _ _ _ => locals
  | .scope _ reason _ => reason.hidden
  | .lambda _ lhs head _ kind => lhs :: head.captured ++ head.args ++ kind.vars
  | g => g.atomVars

/-- What holds of a goal if it holds of its parts holds of all goals. -/
theorem parts_induction {P : Goal → Prop} (step : ∀ g, (∀ c ∈ g.parts, P c) → P g) (g : Goal) :
    P g :=
  step g fun c _ => parts_induction step c
termination_by sizeOf g
decreasing_by exact sizeOf_lt_of_mem_parts ‹_›

/-- A relation that goals with related parts are in, whatever their non-local
    variables are and what they capture. -/
structure Congruent (P : Goal → Goal → Prop) : Prop where
  refl : ∀ g, P g g
  nonlocals : ∀ {g g'} vars, P g g' → P g (g'.setNonlocals vars)
  conj : ∀ {i k gs gs'}, Forall₂ P gs gs' → P (.conj i k gs) (.conj i k gs')
  disj : ∀ {i gs gs'}, Forall₂ P gs gs' → P (.disj i gs) (.disj i gs')
  switch : ∀ {i v f arms arms'},
    Forall₂ (fun a b : Symbol × Goal => b.1 = a.1 ∧ P a.2 b.2) arms arms' →
    P (.switch i v f arms) (.switch i v f arms')
  negation : ∀ {i g g'}, P g g' → P (.negation i g) (.negation i g')
  ite : ∀ {i locals c c' y y' n n'}, P c c' → P y y' → P n n' →
    P (.ite i locals c y n) (.ite i locals c' y' n')
  scope : ∀ {i r g g'}, P g g' → P (.scope i r g) (.scope i r g')
  lambda : ∀ {i lhs head body body' k}, P body body' →
    P (.lambda i lhs head body k)
      (.lambda i lhs { head with captured := (capturedVars head body).toList } body' k)

section

variable {P : Goal → Goal → Prop}

theorem forall₂_requantifyEach (hrefl : ∀ g, P g g)
    (h : ∀ g ∈ gs, ∀ outside, P g (g.requantify outside)) (outsides : List VarSet) :
    Forall₂ P gs (requantifyEach outsides gs) := by
  induction gs generalizing outsides with
  | nil =>
    rw [requantifyEach]
    exact .nil
  | cons g gs ih =>
    obtain ⟨hg, hgs⟩ := forall_mem_cons.1 h
    cases outsides with
    | nil => exact .cons (hrefl g) (ih hgs [])
    | cons outside outsides => exact .cons (hg outside) (ih hgs outsides)

theorem forall₂_requantifyList (h : ∀ g ∈ gs, P g (g.requantify outside)) :
    Forall₂ P gs (requantifyList outside gs) := by
  induction gs with
  | nil => exact .nil
  | cons g gs ih =>
    obtain ⟨hg, hgs⟩ := forall_mem_cons.1 h
    exact .cons hg (ih hgs)

theorem forall₂_requantifyArms (h : ∀ g ∈ arms.map Prod.snd, P g (g.requantify outside)) :
    Forall₂ (fun a b => b.1 = a.1 ∧ P a.2 b.2) arms (requantifyArms outside arms) := by
  induction arms with
  | nil => exact .nil
  | cons arm arms ih =>
    obtain ⟨hg, hgs⟩ := forall_mem_cons.1 h
    exact .cons ⟨rfl, hg⟩ (ih hgs)

theorem forall₂_map_snd (h : Forall₂ (fun a b => b.1 = a.1 ∧ P a.2 b.2) arms arms') :
    Forall₂ P (arms.map Prod.snd) (arms'.map Prod.snd) := by
  rw [forall₂_map_left_iff, forall₂_map_right_iff]
  exact h.imp fun _ _ h => h.2

/-- A goal is related to itself quantified anew. -/
theorem Congruent.requantify (h : Congruent P) (g : Goal) :
    ∀ outside, P g (g.requantify outside) := by
  induction g using parts_induction with
  | step g ih =>
  intro outside
  cases g with
  | conj i k gs => exact h.nonlocals _ (h.conj (forall₂_requantifyEach h.refl ih _))
  | disj i gs => exact h.nonlocals _ (h.disj (forall₂_requantifyList fun g hg => ih g hg _))
  | switch i v f arms =>
    exact h.nonlocals _ (h.switch (forall₂_requantifyArms fun g hg => ih g hg _))
  | negation i g => exact h.nonlocals _ (h.negation (ih g mem_cons_self _))
  | ite i locals c y n =>
    exact h.nonlocals _ (h.ite (ih c (by simp [parts, children]) _)
      (ih y (by simp [parts, children]) _) (ih n (by simp [parts, children]) _))
  | scope i r g => exact h.nonlocals _ (h.scope (ih g mem_cons_self _))
  | lambda i lhs head body k => exact h.nonlocals _ (h.lambda (ih body mem_cons_self _))
  | call | genericCall | foreign | unify => exact h.nonlocals _ (h.refl _)

end

/-! ### Gathering from goals -/

section

variable {α : Type}

mutual

/-- What the goals inside a goal have of their own, in order. Conjunctions,
    disjunctions and negations have nothing. -/
def gather (own : Goal → List α) : Goal → List α
  | .conj _ _ gs | .disj _ gs => gatherList own gs
  | .switch i v canFail arms => own (.switch i v canFail arms) ++ gatherArms own arms
  | .negation _ g => gather own g
  | .ite i locals c y n =>
    own (.ite i locals c y n) ++ gather own c ++ gather own y ++ gather own n
  | .scope i reason g => own (.scope i reason g) ++ gather own g
  | .lambda i lhs head body kind => own (.lambda i lhs head body kind) ++ gather own body
  | .call i callee name args => own (.call i callee name args)
  | .genericCall i callee args modes => own (.genericCall i callee args modes)
  | .foreign i code => own (.foreign i code)
  | .unify i lhs rhs kind => own (.unify i lhs rhs kind)

def gatherList (own : Goal → List α) : List Goal → List α
  | [] => []
  | g :: gs => gather own g ++ gatherList own gs

def gatherArms (own : Goal → List α) : List (Symbol × Goal) → List α
  | [] => []
  | (_, g) :: arms => gather own g ++ gatherArms own arms

end

variable {own : Goal → List α}

section

-- The equations are proved here, before several proofs ask for them at once.
attribute [local simp] gather gatherList gatherArms

@[simp] theorem gatherList_append (gs gs' : List Goal) :
    gatherList own (gs ++ gs') = gatherList own gs ++ gatherList own gs' := by
  induction gs with
  | nil => rfl
  | cons g gs ih => rw [cons_append, gatherList, gatherList, ih, append_assoc]

theorem gatherList_singleton (g : Goal) : gatherList own [g] = gather own g := by
  rw [gatherList, gatherList, append_nil]

theorem mem_gatherList {a : α} : a ∈ gatherList own gs ↔ ∃ g ∈ gs, a ∈ gather own g := by
  induction gs with
  | nil => simp
  | cons g gs ih => simp [ih]

theorem gatherArms_eq (arms : List (Symbol × Goal)) :
    gatherArms own arms = gatherList own (arms.map Prod.snd) := by
  induction arms with
  | nil => rfl
  | cons arm arms ih => simp [ih]

end

theorem gatherList_conjuncts (g : Goal) : gatherList own g.conjuncts = gather own g := by
  rw [conjuncts.eq_def]
  split
  · rw [gather]
  · exact gatherList_singleton _

theorem gatherList_flatMap (gs : List Goal) :
    gatherList own (gs.flatMap conjuncts) = gatherList own gs := by
  induction gs with
  | nil => rfl
  | cons g gs ih =>
    rw [flatMap_cons, gatherList_append, gatherList_conjuncts, ih, gatherList]

/-- Whether nothing is gathered from a goal itself. -/
def isBare : Goal → Bool
  | .conj .. | .disj .. | .negation .. => true
  | _ => false

/-- What is gathered is from the goal itself or from one of its parts. -/
theorem mem_gather {a : α} : a ∈ gather own g ↔
    g.isBare = false ∧ a ∈ own g ∨ ∃ c ∈ g.parts, a ∈ gather own c := by
  cases g with
  | switch => simp [gather, gatherArms_eq, mem_gatherList, isBare, parts, children]
  | _ => simp [gather, mem_gatherList, isBare, parts, children]

theorem mem_gather_mono {own' : Goal → List α} (hown : ∀ g, ∀ a ∈ own g, a ∈ own' g) {a : α}
    (g : Goal) (h : a ∈ gather own g) : a ∈ gather own' g := by
  induction g using parts_induction with
  | step g ih =>
  rw [mem_gather] at h ⊢
  rcases h with ⟨hbare, h⟩ | ⟨c, hc, h⟩
  · exact .inl ⟨hbare, hown g a h⟩
  · exact .inr ⟨c, hc, ih c hc h⟩

theorem gather_setInfo (hown : ∀ i g, own (setInfo i g) = own g) (i : GoalInfo) (g : Goal) :
    gather own (g.setInfo i) = gather own g := by
  have h := hown i g
  cases g with
  | conj | disj | negation => rw [setInfo, gather, gather]
  | _ =>
    rw [setInfo] at h
    rw [setInfo, gather, gather, h]

theorem gather_conjoin (hown : ∀ i g, own (setInfo i g) = own g) (gs : List Goal)
    (context : Context) : gather own (conjoin gs context) = gatherList own gs := by
  rw [← gatherList_flatMap gs, conjoin]
  split
  · next g hg => rw [hg, gatherList_singleton]
  · rw [exposeFree, setNonlocals, gather_setInfo hown, gather]

theorem gather_withSetup (hown : ∀ i g, own (setInfo i g) = own g) (setup : List Goal)
    (g : Goal) : gather own (withSetup setup g) = gatherList own setup ++ gather own g := by
  cases setup with
  | nil => rfl
  | cons h hs =>
    rw [withSetup, if_neg (by simp), setNonlocals, gather_setInfo hown, gather_conjoin hown,
      gatherList_append, gatherList_singleton]

/-- Whether a goal has no parts. -/
def isAtom : Goal → Bool
  | .call .. | .genericCall .. | .foreign .. | .unify .. => true
  | _ => false

theorem gather_of_isAtom (h : g.isAtom) : gather own g = own g := by
  cases g with
  | call | genericCall | foreign | unify => rw [gather]
  | _ => cases h

/-- Nothing is gathered but from goals without parts. -/
structure OfAtoms (own : Goal → List α) : Prop where
  info : ∀ i g, own (g.setInfo i) = own g
  nil : ∀ g, g.isAtom = false → own g = []

theorem gatherList_eq_of_forall₂ (h : Forall₂ (fun g g' => gather own g' = gather own g) gs gs') :
    gatherList own gs' = gatherList own gs := by
  induction h with
  | nil => rfl
  | cons hg _ ih => rw [gatherList, gatherList, hg, ih]

/-- Quantifying anew changes no atoms. -/
theorem OfAtoms.requantify (hown : OfAtoms own) : ∀ (g : Goal) (outside : VarSet),
    gather own (g.requantify outside) = gather own g :=
  Congruent.requantify (P := fun g g' => gather own g' = gather own g)
    { refl := fun _ => rfl
      nonlocals := fun vars h => by rw [setNonlocals, gather_setInfo hown.info, h]
      conj := fun h => by rw [gather, gather, gatherList_eq_of_forall₂ h]
      disj := fun h => by rw [gather, gather, gatherList_eq_of_forall₂ h]
      switch := fun h => by
        rw [gather, gather, gatherArms_eq, gatherArms_eq, hown.nil _ rfl, hown.nil _ rfl,
          gatherList_eq_of_forall₂ (forall₂_map_snd h)]
      negation := fun h => by rw [gather, gather, h]
      ite := fun hc hy hn => by rw [gather, gather, hown.nil _ rfl, hown.nil _ rfl, hc, hy, hn]
      scope := fun h => by rw [gather, gather, hown.nil _ rfl, hown.nil _ rfl, h]
      lambda := fun h => by rw [gather, gather, hown.nil _ rfl, hown.nil _ rfl, h] }

end

/-! ### Other parts -/

/-- Whether goals are worked on as goals with parts. -/
def isCompound : Goal → Bool
  | .conj .. | .disj .. | .switch .. | .negation .. | .ite .. | .scope .. => true
  | _ => false

/-- A goal is compound, a lambda or an atom. -/
theorem shape (g : Goal) : g.isCompound ∨
    (∃ i lhs head body kind, g = .lambda i lhs head body kind) ∨ g.isAtom := by
  cases g <;> simp [isCompound, isAtom]

/-- A compound goal with other parts and other non-local variables. The parts of
    plain conjunctions in a plain conjunction become its own. -/
inductive Refilled (nonlocals : VarSet) : Goal → List Goal → Goal → Prop
  | conj {i : GoalInfo} {k : ConjKind} {gs gs' : List Goal} :
      Refilled nonlocals (.conj i k gs) gs' (.conj { i with nonlocals } k
        (if k = .plain then gs'.flatMap conjuncts else gs'))
  | disj {i : GoalInfo} {gs gs' : List Goal} :
      Refilled nonlocals (.disj i gs) gs' (.disj { i with nonlocals } gs')
  | switch {i : GoalInfo} {v : ProgVar} {f : Bool} {arms arms' : List (Symbol × Goal)}
      (symbols : arms'.map Prod.fst = arms.map Prod.fst) :
      Refilled nonlocals (.switch i v f arms) (arms'.map Prod.snd)
        (.switch { i with nonlocals } v f arms')
  | negation {i : GoalInfo} {g g' : Goal} :
      Refilled nonlocals (.negation i g) [g'] (.negation { i with nonlocals } g')
  | scope {i : GoalInfo} {reason : ScopeReason} {g g' : Goal} :
      Refilled nonlocals (.scope i reason g) [g'] (.scope { i with nonlocals } reason g')
  | ite {i : GoalInfo} {locals : List ProgVar} {c y n c' y' n' : Goal} :
      Refilled nonlocals (.ite i locals c y n) [c', y', n']
        (.ite { i with nonlocals } locals c' y' n')

theorem Refilled.gather_eq {α : Type} (own : Goal → List α) {nonlocals : VarSet} {gs' : List Goal}
    (h : Refilled nonlocals g gs' g') (hown : own g' = own g) :
    ∃ front, (∀ a ∈ front, a ∈ own g) ∧ gather own g = front ++ gatherList own g.parts ∧
      gather own g' = front ++ gatherList own gs' := by
  cases h with
  | conj =>
    refine ⟨[], by simp, gather.eq_1 .., ?_⟩
    rw [gather]
    split
    · exact gatherList_flatMap _
    · rfl
  | disj => exact ⟨[], by simp, gather.eq_2 .., gather.eq_2 ..⟩
  | switch =>
    refine ⟨_, fun _ ha => ha, ?_⟩
    rw [gather, gather, gatherArms_eq, gatherArms_eq, hown]
    exact ⟨rfl, rfl⟩
  | negation => exact ⟨[], by simp [gather, parts, children, gatherList]⟩
  | scope | ite =>
    refine ⟨_, fun _ ha => ha, ?_⟩
    rw [gather, gather, hown]
    simp [parts, children, gatherList]

theorem Refilled.gather_eq_of_nil {α : Type} (own : Goal → List α) {nonlocals : VarSet}
    {gs' : List Goal} (h : Refilled nonlocals g gs' g') (hg : own g = []) (hg' : own g' = []) :
    gather own g = gatherList own g.parts ∧ gather own g' = gatherList own gs' := by
  obtain ⟨front, hfront, hold, hnow⟩ := h.gather_eq own (hg'.trans hg.symm)
  obtain rfl : front = [] := eq_nil_iff_forall_not_mem.2 fun a ha => by simpa [hg] using hfront a ha
  exact ⟨hold, hnow⟩

theorem OfAtoms.refilled {α : Type} {own : Goal → List α} (hown : OfAtoms own)
    {nonlocals : VarSet} {gs' : List Goal} (h : Refilled nonlocals g gs' g') :
    gather own g = gatherList own g.parts ∧ gather own g' = gatherList own gs' :=
  h.gather_eq_of_nil own (hown.nil g (by cases h <;> rfl)) (hown.nil g' (by cases h <;> rfl))

end Goal

end Clausal
