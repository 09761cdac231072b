import Clausal.Proofs.Locality
import Clausal.Proofs.Visibility

/-!
# What lambda expressions capture

Two passes say what a lambda expression captures. Making witnesses explicit adds
to what is listed already, or to the arguments of the closure that the lambda
expression is made of: it adds the witnesses that the whole procedure can refer to and the
body has come to mention (`Synth.CapturesFrom`). Quantifying anew lists all that
occurs free in the body and is no argument, be it visible outside or not. So what
occurs nowhere but in the body, as a witness that is made there, is listed as well.
-/

namespace Clausal

open List Goal

variable {lhs : ProgVar} {body : Goal} {kind : Unification} {gs : List Goal} {path : List Nat}
  {i info : GoalInfo} {head : LambdaHead} {args targets sources declared : List ProgVar} {g' : Goal}
  {pred : Predicate} {out : WitnessHead}

namespace Goal

/-! ### The lambda expressions inside a goal -/

/-- A lambda expression, as head and body. -/
def ownLambda : Goal → List (LambdaHead × Goal)
  | .lambda _ _ head body _ => [(head, body)]
  | _ => []

/-- What a lambda expression is said to capture, and what a closure holds. -/
def ownCaptures : Goal → List (List ProgVar)
  | .lambda _ _ head _ _ => [head.captured]
  | .unify _ _ (.functor (.closure _) args) _ => [args]
  | _ => []

variable {g c : Goal}

theorem ownLambda_setInfo (i : GoalInfo) (g : Goal) : ownLambda (setInfo i g) = ownLambda g := by
  cases g <;> rfl

theorem lambdas_of_isAtom (h : g.isAtom) : g.gather ownLambda = [] := by
  rw [gather_of_isAtom h]
  cases g with
  | lambda => cases h
  | _ => rfl

theorem lambdas_of_forall_isAtom (h : ∀ g ∈ gs, g.isAtom) :
    gatherList ownLambda gs = [] := by
  induction gs with
  | nil => rfl
  | cons g gs ih =>
    obtain ⟨hg, hgs⟩ := forall_mem_cons.1 h
    rw [gatherList, lambdas_of_isAtom hg, ih hgs, nil_append]

theorem lambdas_withSetup (h : ∀ g ∈ setup, g.isAtom) :
    (withSetup setup g).gather ownLambda = g.gather ownLambda := by
  rw [gather_withSetup ownLambda_setInfo, lambdas_of_forall_isAtom h, nil_append]

theorem mem_gather_of_mem_parts {α : Type} {own : Goal → List α} {a : α} (hc : c ∈ g.parts)
    (ha : a ∈ c.gather own) : a ∈ g.gather own :=
  mem_gather.2 (.inr ⟨c, hc, ha⟩)

theorem mem_lambdas_of_part? (h : g.part? path = some (.lambda i lhs head body kind)) :
    (head, body) ∈ g.gather ownLambda := by
  induction path generalizing g with
  | nil =>
    cases h
    rw [gather]
    exact mem_append_left _ (mem_singleton_self _)
  | cons j path ih =>
    obtain ⟨c, hc, h⟩ := Option.bind_eq_some_iff.1 h
    exact mem_gather_of_mem_parts (mem_of_getElem? hc) (ih h)

/-! ### Quantifying anew -/

/-- In a quantified goal a lambda expression captures all that occurs free in its
    body and is no argument, and the ones of these that are visible outside it are
    its non-local variables. -/
theorem captured_of_part?_requantify {outside : VarSet}
    (h : (g.requantify outside).part? path = some (.lambda i lhs head body kind)) :
    head.captured = (capturedVars head body).toList ∧ ∀ v ∈ capturedVars head body,
      v ∈ i.nonlocals ↔ (g.requantify outside).Visible outside path v := by
  obtain ⟨o, hpart, ho⟩ := part?_requantify outside (g.requantify outside) path
  rw [requantify_requantify, h, Option.map_some, Option.some.injEq] at hpart
  have hquantified := quantified_requantify o (.lambda i lhs head body kind)
  rw [← hpart] at hquantified
  have hnarrow := hquantified.narrow
  rw [Quantified] at hquantified
  refine ⟨hquantified.2.1, fun v hv => ?_⟩
  rw [← ho _ h v, show i.nonlocals = _ from hnarrow, VarSet.mem_inter, freeVars, VarSet.mem_union]
  exact and_iff_right (.inr hv)

end Goal

/-! ### Making witnesses explicit -/

section

variable {s s₁ s₂ s' : WitnessState} {env : WitnessEnv} {olds olds' : List (List ProgVar)}
  {lambdas lambdas' : List (LambdaHead × Goal)} {context : Context} {setup : List Goal}

namespace Synth

/-- Each lambda expression captures what one of the given lists has, and besides
    those free variables of its body that are witnesses for the whole procedure
    when the body has been worked on. -/
def CapturesFrom (s s' : WitnessState) (olds : List (List ProgVar))
    (lambdas : List (LambdaHead × Goal)) : Prop :=
  ∀ l ∈ lambdas, ∃ old ∈ olds, ∃ s₁, s.Grows s₁ ∧ s₁.Grows s' ∧ ∀ v, v ∈ l.1.captured ↔
    v ∈ old ∨ v ∈ l.2.freeVars ∧ v ∉ l.1.args ∧ s₁.isOuterWitness v

theorem capturesFrom_nil : CapturesFrom s s' olds [] := fun _ hl => by cases hl

theorem CapturesFrom.mono (h : CapturesFrom s₁ s₂ olds lambdas) (hs : s.Grows s₁)
    (hs' : s₂.Grows s') (holds : ∀ old ∈ olds, old ∈ olds') :
    CapturesFrom s s' olds' lambdas := by
  intro l hl
  obtain ⟨old, hold, s₃, hs₃, hs₃', hcaptured⟩ := h l hl
  exact ⟨old, holds old hold, s₃, hs.trans hs₃, hs₃'.trans hs', hcaptured⟩

theorem CapturesFrom.append (h : CapturesFrom s s₁ olds lambdas)
    (h' : CapturesFrom s₁ s' olds' lambdas') (hs : s.Grows s₁) (hs' : s₁.Grows s') :
    CapturesFrom s s' (olds ++ olds') (lambdas ++ lambdas') :=
  forall_mem_append.2 ⟨h.mono (.refl s) hs' fun _ => mem_append_left _,
    h'.mono hs (.refl s') fun _ => mem_append_right _⟩

theorem GetsWitnesses.lambdas_eq {g : Goal} (h : GetsWitnesses s g g' s') :
    g'.gather Goal.ownLambda = [] := by
  obtain ⟨_, _, _, core, hs, hcore, rfl⟩ := h
  rw [lambdas_withSetup fun g hg => (hs.plain g hg).1, lambdas_of_isAtom hcore.atom]

theorem Worked.captures {gs gs' : List Goal} (h : Worked env s gs gs' s')
    (ih : ∀ c ∈ gs, ∀ {g' s s'}, Returns (goal env c) s g' s' →
      CapturesFrom s s' (c.gather Goal.ownCaptures) (g'.gather Goal.ownLambda)) :
    CapturesFrom s s' (Goal.gatherList Goal.ownCaptures gs)
      (Goal.gatherList Goal.ownLambda gs') := by
  induction h with
  | nil => exact capturesFrom_nil
  | cons hg hgs ih' =>
    exact (ih _ mem_cons_self hg).append (ih' fun c hc => ih c (mem_cons_of_mem _ hc))
      (goal_grows _ hg) hgs.grows

/-- What the lambda expressions in a body capture once it has its witnesses. -/
theorem goal_captures (g : Goal) : ∀ {g' s s'}, Returns (goal env g) s g' s' →
    CapturesFrom s s' (g.gather Goal.ownCaptures) (g'.gather Goal.ownLambda) := by
  induction g using Goal.parts_induction with
  | step g ih =>
  intro g' s s' h
  rcases g.shape with hg | ⟨_, _, head, body, _, rfl⟩ | hg
  · obtain ⟨gs', _, hr, hfill⟩ := returns_compound hg h
    rw [(hfill.gather_eq_of_nil ownCaptures (by cases hfill <;> rfl) (by cases hfill <;> rfl)).1,
      (hfill.gather_eq_of_nil ownLambda (by cases hfill <;> rfl) (by cases hfill <;> rfl)).2]
    exact hr.worked.captures ih
  · obtain ⟨body', captured, hb, hcaptured, rfl⟩ := returns_lambda h
    -- The list is made when the body has been worked on.
    refine forall_mem_cons.2 ⟨⟨head.captured, mem_cons_self, s', goal_grows body hb,
      .refl s', hcaptured⟩, ?_⟩
    exact (ih body mem_cons_self hb).mono (.refl s) (.refl s') fun _ => mem_cons_of_mem _
  · rcases atom_cases hg h with hatom |
      ⟨_, _, _, args, _, head, _, _, _, _, _, rfl, hhead, -, hcaptured, hbody, rfl⟩
    · rw [hatom.lambdas_eq]
      exact capturesFrom_nil
    · rw [Goal.gather, Goal.gather, (callGoal_getsWitnesses hbody).lambdas_eq, append_nil]
      exact forall_mem_singleton.2 ⟨args, mem_singleton_self args, s',
        (hhead.grows.trans (callGoal_advances hbody)).toGrows, .refl s', hcaptured⟩

theorem plain_of_mem_assigns :
    ∀ g ∈ Goal.assigns targets sources context, g.isAtom ∧ g.info.determinism = .det := by
  rw [Goal.assigns]
  exact forall_mem_map.2 fun _ _ => ⟨rfl, rfl⟩

theorem produceExistentials_plain
    (h : Returns (produceExistentials env pred declared out context) s setup s') :
    ∀ g ∈ setup, g.isAtom ∧ g.info.determinism = .det := by
  rcases produceExistentials_cases h with ⟨rfl, -⟩ | ⟨_, _, _, _, _, hm₁, hm₂, -, -, rfl⟩
  · exact fun g hg => by cases hg
  · simp only [forall_mem_append]
    exact ⟨⟨⟨hm₁.plain, plain_of_mem_assigns⟩, hm₂.plain⟩, plain_of_mem_assigns⟩

theorem procedure_captures {proc : Procedure}
    (h : Returns (procedure env pred proc) s (out, body) s') (himported : pred.status ≠ .imported) :
    ∃ before, (body = before ∨ body = before.requantify (.ofList out.head)) ∧
      CapturesFrom s s' (proc.body.gather Goal.ownCaptures) (before.gather Goal.ownLambda) := by
  obtain ⟨s₁, hhead, ⟨himp, -⟩ | ⟨-, g, s₂, existentials, hg, hex, before, hbefore, hbody⟩⟩ :=
    procedure_cases h
  · exact absurd himp himported
  · refine ⟨before, hbody, ?_⟩
    have hlambdas : before.gather Goal.ownLambda = g.gather Goal.ownLambda := by
      rw [hbefore]
      split
      · rfl
      · rw [gather_conjoin ownLambda_setInfo, Goal.gatherList,
          lambdas_of_forall_isAtom fun g hg => (produceExistentials_plain hex g hg).1, append_nil]
    rw [hlambdas]
    obtain ⟨parts, hparts⟩ := setupHead_cases hhead
    exact (goal_captures _ hg).mono hparts.grows (produceExistentials_grows hex) fun _ => id

/-- In a goal that is quantified anew, what a lambda expression captures is all that
    occurs free in its body and is no argument. All of this is among the non-local
    variables if and only if all of it is visible outside.

    Before its body is quantified anew, a lambda expression of a procedure captures what
    it, or the closure that it was, did before the witnesses came, and those free
    variables of its body that are witnesses for the whole procedure. The list is
    the same afterwards if and only if what was captured before occurs free in the
    body and is no argument, and all else that does so is such a witness. -/
theorem capture_lists (outside : VarSet) (g : Goal) :
    (∀ path i lhs head body kind,
      (g.requantify outside).part? path = some (.lambda i lhs head body kind) →
        head.captured = (body.freeVars.eraseMany head.args).toList ∧
        ((∀ v ∈ head.captured, v ∈ i.nonlocals) ↔
          ∀ v ∈ body.freeVars, v ∉ head.args → (g.requantify outside).Visible outside path v)) ∧
    ∀ env pred proc s out body s', Returns (procedure env pred proc) s (out, body) s' →
      pred.status ≠ .imported →
      ∃ before, (body = before ∨ body = before.requantify (.ofList out.head)) ∧
        ∀ path i lhs head b kind, before.part? path = some (.lambda i lhs head b kind) →
          ∃ old ∈ proc.body.gather Goal.ownCaptures, ∃ s₁ : WitnessState, s.Grows s₁ ∧ s₁.Grows s' ∧
            (∀ v, v ∈ head.captured ↔
              v ∈ old ∨ v ∈ b.freeVars ∧ v ∉ head.args ∧ s₁.isOuterWitness v) ∧
            ∃ i' head' b', (before.requantify (.ofList out.head)).part? path =
                some (.lambda i' lhs head' b' kind) ∧
              ((∀ v, v ∈ head'.captured ↔ v ∈ head.captured) ↔
                (∀ v ∈ old, v ∈ b.freeVars ∧ v ∉ head.args) ∧
                ∀ v ∈ b.freeVars, v ∉ head.args → v ∈ old ∨ s₁.isOuterWitness v) := by
  refine ⟨fun path i lhs head body kind h => ?_, fun env pred proc s out body s' h himported => ?_⟩
  · obtain ⟨hcaptured, hvisible⟩ := Goal.captured_of_part?_requantify h
    refine ⟨hcaptured, ?_⟩
    simp only [hcaptured, ← VarSet.mem_iff, Goal.capturedVars, VarSet.mem_eraseMany] at hvisible ⊢
    exact ⟨fun hall v hv hargs => (hvisible v ⟨hv, hargs⟩).1 (hall v ⟨hv, hargs⟩),
      fun hall v hv => (hvisible v hv).2 (hall v hv.1 hv.2)⟩
  · obtain ⟨before, hbody, hlambdas⟩ := procedure_captures h himported
    refine ⟨before, hbody, fun path i lhs head b kind hpath => ?_⟩
    obtain ⟨old, hold, s₁, hs₁, hs₁', hcaptured⟩ := hlambdas _ (Goal.mem_lambdas_of_part? hpath)
    obtain ⟨o, hafter, -⟩ := Goal.part?_requantify (.ofList out.head) before path
    rw [hpath, Option.map_some, Goal.requantify] at hafter
    refine ⟨old, hold, s₁, hs₁, hs₁', hcaptured, _, _, _, hafter, ?_⟩
    simp only [← VarSet.mem_iff, Goal.capturedVars, VarSet.mem_eraseMany, hcaptured]
    constructor
    · intro hsame
      exact ⟨fun v hv => (hsame v).2 (.inl hv), fun v hv hargs =>
        ((hsame v).1 ⟨hv, hargs⟩).imp_right fun hv => hv.2.2⟩
    · rintro ⟨hold, hnew⟩ v
      constructor
      · rintro ⟨hv, hargs⟩
        exact (hnew v hv hargs).imp_right fun hw => ⟨hv, hargs, hw⟩
      · rintro (hv | ⟨hv, hargs, -⟩)
        · exact hold v hv
        · exact ⟨hv, hargs⟩

end Synth

end

/-! ### Examples -/

namespace HiddenType

/-- `F = (pred :- X = 3)`. -/
def ownConstant : Goal :=
  .constructLambda ⟨0⟩ { captured := [], args := [], modes := [], determinism := .det }
    (.intConst ⟨1⟩ 3 context) context

/-- `X` is listed as captured, though it occurs in the body only. -/
theorem ownConstant_captured : ∃ i lhs head body kind,
    (ownConstant.requantify (.ofList [⟨0⟩])).part? [] = some (.lambda i lhs head body kind) ∧
      ⟨1⟩ ∈ head.captured ∧ ⟨1⟩ ∉ i.nonlocals :=
  ⟨_, _, _, _, _, rfl, by decide +kernel, by decide +kernel⟩

/-- It is not visible outside. Making witnesses explicit adds free variables only to
    what the closure of `hold` captures. -/
theorem capture_lists_hold :
    ¬ (ownConstant.requantify (.ofList [⟨0⟩])).Visible (.ofList [⟨0⟩]) [] ⟨1⟩ ∧
    ∃ env pred proc out body s' before, holding.findProc? ⟨⟨4⟩, ⟨0⟩⟩ = some (hold, proc) ∧
      Synth.Returns (Synth.procedure env pred proc) (.ofProc pred proc) (out, body) s' ∧
      (body = before ∨ body = before.requantify (.ofList out.head)) ∧
      ∀ path i lhs head b kind, before.part? path = some (.lambda i lhs head b kind) →
        ∀ v ∈ head.captured, v ∈ b.freeVars := by
  obtain ⟨hrequantified, hpass⟩ := Synth.capture_lists (.ofList [⟨0⟩]) ownConstant
  constructor
  · intro hvisible
    obtain ⟨-, hlisted⟩ := hrequantified [] _ _ _ _ _ rfl
    have hfree : ∀ v ∈ (Goal.intConst ⟨1⟩ 3 context).freeVars, v = ⟨1⟩ := by decide +kernel
    exact absurd (hlisted.2 fun v hv _ => hfree v hv ▸ hvisible) (by decide +kernel)
  · obtain ⟨m', -, -, hm', -⟩ := hold_setupVars
    obtain ⟨proc, hr, hcaptures⟩ : ∃ proc, holding.findProc? ⟨⟨4⟩, ⟨0⟩⟩ = some (hold, proc) ∧
        proc.body.gather Goal.ownCaptures = [[]] := ⟨_, rfl, rfl⟩
    obtain ⟨_, _, -, -, hchanged⟩ := Module.addWitnesses_proc hm' hr
    obtain ⟨-, env, pred, out, body, s', hc, hsame, -⟩ := hchanged (by decide +kernel)
    have himported : pred.status ≠ .imported := hsame.status_eq ▸ (by decide +kernel)
    obtain ⟨before, hbefore, hlambdas⟩ := hpass _ _ _ _ _ _ _ hc.returns himported
    refine ⟨_, pred, proc, out, body, s', before, hr, hc.returns, hbefore,
      fun path i lhs head b kind hpath v hv => ?_⟩
    obtain ⟨old, hold, s₁, -, -, hcaptured, -⟩ := hlambdas path i lhs head b kind hpath
    rw [hcaptures, List.mem_singleton] at hold
    rcases (hcaptured v).1 hv with hv | hv
    · rw [hold] at hv
      cases hv
    · exact hv.1

end HiddenType

end Clausal
