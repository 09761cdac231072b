import Clausal.Proofs.CodeShape

/-!
# Goals that are quantified

A goal is quantified (`Goal.Quantified`) if the non-local variables of every
goal in it are those that occur free in the goal and are visible outside it.
Quantifying makes a goal so, and leaves one that is so as it is. The body of a
tabled procedure is quantified before it is promised to be pure, and not after.
-/

namespace Clausal

open List

variable {outside : VarSet} {g : Goal} {proc : Procedure} {n : Nat}

theorem Purity.worst_impure (p : Purity) : p.worst .impure = .impure := by
  cases p <;> rfl

namespace Goal

/-! ### Free variables of a quantified goal -/

theorem freeVars_quantified (outside : VarSet) (g : Goal) :
    (quantified outside g).freeVars = g.freeVars :=
  freeVars_setInfo ..

theorem freeVarsArms_eq {arms : List (Symbol × Goal)} :
    freeVarsArms arms = freeVarsList (arms.map Prod.snd) := by
  induction arms with
  | nil => rfl
  | cons arm arms ih => rw [freeVarsArms, ih]; rfl

theorem freeVarsList_congr {gs gs' : List Goal}
    (h : Forall₂ (fun g g' => freeVars g' = freeVars g) gs gs') :
    freeVarsList gs' = freeVarsList gs := by
  induction h with
  | nil => rfl
  | cons hg _ ih => rw [freeVarsList, freeVarsList, hg, ih]

theorem freeVars_requantify (outside : VarSet) (g : Goal) :
    (g.requantify outside).freeVars = g.freeVars :=
  Congruent.requantify (P := fun g g' => freeVars g' = freeVars g)
    { refl := fun _ => rfl
      nonlocals := fun vars h => by rw [setNonlocals, freeVars_setInfo, h]
      conj := fun h => by rw [freeVars, freeVars, freeVarsList_congr h]
      disj := fun h => by rw [freeVars, freeVars, freeVarsList_congr h]
      switch := fun h => by
        rw [freeVars, freeVars, freeVarsArms_eq, freeVarsArms_eq,
          freeVarsList_congr (forall₂_map_snd h)]
      negation := fun h => by rw [freeVars, freeVars, h]
      ite := fun hc hy hn => by rw [freeVars, freeVars, hc, hy, hn]
      scope := fun h => by rw [freeVars, freeVars, h]
      lambda := fun h => by rw [freeVars, freeVars, h] } g outside

theorem freeVarsList_requantifyEach (outsides : List VarSet) (gs : List Goal) :
    freeVarsList (requantifyEach outsides gs) = freeVarsList gs :=
  freeVarsList_congr (forall₂_requantifyEach (P := fun g g' => freeVars g' = freeVars g)
    (fun _ => rfl) (fun g _ o => freeVars_requantify o g) outsides)

/-! ### What is visible outside a conjunct -/

theorem freeVarsList_eq_unions (gs : List Goal) :
    freeVarsList gs = VarSet.unions (gs.map freeVars) := by
  induction gs with
  | nil => rfl
  | cons g gs ih => rw [freeVarsList, ih]; rfl

theorem tailUnions_cons (s : VarSet) (ss : List VarSet) :
    tailUnions (s :: ss) = VarSet.unions (s :: ss) :: tailUnions ss := by
  induction ss generalizing s with
  | nil => rfl
  | cons s' ss ih =>
    have h := ih s'
    rw [tailUnions, h]
    rfl

theorem tailUnions_eq (ss : List VarSet) :
    tailUnions ss = VarSet.unions ss :: (tailUnions ss).tail := by
  cases ss with
  | nil => rfl
  | cons s ss => rw [tailUnions_cons]; rfl

theorem conjunctOutsides_cons (outside : VarSet) (g : Goal) (gs : List Goal) :
    conjunctOutsides outside (g :: gs) =
      (outside ∪ freeVarsList gs) :: conjunctOutsides (outside ∪ g.freeVars) gs := by
  rw [conjunctOutsides, map_cons, tailUnions_cons, tail_cons, tailUnions_eq,
    otherUnions, ← freeVarsList_eq_unions]
  rfl

theorem requantifyEach_conjunctOutsides (outside : VarSet) (g : Goal) (gs : List Goal) :
    requantifyEach (conjunctOutsides outside (g :: gs)) (g :: gs) =
      g.requantify (outside ∪ freeVarsList gs) ::
        requantifyEach (conjunctOutsides (outside ∪ g.freeVars) gs) gs := by
  rw [conjunctOutsides_cons, requantifyEach]

/-! ### Quantified goals -/

/-- The non-local variables of a goal are those that occur free in it and are
    visible outside. -/
def Narrow (outside : VarSet) (g : Goal) : Prop := g.info.nonlocals = g.freeVars ∩ outside

mutual

/-- The non-local variables of a goal and of all goals inside it are those that
    occur free there and are visible outside. -/
def Quantified (outside : VarSet) : Goal → Prop
  | .conj i k gs => Narrow outside (.conj i k gs) ∧ QuantifiedConj outside gs
  | .disj i gs => Narrow outside (.disj i gs) ∧ QuantifiedList outside gs
  | .switch i v f arms =>
    Narrow outside (.switch i v f arms) ∧ QuantifiedArms (outside.insert v) arms
  | .negation i g => Narrow outside (.negation i g) ∧ Quantified outside g
  | .ite i locals c y n =>
    Narrow outside (.ite i locals c y n) ∧
      Quantified (outside.eraseMany locals ∪ y.freeVars) c ∧
      Quantified (outside.eraseMany locals ∪ c.freeVars) y ∧ Quantified outside n
  | .scope i r g =>
    Narrow outside (.scope i r g) ∧ Quantified (outside.eraseMany r.hidden) g
  | .lambda i lhs head body k =>
    Narrow outside (.lambda i lhs head body k) ∧
      head.captured = (capturedVars head body).toList ∧
      Quantified ((capturedVars head body).insertMany head.args) body
  | .call i p n args => Narrow outside (.call i p n args)
  | .genericCall i p args ms => Narrow outside (.genericCall i p args ms)
  | .foreign i f => Narrow outside (.foreign i f)
  | .unify i lhs rhs k => Narrow outside (.unify i lhs rhs k)

/-- Of the goals of a conjunction: the variables of the others are visible
    outside each. -/
def QuantifiedConj (outside : VarSet) : List Goal → Prop
  | [] => True
  | g :: gs =>
    Quantified (outside ∪ freeVarsList gs) g ∧ QuantifiedConj (outside ∪ g.freeVars) gs

/-- Of goals of which one is run. -/
def QuantifiedList (outside : VarSet) : List Goal → Prop
  | [] => True
  | g :: gs => Quantified outside g ∧ QuantifiedList outside gs

/-- Of the arms of a switch. -/
def QuantifiedArms (outside : VarSet) : List (Symbol × Goal) → Prop
  | [] => True
  | (_, g) :: arms => Quantified outside g ∧ QuantifiedArms outside arms

end

theorem Quantified.narrow (h : g.Quantified outside) : g.Narrow outside := by
  cases g with
  | call | genericCall | foreign | unify => rwa [Quantified] at h
  | conj | disj | switch | negation | ite | scope | lambda =>
    rw [Quantified] at h
    exact h.1

theorem Quantified.nonlocals_subset (h : g.Quantified outside) {v : ProgVar}
    (hv : v ∈ g.info.nonlocals) : v ∈ g.freeVars ∧ v ∈ outside := by
  rw [h.narrow] at hv
  simpa using hv

theorem narrow_quantified (outside : VarSet) (g : Goal) :
    (quantified outside g).Narrow outside := by
  rw [Narrow, freeVars_quantified, quantified, setNonlocals, info_setInfo]

theorem quantified_eq_self_iff : quantified outside g = g ↔ g.Narrow outside := by
  constructor
  · intro h
    rw [← h]
    exact narrow_quantified outside g
  · intro h
    rw [quantified, setNonlocals, ← h, setInfo_info]

mutual

/-- A goal that is quantified already does not change. -/
theorem Quantified.requantify_eq : ∀ {g : Goal} {outside : VarSet}, g.Quantified outside →
    g.requantify outside = g
  | .conj .., _, h => by
    rw [requantify, QuantifiedConj.requantifyEach_eq h.2]
    exact quantified_eq_self_iff.2 h.1
  | .disj .., _, h => by
    rw [requantify, QuantifiedList.requantifyList_eq h.2]
    exact quantified_eq_self_iff.2 h.1
  | .switch .., _, h => by
    rw [requantify, QuantifiedArms.requantifyArms_eq h.2]
    exact quantified_eq_self_iff.2 h.1
  | .negation .., _, h | .scope .., _, h => by
    rw [requantify, Quantified.requantify_eq h.2]
    exact quantified_eq_self_iff.2 h.1
  | .ite .., _, h => by
    rw [requantify, Quantified.requantify_eq h.2.1, Quantified.requantify_eq h.2.2.1,
      Quantified.requantify_eq h.2.2.2]
    exact quantified_eq_self_iff.2 h.1
  | .lambda .., _, h => by
    rw [requantify, Quantified.requantify_eq h.2.2, ← h.2.1]
    exact quantified_eq_self_iff.2 h.1
  | .call .., _, h | .genericCall .., _, h | .foreign .., _, h | .unify .., _, h =>
    quantified_eq_self_iff.2 h

theorem QuantifiedConj.requantifyEach_eq : ∀ {gs : List Goal} {outside : VarSet},
    QuantifiedConj outside gs → requantifyEach (conjunctOutsides outside gs) gs = gs
  | [], _, _ => by rw [requantifyEach]
  | _ :: _, _, h => by
    rw [requantifyEach_conjunctOutsides, Quantified.requantify_eq h.1,
      QuantifiedConj.requantifyEach_eq h.2]

theorem QuantifiedList.requantifyList_eq : ∀ {gs : List Goal} {outside : VarSet},
    QuantifiedList outside gs → requantifyList outside gs = gs
  | [], _, _ => rfl
  | _ :: _, _, h => by
    rw [requantifyList, Quantified.requantify_eq h.1, QuantifiedList.requantifyList_eq h.2]

theorem QuantifiedArms.requantifyArms_eq : ∀ {arms : List (Symbol × Goal)} {outside : VarSet},
    QuantifiedArms outside arms → requantifyArms outside arms = arms
  | [], _, _ => rfl
  | (_, _) :: _, _, h => by
    rw [requantifyArms, Quantified.requantify_eq h.1, QuantifiedArms.requantifyArms_eq h.2]

end

/-- Quantifying makes a goal quantified. -/
theorem quantified_requantify (outside : VarSet) (g : Goal) :
    (g.requantify outside).Quantified outside := by
  induction g using parts_induction generalizing outside with
  | step g ih =>
  cases g with
  | conj i k gs =>
    refine ⟨narrow_quantified outside (.conj i k _), ?_⟩
    induction gs generalizing outside with
    | nil => trivial
    | cons g gs ih' =>
      obtain ⟨hg, hgs⟩ := forall_mem_cons.1 ih
      rw [requantifyEach_conjunctOutsides, QuantifiedConj, freeVars_requantify,
        freeVarsList_requantifyEach]
      exact ⟨hg _, ih' _ hgs⟩
  | disj i gs =>
    refine ⟨narrow_quantified outside (.disj i _), ?_⟩
    induction gs with
    | nil => trivial
    | cons g gs ih' =>
      obtain ⟨hg, hgs⟩ := forall_mem_cons.1 ih
      exact ⟨hg _, ih' hgs⟩
  | switch i v f arms =>
    refine ⟨narrow_quantified outside (.switch i v f _), ?_⟩
    induction arms with
    | nil => trivial
    | cons arm arms ih' =>
      obtain ⟨hg, hgs⟩ := forall_mem_cons.1 ih
      exact ⟨hg _, ih' hgs⟩
  | negation i g =>
    exact ⟨narrow_quantified outside (.negation i _), ih g mem_cons_self _⟩
  | ite i locals c y n =>
    refine ⟨narrow_quantified outside (.ite i locals _ _ _), ?_, ?_,
      ih n (by simp [parts, children]) _⟩
    · rw [freeVars_requantify]
      exact ih c (by simp [parts, children]) _
    · rw [freeVars_requantify]
      exact ih y (by simp [parts, children]) _
  | scope i r g => exact ⟨narrow_quantified outside (.scope i r _), ih g mem_cons_self _⟩
  | lambda i lhs head body k =>
    have hcaptured : capturedVars { head with captured := (capturedVars head body).toList }
        (body.requantify ((capturedVars head body).insertMany head.args)) =
          capturedVars head body := by
      rw [capturedVars, freeVars_requantify, capturedVars]
    rw [requantify]
    refine ⟨narrow_quantified outside (.lambda i lhs _ _ k), ?_, ?_⟩
    · rw [hcaptured]
    · rw [hcaptured]
      exact ih body mem_cons_self _
  | call i callee name args => exact narrow_quantified outside (.call i callee name args)
  | genericCall i callee args modes =>
    exact narrow_quantified outside (.genericCall i callee args modes)
  | foreign i code => exact narrow_quantified outside (.foreign i code)
  | unify i lhs rhs kind => exact narrow_quantified outside (.unify i lhs rhs kind)

/-- The quantified goals are the fixed points of quantifying. -/
theorem requantify_eq_self_iff (outside : VarSet) (g : Goal) :
    g.requantify outside = g ↔ g.Quantified outside :=
  ⟨fun h => h ▸ quantified_requantify outside g, Quantified.requantify_eq⟩

theorem purity_requantify (outside : VarSet) (g : Goal) :
    (g.requantify outside).info.purity = g.info.purity := by
  cases g <;> rw [requantify] <;> rfl

/-! ### Goals with effects -/

variable {gs : List Goal} {p : Purity}

theorem foldl_worst (hmem : p = .impure ∨ ∃ g ∈ gs, g.info.purity = .impure) :
    gs.foldl (fun p g => p.worst g.info.purity) p = .impure := by
  induction gs generalizing p with
  | nil => simpa using hmem
  | cons first gs ih =>
    refine ih ?_
    rcases hmem with rfl | ⟨g, hg, hp⟩
    · exact .inl rfl
    · rcases mem_cons.1 hg with rfl | hg
      · exact .inl (hp ▸ Purity.worst_impure p)
      · exact .inr ⟨g, hg, hp⟩

/-- A conjunction has the effects of its conjuncts. -/
theorem Mark.conjoin (h : g.Mark n) (hmem : g ∈ gs) (context : Context) :
    (conjoin gs context).Marked n := by
  obtain ⟨h, hatom⟩ := h
  have hflat : g ∈ gs.flatMap conjuncts := mem_flatMap.2 ⟨g, hmem, by simp [hatom]⟩
  unfold Goal.conjoin
  split
  · next g' hg' =>
    rw [hg', mem_singleton] at hflat
    exact hflat ▸ h
  · refine ⟨foldl_worst (.inr ⟨g, hflat, h.purity⟩), ?_⟩
    obtain ⟨v, hv, hn⟩ := h.var
    refine ⟨v, ?_, hn⟩
    rw [freeVars_exposeFree, freeVars]
    exact mem_freeVarsList.2 ⟨g, hflat, hv⟩

theorem purity_setBranches (i : GoalInfo) (branches : List (Option VarSet)) :
    (setBranches i branches).purity = i.purity := by
  unfold setBranches
  split <;> rfl

/-- A conditional has the effects of its condition. -/
theorem Marked.ifThenElse (h : g.Marked n) (yes no : Goal) (context : Context) :
    (ifThenElse g yes no context).Marked n := by
  obtain ⟨v, hv, hn⟩ := h.var
  refine ⟨?_, v, ?_, hn⟩
  · refine (purity_setBranches _ _).trans ?_
    show (g.info.purity.worst _).worst _ = _
    rw [h.purity]
    rfl
  · rw [Goal.ifThenElse, freeVars_exposeFree, freeVars]
    simp [hv]

end Goal

namespace TableEnv

open Synth

variable {e : TableEnv} {s s' : WitnessState} {tabled : Tabled} {strictness : Strictness}

theorem generator_of_ownStacks (h : Returns (e.tabled proc) s (some tabled) s')
    (hown : proc.method = .minimalModel .ownStacks strictness) :
    ∃ gen, tabled.generator = some gen := by
  simp only [TableEnv.tabled, hown, returns_bind, returns_pure, Option.some.injEq] at h
  obtain ⟨_, _, h, rfl, -⟩ := h
  obtain ⟨gen, _, _, -, -, hsome⟩ := returns_ownStacks h
  exact ⟨gen, hsome⟩

theorem tabled_marked {pred : Predicate}
    (h : Returns (e.tabled proc) (.ofProc pred proc) (some tabled) s') :
    tabled.body.Marked proc.vars.size ∧ ∀ gen, tabled.generator = some gen →
      gen.outputs = proc.tabledHead.outputs ∧ gen.body.Marked proc.vars.size := by
  have hshape := tabled_shape h
  generalize proc.tableKind = kind, tabled.body = code, tabled.generator = gen at hshape
  cases hshape with
  | switch _ _ _ hmark => exact ⟨hmark.conjoin (by simp) _, by simp⟩
  | consume _ _ _ hmark _ houtputs hgen =>
    refine ⟨hmark.conjoin (by simp) _, ?_⟩
    rintro _ ⟨⟩
    obtain ⟨_, _, _, _, -, hmark, -, heq⟩ := hgen
    exact ⟨houtputs, heq ▸ hmark.conjoin (by simp) _⟩
  | action _ hmark => exact ⟨hmark.1.ifThenElse _ _ _, by simp⟩

end TableEnv

/-! ### Tabled bodies -/

/-- The goal is quantified, or, where the goal is promised to be pure, the goal
    inside the promise is. All free variables count as visible outside the
    promise. -/
def Goal.Sealed (outside : VarSet) (purity : Purity) (g : Goal) : Prop :=
  if purity = .pure then
    ∃ i inner, g = .scope i (.promise .pure) inner ∧ inner.Quantified outside ∧
      i.nonlocals = inner.freeVars
  else g.Quantified outside

namespace Module

variable {m m₀ m' : Module} {r : ProcRef} {proc : Procedure}

theorem within_promise (purity : Purity) (g : Goal) (context : Context) :
    Goal.within (.promise purity) g context =
      .scope { g.info with nonlocals := g.freeVars, context, purity } (.promise purity) g := by
  have hfree : g.freeVars.eraseMany [] = g.freeVars := by
    ext
    simp
  rw [Goal.within, Goal.exposeFree, Goal.freeVars, ScopeReason.hidden, hfree]
  rfl

theorem tabledBody_sealed (e : TableEnv) (purity : Purity) {head : List ProgVar} {body : Goal}
    (h : body.Marked n) (hhead : ∀ v ∈ head, v.index < n) :
    (tabledBody e purity head body).Sealed (.ofList head) purity ∧
      ((tabledBody e purity head body).requantify (.ofList head) = tabledBody e purity head body ↔
        purity ≠ .pure) := by
  have hinner := Goal.quantified_requantify (.ofList head) body
  have hpurity := (Goal.purity_requantify (.ofList head) body).trans h.purity
  rw [Goal.requantify_eq_self_iff, Goal.Sealed, tabledBody, TableEnv.promised]
  by_cases hpure : purity = .pure
  · rw [if_pos hpure, if_pos ⟨hpure, by simp [hpurity]⟩, within_promise]
    refine ⟨⟨_, _, rfl, hinner, rfl⟩, iff_of_false (fun hq => ?_) (not_not.2 hpure)⟩
    -- A variable of the code around the body occurs inside the promise, and counts
    -- as visible outside without being one of the head.
    obtain ⟨v, hv, hn⟩ := h.var
    have hfree : v ∈ (body.requantify (.ofList head)).freeVars := by
      rwa [Goal.freeVars_requantify]
    have hout := (hq.nonlocals_subset hfree).2
    exact Nat.not_lt.2 hn (hhead v (VarSet.mem_ofList.1 hout))
  · rw [if_neg hpure, if_neg fun h => hpure h.1]
    exact ⟨hinner, iff_of_true hinner hpure⟩

/-- The code of a tabled procedure, and that of its generator, is quantified
    against the head. The promise that is put around it, if the procedure was
    pure, is not: it has the variables of the tabling code for non-local. -/
theorem tabled_bodies_quantified (h : m.table = .ok m')
    (hsupported : m.options.tablingRefused? = none) (h₀ : m.readied = .ok m₀)
    (hproc : m₀.procAt? r = some proc) (hmethod : proc.method ≠ .normal)
    (hhead : ∀ v ∈ proc.head, v.index < proc.vars.size) :
    ∃ proc', m'.procAt? r = some proc' ∧ proc'.head = proc.head ∧
      proc'.body.Sealed (.ofList proc'.head) proc.body.info.purity ∧
      (proc'.body.requantify (.ofList proc'.head) = proc'.body ↔
        proc.body.info.purity ≠ .pure) ∧
      ∀ strictness, proc.method = .minimalModel .ownStacks strictness →
        ∃ i gen, m₀.preds.size ≤ i.index ∧ m'.procAt? ⟨i, ⟨0⟩⟩ = some gen ∧
          gen.head = proc.headOf .output ∧
          gen.body.Sealed (.ofList gen.head) proc.body.info.purity ∧
          (gen.body.requantify (.ofList gen.head) = gen.body ↔ proc.body.info.purity ≠ .pure) := by
  obtain ⟨env, pred, tabled, s, added, hgrows, htabled, hplace, hnew⟩ :=
    (reworks_of_readied h hsupported h₀).tabled hproc hmethod
  obtain ⟨hbody, hgen⟩ := TableEnv.tabled_marked htabled.returns
  obtain ⟨hsealed, hfixed⟩ := tabledBody_sealed (env.tableEnv r pred proc) proc.body.info.purity
    hbody hhead
  refine ⟨_, hplace, rfl, hsealed, hfixed, fun strictness hown => ?_⟩
  rcases htabled.added_cases with ⟨hnone, -⟩ | ⟨g, gen, hsome, hadded, hprocs⟩
  · obtain ⟨g, hg⟩ := TableEnv.generator_of_ownStacks htabled.returns hown
    rw [hnone] at hg
    cases hg
  · obtain ⟨houtputs, hmarked⟩ := hgen g hsome
    have houtputs_lt : ∀ v ∈ g.outputs, v.index < proc.vars.size := by
      rw [houtputs]
      exact fun v hv => hhead v (Mode.mem_of_mem_vars hv)
    obtain ⟨hsealed, hfixed⟩ := tabledBody_sealed (env.tableEnv r pred proc) proc.body.info.purity
      hmarked houtputs_lt
    exact ⟨env.nextPred, _, hgrows.size_le, hnew gen 0 _ hadded (by rw [hprocs]; rfl), houtputs,
      hsealed, hfixed⟩

end Module

/-! ### Examples -/

namespace TabledExample

/-- A procedure that copies its input, tabled with a generator. -/
def copyModule : Module :=
  let m := Module.start "m"
  m.declare
    { name := "copy"
      args := [.input "X" .int, .output "Y" .int]
      determinism := .nondet
      method := .minimalModel .ownStacks .allStrict }
    (.assign ⟨1⟩ ⟨0⟩ (m.context 1))

/-- The procedure and its generator are both promised to be pure, and neither
    promise is quantified. -/
theorem copy_sealed : ∃ m' proc' i gen, copyModule.table = .ok m' ∧
    m'.procAt? tabledProc = some proc' ∧ m'.procAt? ⟨i, ⟨0⟩⟩ = some gen ∧
    proc'.body.Sealed (.ofList proc'.head) .pure ∧
    proc'.body.requantify (.ofList proc'.head) ≠ proc'.body ∧
    gen.body.Sealed (.ofList gen.head) .pure ∧
    gen.body.requantify (.ofList gen.head) ≠ gen.body := by
  obtain ⟨m', _, hm', -, -⟩ := Module.exists_of_table (m := copyModule) (r := tabledProc)
    (q := fun _ => true) (by decide +kernel)
  obtain ⟨proc', hproc', -, hsealed, hfixed, hgen⟩ := Module.tabled_bodies_quantified hm' rfl rfl
    (Module.procAt?_declare ..) (by decide) (by decide)
  obtain ⟨i, gen, -, hgen', -, hgsealed, hgfixed⟩ := hgen _ rfl
  exact ⟨m', proc', i, gen, hm', hproc', hgen', hsealed, fun h => hfixed.1 h rfl, hgsealed,
    fun h => hgfixed.1 h rfl⟩

/-- A procedure that does nothing, checked for loops. -/
def idleModule : Module :=
  let m := Module.start "m"
  m.declare { name := "p", args := [.input "X" .int], method := .loopCheck .allStrict }
    (.success (m.context 1))

/-- Of the variables that are non-local to the tabled body, four are not visible
    outside. -/
theorem idle_body_not_quantified : ∃ m' proc', idleModule.table = .ok m' ∧
    m'.procAt? tabledProc = some proc' ∧ proc'.head = [⟨0⟩] ∧
    proc'.body.info.nonlocals = .ofList [⟨0⟩, ⟨1⟩, ⟨2⟩, ⟨3⟩, ⟨4⟩] ∧
    proc'.body.requantify (.ofList proc'.head) ≠ proc'.body := by
  obtain ⟨m', proc', hm', hproc', h⟩ := Module.exists_of_table (m := idleModule) (r := tabledProc)
    (q := fun p => p.head = [⟨0⟩] ∧ p.body.info.nonlocals = .ofList [⟨0⟩, ⟨1⟩, ⟨2⟩, ⟨3⟩, ⟨4⟩])
    (by decide +kernel)
  obtain ⟨hhead, hnonlocals⟩ := of_decide_eq_true h
  refine ⟨m', proc', hm', hproc', hhead, hnonlocals, fun hfixed => ?_⟩
  have hq := (Goal.requantify_eq_self_iff _ _).1 hfixed
  have hmem : (⟨1⟩ : ProgVar) ∈ proc'.body.info.nonlocals := by
    rw [hnonlocals]
    decide
  have := (hq.nonlocals_subset hmem).2
  rw [hhead] at this
  revert this
  decide

end TabledExample

end Clausal
