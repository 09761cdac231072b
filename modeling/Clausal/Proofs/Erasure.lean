import Clausal.Proofs.CallSites
import Clausal.Proofs.Effects

/-!
# Erasing witnesses

The pass only adds: what is left of a body when the witnesses are erased is the
body that it was made from. New variables are those that the table of the
procedure did not have. Goals that build, assign or access witnesses have no
others and go altogether; the other goals lose the new variables among their
arguments.

Bodies are compared as rows of goals (`Goal.row`): plain conjunctions are
flattened, and of what is known of a goal only its context counts. Other goals
are nodes that have rows as parts. Two goals do not come back as they were
(`Restored`): the closure of a predicate that takes witnesses, and a unification
that had type-infos before, which are lost.
-/

namespace Clausal

open List Goal

variable {g : Goal} {modes : List Mode} {kind : Unification} {context : Context}
  {args : List ProgVar} {lhs : ProgVar} {info : GoalInfo} {pred : Predicate} {new : ProgVar → Bool}
  {env : WitnessEnv} {i callInfo : GoalInfo} {ws targets sources : List ProgVar} {v : ProgVar}
  {out : WitnessHead}

/-! ### Rows -/

/-- A goal and its parts: the goal with nothing in their places, and what is
    left of each of them. -/
inductive Skeleton where
  | node (label : Goal) (parts : List (List Skeleton))

/-- The goal without its parts. -/
def Skeleton.label : Skeleton → Goal
  | .node label _ => label

/-- What is known of a goal, reduced to its context. -/
def GoalInfo.bare (i : GoalInfo) : GoalInfo := { context := i.context }

section

variable (new : ProgVar → Bool)

/-- The variables that are not new. -/
def keepOld (vs : List ProgVar) : List ProgVar := vs.filter (!new ·)

/-- The modes of the variables that are not new. -/
def keepModes : List ProgVar → List Mode → List Mode
  | v :: vs, mode :: modes => if new v then keepModes vs modes else mode :: keepModes vs modes
  | _, modes => modes

def UnifyRhs.keepOld : UnifyRhs → UnifyRhs
  | .var v => .var v
  | .functor f args => .functor f (Clausal.keepOld new args)

def Unification.keepOld : Unification → Unification
  | .construct v f args => .construct v f (Clausal.keepOld new args)
  | .deconstruct v f args canFail => .deconstruct v f (Clausal.keepOld new args) canFail
  | .assign v w => .assign v w
  | .test v w => .test v w
  | .complicated canFail typeInfos => .complicated canFail (Clausal.keepOld new typeInfos)

namespace Goal

/-- Whether a goal does what is done for witnesses: it builds, assigns or
    accesses something. A call without arguments accesses nothing. -/
def mayBeSetup : Goal → Bool
  | .call _ callee _ args =>
    !args.isEmpty && (dictionaryAccessors.map Primitive.proc).contains callee
  | .unify _ _ _ (.construct ..) | .unify _ _ _ (.assign ..) => true
  | _ => false

/-- Whether a goal is there for witnesses only: all its variables are new. -/
def isSetup (g : Goal) : Bool := g.atomVars.all new && g.mayBeSetup

/-- A goal without parts, without its new variables. -/
def eraseAtom : Goal → Goal
  | .call i callee name args => .call i.bare callee name (keepOld new args)
  | .genericCall i callee args modes =>
    .genericCall i.bare callee (keepOld new args) (keepModes new args modes)
  | .foreign i code =>
    .foreign i.bare { code with
      args := code.args.filter (!new ·.var), extraArgs := code.extraArgs.filter (!new ·.var) }
  | .unify i lhs rhs kind => .unify i.bare lhs (rhs.keepOld new) (kind.keepOld new)
  | g => g

/-- What is left of a goal without parts. -/
def atomRow (g : Goal) : List Skeleton :=
  if g.isSetup new then [] else [.node (g.eraseAtom new) []]

/-- What stands in the place of a part. -/
def hole : Goal := .success {}

end Goal

end

namespace Goal

mutual

/-- The goals that are left of a goal, in order. The arguments of a lambda
    expression are not new to its body. -/
def row (new : ProgVar → Bool) : Goal → List Skeleton
  | .conj _ .plain gs => (rows new gs).flatten
  | .conj i .parallel gs => [.node (.conj i.bare .parallel []) (rows new gs)]
  | .disj i gs => [.node (.disj i.bare []) (rows new gs)]
  | .switch i v canFail arms =>
    [.node (.switch i.bare v canFail ((arms.map Prod.fst).map (·, hole))) (rowsOfArms new arms)]
  | .negation i g => [.node (.negation i.bare hole) [row new g]]
  | .ite i locals c y n =>
    [.node (.ite i.bare locals hole hole hole) [row new c, row new y, row new n]]
  | .scope i reason g => [.node (.scope i.bare reason hole) [row new g]]
  | .lambda i lhs head body kind =>
    [.node (.lambda i.bare lhs { head with captured := [] } hole kind)
      [row (fun v => new v && !head.args.contains v) body]]
  | .call i callee name args => atomRow new (.call i callee name args)
  | .genericCall i callee args modes => atomRow new (.genericCall i callee args modes)
  | .foreign i code => atomRow new (.foreign i code)
  | .unify i lhs rhs kind => atomRow new (.unify i lhs rhs kind)

def rows (new : ProgVar → Bool) : List Goal → List (List Skeleton)
  | [] => []
  | g :: gs => row new g :: rows new gs

def rowsOfArms (new : ProgVar → Bool) : List (Symbol × Goal) → List (List Skeleton)
  | [] => []
  | (_, g) :: arms => row new g :: rowsOfArms new arms

end

/-! ### What the rows of goals depend on -/

section

-- The equations are proved here, before several proofs ask for them at once.
attribute [local simp] row rows rowsOfArms

theorem row_setInfo (h : i.context = g.info.context) :
    (g.setInfo i).row new = g.row new := by
  have hbare : i.bare = g.info.bare := by rw [GoalInfo.bare, GoalInfo.bare, h]
  cases g with
  | conj info kind gs =>
    cases kind with
    | plain => rw [setInfo, row, row]
    | parallel =>
      rw [setInfo, row, row, hbare]
      rfl
  | unify info lhs rhs kind =>
    rw [setInfo, row, row, atomRow, atomRow, eraseAtom, eraseAtom, hbare]
    cases kind <;> rfl
  | call | genericCall | foreign =>
    rw [setInfo, row, row, atomRow, atomRow, eraseAtom, eraseAtom, hbare]
    rfl
  | _ =>
    rw [setInfo, row, row, hbare]
    rfl

@[simp] theorem row_setNonlocals (vars : VarSet) (g : Goal) :
    (g.setNonlocals vars).row new = g.row new := row_setInfo rfl

theorem rows_append (gs gs' : List Goal) : rows new (gs ++ gs') = rows new gs ++ rows new gs' := by
  induction gs with
  | nil => rfl
  | cons g gs ih => rw [cons_append, rows, rows, ih, cons_append]

theorem flatten_rows_conjuncts (g : Goal) : (rows new g.conjuncts).flatten = g.row new := by
  unfold conjuncts
  split
  · rw [row]
  · simp

theorem flatten_rows_flatMap (gs : List Goal) :
    (rows new (gs.flatMap conjuncts)).flatten = (rows new gs).flatten := by
  induction gs with
  | nil => rfl
  | cons g gs ih =>
    rw [flatMap_cons, rows_append, flatten_append, flatten_rows_conjuncts, ih, rows,
      flatten_cons]

theorem row_conjoin (gs : List Goal) (context : Context) :
    (conjoin gs context).row new = (rows new gs).flatten := by
  rw [← flatten_rows_flatMap gs]
  unfold conjoin
  split
  · next g hg => simp [hg]
  · rw [exposeFree, row_setNonlocals, row]

theorem row_withSetup (setup : List Goal) (g : Goal) :
    (withSetup setup g).row new = (rows new setup).flatten ++ g.row new := by
  cases setup with
  | nil => rfl
  | cons k ks =>
    rw [withSetup, if_neg (by simp), row_setNonlocals, row_conjoin, rows_append,
      flatten_append]
    simp

theorem rowsOfArms_eq (arms : List (Symbol × Goal)) :
    rowsOfArms new arms = rows new (arms.map Prod.snd) := by
  induction arms with
  | nil => rfl
  | cons arm arms ih => simp [ih]

end

theorem row_requantify (g : Goal) (new : ProgVar → Bool) (outside : VarSet) :
    (g.requantify outside).row new = g.row new := by
  have hrows : ∀ {gs gs'} new, Forall₂ (fun g g' => ∀ new, row new g' = row new g) gs gs' →
      rows new gs' = rows new gs := by
    intro gs gs' new h
    induction h with
    | nil => rfl
    | cons hg _ ih => rw [rows, rows, hg, ih]
  refine Congruent.requantify (P := fun g g' => ∀ new, row new g' = row new g)
    { refl := fun _ _ => rfl
      nonlocals := fun vars h new => by rw [row_setNonlocals, h]
      conj := fun {i k gs gs'} h new => by cases k <;> rw [row, row, hrows new h]
      disj := fun h new => by rw [row, row, hrows new h]
      switch := fun {i v f arms arms'} h new => ?_
      negation := fun h new => by rw [row, row, h]
      ite := fun hc hy hn new => by rw [row, row, hc, hy, hn]
      scope := fun h new => by rw [row, row, h]
      lambda := fun h new => by rw [row, row, h] } g outside new
  have hsymbols : arms'.map Prod.fst = arms.map Prod.fst := by
    induction h with
    | nil => rfl
    | cons harm _ ih => rw [map_cons, map_cons, harm.1, ih]
  rw [row, row, hsymbols, rowsOfArms_eq, rowsOfArms_eq, hrows new (forall₂_map_snd h)]

end Goal

/-! ### What comes back -/

/-- What was before, and what is left afterwards: the same, but for closures of
    predicates that take witnesses and for type-infos of unifications. Such a
    closure has become a lambda expression that calls its predicate, with the
    arguments of the closure and then its own. The type-infos that a unification
    has before are all replaced. -/
inductive Restored (m : Module) : Skeleton → Skeleton → Prop
  | node {label : Goal} {parts parts' : List (List Skeleton)}
      (each : Forall₂ (Forall₂ (Restored m)) parts parts') :
      Restored m (.node label parts) (.node label parts')
  | unification {i : GoalInfo} {lhs rhs : ProgVar} {canFail : Bool} {typeInfos : List ProgVar} :
      Restored m (.node (.unify i lhs (.var rhs) (.complicated canFail typeInfos)) [])
        (.node (.unify i lhs (.var rhs) (.complicated canFail [])) [])
  | closure {i : GoalInfo} {lhs : ProgVar} {callee : ProcRef} {args : List ProgVar}
      {kind : Unification} {pred : Predicate} {proc : Procedure} {head : LambdaHead}
      (found : m.findProc? callee = some (pred, proc)) (takes_witnesses : pred.witnessCount ≠ 0)
      (purity : head.purity = .pure) (determinism : head.determinism = proc.determinism)
      (modes : head.modes = proc.modes.drop (proc.modes.length - head.args.length))
      (arity : (args ++ head.args).length = pred.argTypes.length) :
      Restored m (.node (.unify i lhs (.functor (.closure callee) args) kind) [])
        (.node (.lambda i lhs head .hole kind)
          [[.node (.call i callee pred.symName (args ++ head.args)) []]])

/-! ### Goals that go, and variables that go -/

/-- What is on record is new, and so is every variable that is added. -/
structure Marks (new : ProgVar → Bool) (s : WitnessState) : Prop where
  records : s.witnesses.All fun _ v => new v = true
  later : ∀ v : ProgVar, s.vars.size ≤ v.index → new v = true

section

variable {s s' : WitnessState} {vs : List ProgVar}

theorem keepOld_none (vs : List ProgVar) : keepOld (fun _ => false) vs = vs := by simp [keepOld]

theorem keepOld_old (h : ∀ v ∈ vs, new v = false) : keepOld new vs = vs :=
  filter_eq_self.2 fun v hv => by rw [h v hv]; rfl

theorem keepOld_new (h : ∀ v ∈ vs, new v = true) : keepOld new vs = [] :=
  filter_eq_nil_iff.2 fun v hv => by rw [h v hv]; decide

theorem keepOld_append (hvs : ∀ v ∈ vs, new v = true) (hws : ∀ w ∈ ws, new w = false) :
    keepOld new (vs ++ ws) = ws := by
  rw [keepOld, filter_append]
  exact (congrArg₂ (· ++ ·) (keepOld_new hvs) (keepOld_old hws)).trans (nil_append _)

theorem keepModes_old (h : ∀ v ∈ vs, new v = false) : keepModes new vs modes = modes := by
  induction vs generalizing modes with
  | nil => cases modes <;> rfl
  | cons v vs ih =>
    cases modes with
    | nil => rfl
    | cons mode modes =>
      rw [keepModes, h v mem_cons_self, ih fun w hw => h w (mem_cons_of_mem _ hw)]
      rfl

theorem keepModes_append (mode : Mode) (hvs : ∀ v ∈ vs, new v = true) :
    keepModes new (vs ++ ws) (vs.map (fun _ => mode) ++ modes) = keepModes new ws modes := by
  induction vs with
  | nil => rfl
  | cons v vs ih =>
    rw [cons_append, map_cons, cons_append, keepModes,
      if_pos (hvs v mem_cons_self),
      ih fun w hw => hvs w (mem_cons_of_mem _ hw)]

theorem UnifyRhs.keepOld_old {rhs : UnifyRhs} (h : ∀ v ∈ rhs.vars, new v = false) :
    rhs.keepOld new = rhs := by
  cases rhs with
  | var v => rfl
  | functor f args => exact congrArg _ (Clausal.keepOld_old h)

theorem Unification.keepOld_addCellArgs (hvs : ∀ v ∈ vs, new v = true)
    (h : ∀ v ∈ kind.vars, new v = false) : (Synth.addCellArgs vs kind).keepOld new = kind := by
  cases kind with
  | construct v f args =>
    exact congrArg _ (keepOld_append hvs fun w hw => h w (mem_cons_of_mem _ hw))
  | deconstruct v f args canFail =>
    exact congrArg (Unification.deconstruct v f · canFail)
      (keepOld_append hvs fun w hw => h w (mem_cons_of_mem _ hw))
  | assign | test => rfl
  | complicated canFail typeInfos => exact congrArg _ (Clausal.keepOld_old h)

theorem Unification.keepOld_old (h : ∀ v ∈ kind.vars, new v = false) : kind.keepOld new = kind := by
  have hnil : Synth.addCellArgs [] kind = kind := by cases kind <;> rfl
  rw [← hnil, keepOld_addCellArgs (by simp) (hnil.symm ▸ h)]
  exact hnil.symm

theorem Setup.erased {X : ProgVar → Prop} {goals : List Goal} {bound : List ProgVar}
    (h : Setup context X goals bound) (hX : ∀ v, X v → new v = true)
    (hb : ∀ b ∈ bound, new b = true) : (Goal.rows new goals).flatten = [] := by
  have hset : ∀ g : Goal, g.isSetup new = true → g.atomRow new = [] := fun g hg => if_pos hg
  induction h with
  | nil => rfl
  | @construct X v f args goals bound hf hargs _ ih =>
    obtain ⟨hv, hb⟩ := forall_mem_cons.1 hb
    have hargs : ∀ a ∈ args, new a = true := fun a ha => hX a (hargs a ha)
    rw [Goal.rows, flatten_cons, ih (fun w hw => hw.elim (fun h => h ▸ hv) (hX w)) hb,
      append_nil]
    refine hset (.construct v f args context) ?_
    show ((v :: args ++ (v :: args)).all new && true) = true
    simpa [hv] using hargs
  | @accessor X p d slot r goals bound hp hargs _ ih =>
    obtain ⟨hr, hb⟩ := forall_mem_cons.1 hb
    rw [Goal.rows, flatten_cons, ih (fun w hw => hw.elim (fun h => h ▸ hr) (hX w)) hb,
      append_nil]
    refine hset (Synth.accessor p d slot r context) ?_
    show ([d, slot, r].all new && (dictionaryAccessors.map Primitive.proc).contains p.proc) = true
    simpa [hr, hX d (hargs d (by simp)), hX slot (hargs slot (by simp))] using ⟨p, hp, rfl⟩

theorem Serves.erased {inputs outputs : List ProgVar} {setup : List Goal}
    (h : Serves context s inputs outputs setup s') (hs : Marks new s) :
    (Goal.rows new setup).flatten = [] ∧ ∀ v ∈ inputs ++ outputs, new v = true := by
  have hnew : s.NewIn s' fun _ v => new v = true := fun _ v hv _ => hs.later v hv
  obtain ⟨bound, hb, -, hsetup⟩ := h.block
  obtain ⟨hgoals, -⟩ := hsetup _ (h.advances.records _ hs.records hnew)
  exact ⟨hgoals.erased (fun _ h => h) fun b hmem => hs.later b (hb.new b hmem).1,
    h.made _ hs.records hnew⟩

theorem Goal.row_withSetup_erased {setup : List Goal} (h : (rows new setup).flatten = [])
    (g : Goal) : (withSetup setup g).row new = g.row new := by
  rw [row_withSetup, h, nil_append]

namespace Goal

theorem atomRow_of_kept (h : g.mayBeSetup = false) :
    g.atomRow new = [.node (g.eraseAtom new) []] := by
  rw [atomRow, isSetup, h, Bool.and_false]
  rfl

theorem isSetup_of_mem (hv : v ∈ g.atomVars) (h : new v = false) :
    g.isSetup new = false := by
  have hall : g.atomVars.all new = false :=
    all_eq_false.2 ⟨v, hv, by rw [h]; exact Bool.false_ne_true⟩
  rw [isSetup, hall, Bool.false_and]

theorem atomRow_old (h : ∀ v ∈ g.atomVars, new v = false) :
    g.atomRow new = [.node (g.eraseAtom fun _ => false) []] := by
  -- A goal that sets up witnesses has new variables only, and it has some.
  have hset : g.isSetup new = false := by
    cases hvars : g.atomVars with
    | cons v vs =>
      have hv : v ∈ g.atomVars := hvars ▸ mem_cons_self
      exact isSetup_of_mem hv (h v hv)
    | nil =>
      cases g with
      | call i callee name args =>
        obtain rfl : args = [] := hvars
        rfl
      | unify => cases hvars
      | _ => exact Bool.and_false _
  -- With old variables only, erasing drops no argument.
  have herase : g.eraseAtom new = g.eraseAtom fun _ => false := by
    cases g with
    | call i callee name args =>
      have hargs : ∀ v ∈ args, new v = false := h
      rw [eraseAtom, eraseAtom, keepOld_none, keepOld_old hargs]
    | genericCall i callee args modes =>
      have hargs : ∀ v ∈ args, new v = false := fun v hv => h v (mem_append_right _ hv)
      rw [eraseAtom, eraseAtom, keepOld_none, keepOld_old hargs, keepModes_old hargs,
        keepModes_old fun _ _ => rfl]
    | foreign i code =>
      have hargs : ∀ a ∈ code.args ++ code.extraArgs, (!new a.var) = true := fun a ha => by
        rw [h a.var (mem_map_of_mem ha)]; rfl
      rw [eraseAtom, eraseAtom,
        filter_eq_self.2 fun a ha => hargs a (mem_append_left _ ha),
        filter_eq_self.2 fun a ha => hargs a (mem_append_right _ ha)]
      simp
    | unify i lhs rhs kind =>
      rw [eraseAtom, eraseAtom, UnifyRhs.keepOld_old fun v hv => h v (by simp [atomVars, hv]),
        UnifyRhs.keepOld_old fun _ _ => rfl,
        Unification.keepOld_old fun v hv => h v (by simp [atomVars, hv]),
        Unification.keepOld_old fun _ _ => rfl]
    | _ => rfl
  rw [atomRow, hset, herase]
  rfl

theorem row_unify_added (i' : GoalInfo) (hi : i'.bare = i.bare) {f : Symbol}
    (hvs : ∀ v ∈ vs, new v = true)
    (h : ∀ v ∈ (Goal.unify i lhs (.functor f args) kind).atomVars, new v = false) :
    (Goal.unify i' lhs (.functor f (vs ++ args)) (Synth.addCellArgs vs kind)).row new =
      [.node (.unify i.bare lhs (.functor f args) kind) []] := by
  have hset :
      (Goal.unify i' lhs (.functor f (vs ++ args)) (Synth.addCellArgs vs kind)).isSetup new =
      false := isSetup_of_mem mem_cons_self (h lhs mem_cons_self)
  rw [row, atomRow, hset, eraseAtom, UnifyRhs.keepOld,
    keepOld_append hvs fun v hv => h v (by simp [atomVars, UnifyRhs.vars, hv]),
    Unification.keepOld_addCellArgs hvs fun v hv => h v (by simp [atomVars, hv]), hi]
  rfl

end Goal

namespace Synth

variable {g' : Goal}

theorem callGoal_row {callee : ProcRef} {name : SymName}
    (h : Returns (callGoal env info callee name args) s g' s') (hacc : env.env.DeclaresAccessors)
    (hs : Marks new s) (hargs : ∀ a ∈ args, new a = false) :
    g'.row new = [.node (.call info.bare callee name args) []] := by
  obtain ⟨pred, hpred, ⟨-, rfl, -⟩ | ⟨hnz, w, parts, hw, rfl⟩⟩ := callGoal_cases h
  · rw [Goal.row, atomRow_old (g := .call info callee name args) hargs, Goal.eraseAtom,
      keepOld_none]
  · obtain ⟨hsetup, hnew⟩ := hw.serves.erased hs
    -- The accessors take no witnesses, so this is none of them.
    have hcallee : (dictionaryAccessors.map Primitive.proc).contains callee = false := by
      rw [contains_eq_mem, decide_eq_false_iff_not]
      intro hmem
      obtain ⟨p, hp, rfl⟩ := mem_map.1 hmem
      obtain rfl := Option.some.inj ((hacc p hp).symm.trans (Module.pred_eq_ok.1 hpred))
      exact hnz (Module.witnessCount_accessor _ hp)
    rw [row_withSetup_erased hsetup, Goal.row,
      atomRow_of_kept (by rw [Goal.mayBeSetup, hcallee, Bool.and_false]), Goal.eraseAtom,
      keepOld_append (fun v hv => hnew v (WitnessParts.mem_all.1 hv)) hargs]
    rfl

theorem genericGoal_row {callee : GenericCallee}
    (h : Returns (genericGoal env info callee args modes) s g' s') (hs : Marks new s)
    (hold : ∀ v ∈ callee.vars ++ args, new v = false) :
    g'.row new = [.node (.genericCall info.bare callee args modes) []] := by
  have hargs : ∀ a ∈ args, new a = false := fun a ha => hold a (mem_append_right _ ha)
  rcases genericGoal_cases h with ⟨rfl, -⟩ | ⟨infos, setup, hm, rfl⟩
  · rw [Goal.row, atomRow_old (g := .genericCall info callee args modes) hold, Goal.eraseAtom,
      keepOld_none, keepModes_old fun _ _ => rfl]
  · obtain ⟨hsetup, hinfos⟩ := hm.erased hs
    rw [append_nil] at hinfos
    rw [row_withSetup_erased hsetup, Goal.row, atomRow_of_kept rfl, Goal.eraseAtom,
      keepOld_append hinfos hargs, keepModes_append _ hinfos, keepModes_old hargs]
    rfl

theorem foreignGoal_row {code : ForeignCode} (h : Returns (foreignGoal env info code) s g' s')
    (hs : Marks new s) (hold : ∀ v ∈ (Goal.foreign info code).atomVars, new v = false) :
    g'.row new = [.node (.foreign info.bare code) []] := by
  obtain ⟨pred, -, ⟨-, rfl, -⟩ | ⟨-, w, parts, hw, rfl⟩⟩ := foreignGoal_cases h
  · rw [Goal.row, atomRow_old hold, Goal.eraseAtom]
    simp
  · obtain ⟨hsetup, hnew⟩ := hw.serves.erased hs
    have hwitnesses : (foreignWitnesses parts).filter (!new ·.var) = [] := by
      refine filter_eq_nil_iff.2 fun a ha => ?_
      have hmem : a.var ∈ parts.all := map_var_foreignWitnesses parts ▸ mem_map_of_mem ha
      simp [hnew a.var (WitnessParts.mem_all.1 hmem)]
    have hargs : ∀ a ∈ code.args ++ code.extraArgs, (!new a.var) = true := fun a ha => by
      rw [hold a.var (mem_map_of_mem ha)]
      rfl
    rw [row_withSetup_erased hsetup, Goal.row, atomRow_of_kept rfl, Goal.eraseAtom,
      filter_append, hwitnesses, nil_append,
      filter_eq_self.2 fun a ha => hargs a (mem_append_left _ ha),
      filter_eq_self.2 fun a ha => hargs a (mem_append_right _ ha)]
    rfl

end Synth

end

/-! ### Bodies -/

/-- Whether a variable is beyond a table of the given size. -/
def isNew (n : Nat) (v : ProgVar) : Bool := decide (n ≤ v.index)

/-- What is on record are variables of the table, and new ones. -/
structure WitnessState.Fresh (n : Nat) (s : WitnessState) : Prop where
  size : n ≤ s.vars.size
  records : s.witnesses.All fun _ v => n ≤ v.index ∧ v.index < s.vars.size

section

variable {n : Nat} {s s' : WitnessState}

theorem isNew_eq_false : isNew n v = false ↔ v.index < n := by
  rw [isNew, decide_eq_false_iff_not, Nat.not_le]

theorem WitnessState.Fresh.grows (h : s.Fresh n) (hs : s.Grows s') : s'.Fresh n where
  size := Nat.le_trans h.size hs.vars.size_le
  records := by
    refine hs.records _ (h.records.mono fun _ v hv => ⟨hv.1, ?_⟩) fun _ v hv ht => ⟨?_, ?_⟩
    · exact Nat.lt_of_lt_of_le hv.2 hs.vars.size_le
    · exact Nat.le_trans h.size hv
    · exact VarTable.lt_size_of_type ht

theorem WitnessState.Fresh.marks (h : s.Fresh n) : Marks (isNew n) s :=
  ⟨h.records.mono fun _ _ hv => decide_eq_true hv.1,
    fun _ hv => decide_eq_true (Nat.le_trans h.size hv)⟩

namespace Synth

theorem closure_restored {callee : ProcRef} (kind : Unification) {head : LambdaHead}
    {name : SymName} {body : Goal} {s₁ : WitnessState}
    (hpred : env.env.findPred? callee.pred = some pred) (hnz : pred.witnessCount ≠ 0)
    (hhead : ClosureHead env lhs callee args s head name s₁)
    (hcontext : callInfo.context = info.context)
    (hbody : Returns (callGoal env callInfo callee name (args ++ head.args)) s₁ body s')
    (hacc : env.env.DeclaresAccessors) (hs : s.Fresh n) (hargs : ∀ a ∈ args, a.index < n) :
    Restored env.env (.node (.unify info.bare lhs (.functor (.closure callee) args) kind) [])
      (.node (.lambda info.bare lhs { head with captured := [] } .hole kind)
        [body.row fun v => isNew n v && !head.args.contains v]) := by
  obtain ⟨q, proc, hproc, rfl, hdet, -, hmodes⟩ := hhead.proc
  rw [Module.proc_eq_ok] at hproc
  obtain rfl : q = pred := Option.some.inj ((Module.findProc?_eq_some.1 hproc).1.symm.trans hpred)
  have hmarks : Marks (fun v => isNew n v && !head.args.contains v) s₁ := by
    -- What is on record was there before the arguments of the lambda expression.
    have hnot : ∀ v : ProgVar, (∀ a ∈ head.args, a ≠ v) → n ≤ v.index →
        (isNew n v && !head.args.contains v) = true := fun v hv hn => by
      simpa [isNew, hn] using fun hmem => hv v hmem rfl
    refine ⟨(hhead.witnesses ▸ hs.records).mono fun _ v hv => hnot v (fun a ha h => ?_) hv.1,
      fun v hv => hnot v (fun a ha h => ?_) (Nat.le_trans (hs.grows hhead.grows.toGrows).size hv)⟩
    · exact absurd (h ▸ (hhead.args_new a ha).2) (Nat.not_lt.2 hv)
    · exact absurd (h ▸ (hhead.args_new a ha).1) (Nat.not_le.2 hv.2)
  have hrow := callGoal_row hbody hacc hmarks fun a ha => by
    rcases mem_append.1 ha with ha | ha
    · rw [isNew_eq_false.2 (hargs a ha), Bool.false_and]
    · simp [ha]
  have harity : (args ++ head.args).length = q.argTypes.length := by
    obtain ⟨p, hp, ⟨hz, -⟩ | ⟨-, w, parts, hw, -⟩⟩ := callGoal_cases hbody
    · exact absurd (Option.some.inj ((Module.pred_eq_ok.1 hp).symm.trans hpred) ▸ hz) hnz
    · rw [hw.arity, Option.some.inj ((Module.pred_eq_ok.1 hp).symm.trans hpred)]
  have hbare : callInfo.bare = info.bare := by rw [GoalInfo.bare, GoalInfo.bare, hcontext]
  rw [hrow, hbare]
  exact .closure hproc hnz hhead.purity hdet hmodes harity

theorem unifyGoal_restored {rhs : UnifyRhs} {g' : Goal}
    (h : Returns (unifyGoal env info lhs rhs kind) s g' s') (hacc : env.env.DeclaresAccessors)
    (hs : s.Fresh n) (hold : ∀ v ∈ (Goal.unify info lhs rhs kind).atomVars, v.index < n) :
    Forall₂ (Restored env.env) [.node (.unify info.bare lhs rhs kind) []]
      (g'.row (isNew n)) := by
  have hold' : ∀ v ∈ (Goal.unify info lhs rhs kind).atomVars, isNew n v = false :=
    fun v hv => isNew_eq_false.2 (hold v hv)
  have hsame : Forall₂ (Restored env.env) [.node (.unify info.bare lhs rhs kind) []]
      ((Goal.unify info lhs rhs kind).row (isNew n)) := by
    rw [Goal.row, atomRow_old hold', Goal.eraseAtom, UnifyRhs.keepOld_old fun _ _ => rfl,
      Unification.keepOld_old fun _ _ => rfl]
    exact .cons (.node .nil) .nil
  cases rhs with
  | var v =>
    rcases unifyGoal_var_cases h with ⟨rfl, -⟩ | ⟨canFail, old, infos, rfl, hserves, rfl⟩
    · exact hsame
    · have hnew : ∀ v ∈ infos, isNew n v = true := fun v hv =>
        (hserves.erased hs.marks).2 v (mem_append_left _ hv)
      rw [Goal.row, atomRow_of_kept rfl, Goal.eraseAtom, Unification.keepOld, keepOld_new hnew]
      exact .cons .unification .nil
  | functor f args =>
    cases f with
    -- A closure of a polymorphic predicate has become a lambda, whose row is the
    -- closure again.
    | closure callee =>
      obtain ⟨pred, hpred, ⟨-, rfl, -⟩ |
        ⟨hnz, head, name, s₁, callInfo, body, captured, hhead, hcontext, -, hbody, rfl⟩⟩ :=
        unifyGoal_closure_cases h
      · exact hsame
      · have hclosure := closure_restored kind (Module.pred_eq_ok.1 hpred) hnz hhead hcontext.1
          hbody hacc hs fun a ha => hold a (by simp [Goal.atomVars, UnifyRhs.vars, ha])
        rw [Goal.row]
        exact .cons hclosure .nil
    | cons name arity =>
      rcases consGoal_cases h with ⟨rfl, -⟩ | ⟨_, _, _, hserves, -, rfl⟩
      · exact hsame
      · obtain ⟨hsetup, hnew⟩ := hserves.erased hs.marks
        rw [row_withSetup_erased hsetup, row_unify_added (addWitnesses info _ _) rfl hnew hold']
        exact .cons (.node .nil) .nil
    | _ =>
      obtain ⟨rfl, -⟩ := returns_pure.1 h
      exact hsame

theorem Worked.restored {gs gs' : List Goal} (h : Worked env s gs gs' s')
    (ih : ∀ g ∈ gs, ∀ {g' s s'}, Returns (goal env g) s g' s' → s.Fresh n →
      Forall₂ (Restored env.env) (g.row fun _ => false) (g'.row (isNew n))) (hs : s.Fresh n) :
    Forall₂ (Forall₂ (Restored env.env)) (Goal.rows (fun _ => false) gs)
      (Goal.rows (isNew n) gs') := by
  induction h with
  | nil => exact .nil
  | cons hg _ ih' =>
    obtain ⟨hrestored, hrest⟩ := forall_mem_cons.1 ih
    rw [Goal.rows, Goal.rows]
    exact .cons (hrestored hg hs) (ih' hrest (hs.grows (goal_grows _ hg)))

/-- A body without its witnesses is the body before. -/
theorem goal_restored (hacc : env.env.DeclaresAccessors) (g : Goal) : ∀ {g' s s'},
    Returns (goal env g) s g' s' → s.Fresh n → (∀ v ∈ g.mentions, v.index < n) →
      Forall₂ (Restored env.env) (g.row fun _ => false) (g'.row (isNew n)) := by
  induction g using parts_induction with
  | step g ih =>
  intro g' s s' h hs hold
  have hparts : ∀ c ∈ g.parts, ∀ {g' s s'}, Returns (goal env c) s g' s' → s.Fresh n →
      Forall₂ (Restored env.env) (c.row fun _ => false) (g'.row (isNew n)) :=
    fun c hc g' s s' h hs => ih c hc h hs fun v hv => hold v (mem_mentions_of_mem_parts hc hv)
  rcases g.shape with hg | ⟨_, _, head, body, _, rfl⟩ | hg
  · obtain ⟨gs', _, hr, hfill⟩ := returns_compound hg h
    have hrows := hr.worked.restored hparts hs
    cases hfill with
    | @conj i k =>
      cases k with
      | plain =>
        rw [Goal.row, if_pos rfl, Goal.row, flatten_rows_flatMap]
        exact rel_flatten hrows
      | parallel =>
        rw [Goal.row, if_neg ConjKind.noConfusion, Goal.row]
        exact .cons (.node hrows) .nil
    | switch hsymbols =>
      rw [Goal.row, Goal.row, rowsOfArms_eq, rowsOfArms_eq, hsymbols]
      exact .cons (.node hrows) .nil
    | _ =>
      rw [Goal.row, Goal.row]
      exact .cons (.node hrows) .nil
  · obtain ⟨body', captured, hb, -, rfl⟩ := returns_lambda h
    rw [Goal.mentions] at hold
    -- The arguments of the lambda expression are not new anyway.
    have hargs : (fun v => isNew n v && !head.args.contains v) = isNew n := by
      funext v
      by_cases hv : v ∈ head.args
      · rw [isNew_eq_false.2 (hold v (by simp [hv])), Bool.false_and]
      · simp [hv]
    rw [Goal.row, Goal.row]
    refine .cons (.node (.cons ?_ .nil)) .nil
    rw [hargs]
    exact hparts body mem_cons_self hb hs
  cases g with
  | call =>
    rw [goal] at h
    rw [Goal.row, atomRow_old fun _ _ => rfl, Goal.eraseAtom, keepOld_none,
      callGoal_row h hacc hs.marks fun a ha => isNew_eq_false.2 (hold a ha)]
    exact .cons (.node .nil) .nil
  | genericCall =>
    rw [goal] at h
    rw [Goal.row, atomRow_old fun _ _ => rfl, Goal.eraseAtom, keepOld_none,
      keepModes_old fun _ _ => rfl,
      genericGoal_row h hs.marks fun a ha => isNew_eq_false.2 (hold a ha)]
    exact .cons (.node .nil) .nil
  | foreign =>
    rw [goal] at h
    rw [foreignGoal_row h hs.marks fun a ha => isNew_eq_false.2 (hold a ha), Goal.row,
      atomRow_old fun _ _ => rfl]
    exact .cons (by simpa [Goal.eraseAtom] using .node .nil) .nil
  | unify =>
    rw [goal] at h
    rw [Goal.row, atomRow_old fun _ _ => rfl, Goal.eraseAtom,
      UnifyRhs.keepOld_old fun _ _ => rfl, Unification.keepOld_old fun _ _ => rfl]
    exact unifyGoal_restored h hacc hs hold
  | _ => cases hg

end Synth

/-! ### Procedures -/

theorem Goal.rows_assigns (ht : ∀ v ∈ targets, new v = true) (hs : ∀ v ∈ sources, new v = true)
    (context : Context) :
    (rows new (assigns targets sources context)).flatten = [] := by
  induction targets generalizing sources with
  | nil => rfl
  | cons t ts ih =>
    cases sources with
    | nil => rfl
    | cons v vs =>
      obtain ⟨ht, hts⟩ := forall_mem_cons.1 ht
      obtain ⟨hv, hvs⟩ := forall_mem_cons.1 hs
      have hgone : (assign t v context).row new = [] :=
        if_pos (show ([t, v, t, v].all new && true) = true by simp [ht, hv])
      rw [assigns, zip_cons_cons, map_cons, rows, flatten_cons, hgone,
        nil_append]
      exact ih hts hvs

theorem Synth.produceExistentials_erased {declared : List ProgVar} {goals : List Goal}
    (h : Returns (produceExistentials env pred declared out context) s goals s') (hs : s.Fresh n)
    (hd : ∀ v ∈ out.existDictionaries, isNew n v = true)
    (hi : ∀ v ∈ out.existTypeInfos, isNew n v = true) :
    (Goal.rows (isNew n) goals).flatten = [] := by
  rcases produceExistentials_cases h with ⟨rfl, -⟩ | ⟨dicts, infos, _, _, _, hm₁, hm₂, -, -, rfl⟩
  · rfl
  · obtain ⟨hgoals₁, hdicts⟩ := hm₁.erased hs.marks
    obtain ⟨hgoals₂, hinfos⟩ := hm₂.erased (hs.grows hm₁.advances.toGrows).marks
    rw [append_nil] at hdicts hinfos
    simp only [rows_append, flatten_append, hgoals₁, hgoals₂,
      rows_assigns hd hdicts, rows_assigns hi hinfos, append_nil]

theorem WitnessState.Fresh.ofProc {proc : Procedure} (h : proc.witnesses = {}) :
    (WitnessState.ofProc pred proc).Fresh proc.vars.size := by
  refine ⟨Nat.le_refl _, ?_⟩
  rw [WitnessState.ofProc, h]
  constructor
  · intro t source ht
    cases ht
  · intro c v hc
    cases hc

theorem Synth.procedure_restored {proc : Procedure} {body : Goal} (hacc : env.env.DeclaresAccessors)
    (h : Returns (procedure env pred proc) (.ofProc pred proc) (out, body) s')
    (himported : pred.status ≠ .imported) (hempty : proc.witnesses = {})
    (hbody : ∀ v ∈ proc.body.mentions, v.index < proc.vars.size) :
    Forall₂ (Restored env.env) (proc.body.row fun _ => false)
      (body.row (isNew proc.vars.size)) := by
  obtain ⟨s₁, hhead, ⟨himp, -⟩ | ⟨-, g, s₂, existentials, hg, hex, g', rfl, hrequantify⟩⟩ :=
    procedure_cases h
  · exact absurd himp himported
  obtain ⟨parts, hparts⟩ := setupHead_cases hhead
  have hs₁ := (WitnessState.Fresh.ofProc hempty).grows hparts.grows
  have hnew : ∀ v ∈ parts.all, isNew proc.vars.size v = true :=
    fun v hv => WitnessParts.In.of_mem (X := fun v => isNew proc.vars.size v = true)
      ⟨fun v hv => decide_eq_true (hparts.new.1 v hv).1,
        fun v hv => decide_eq_true (hparts.new.2 v hv).1⟩ hv
  -- The goals that bind the existential witnesses assign new variables only, and
  -- leave no row.
  have hgone := produceExistentials_erased hex (hs₁.grows (goal_grows proc.body hg))
    (fun v hv => hnew v (by rw [hparts.existDictionaries] at hv; simp [WitnessParts.all, hv]))
    (fun v hv => hnew v (by rw [hparts.existTypeInfos] at hv; simp [WitnessParts.all, hv]))
  rw [apply_body_eq (G := fun gs => (Goal.rows (isNew proc.vars.size) gs).flatten)
    (fun g => (append_nil _).symm) row_conjoin
    (fun g outside => row_requantify g _ outside) hrequantify, Goal.rows, flatten_cons,
    hgone, append_nil]
  exact goal_restored hacc proc.body hg hs₁ hbody

/-- Erasing the witnesses of a procedure that had none gives its body back. -/
theorem erasing_witnesses_restores_body {m m' : Module} {r : ProcRef} {pred : Predicate}
    {proc : Procedure} (hacc : m.DeclaresAccessors) (h : m.addProcWitnesses r = .ok m')
    (hr : m.findProc? r = some (pred, proc)) (hempty : proc.witnesses = {})
    (hbody : ∀ v ∈ proc.body.mentions, v.index < proc.vars.size) :
    ∃ pred' proc', m'.findProc? r = some (pred', proc') ∧
      (pred.status = .imported → proc'.body = proc.body) ∧
      (pred.status ≠ .imported →
        List.Forall₂ (Restored m) (proc.body.row fun _ => false)
          (proc'.body.row (isNew proc.vars.size))) := by
  obtain ⟨-, -, p, k, out, body, s, hk, hc, hk'⟩ := Module.addProcWitnesses_spec h
  obtain ⟨hpred, hproc⟩ := Module.findProc?_eq_some.1 hr
  obtain rfl : p = pred := Option.some.inj (hc.pred_found.symm.trans hpred)
  obtain rfl : k = proc := by
    rw [Module.procAt?_eq, hpred, Option.bind_some, hproc, Option.some.injEq] at hk
    exact hk.symm
  obtain ⟨⟨pred', proc'⟩, hr', rfl⟩ := Option.map_eq_some_iff.1 hk'
  refine ⟨pred', _, hr', fun himported => ?_, fun himported => ?_⟩
  · obtain ⟨s₁, -, ⟨-, hsame, -⟩ | ⟨hnot, -⟩⟩ := Synth.procedure_cases hc.returns
    · exact hsame
    · exact absurd himported hnot
  · exact Synth.procedure_restored hacc hc.returns himported hempty hbody

end

namespace HiddenType

/-- The calls of `run` come back, and so does its closure, as a lambda
    expression. -/
theorem erasing_witnesses_restores_body_run : ∃ m' pred' proc',
    hidden.addProcWitnesses ⟨⟨4⟩, ⟨0⟩⟩ = .ok m' ∧
      m'.findProc? ⟨⟨4⟩, ⟨0⟩⟩ = some (pred', proc') ∧
      List.Forall₂ (Restored hidden) (runBody.row fun _ => false) (proc'.body.row (isNew 2)) := by
  obtain ⟨m', hm'⟩ : ∃ m', hidden.addProcWitnesses ⟨⟨4⟩, ⟨0⟩⟩ = .ok m' :=
    exists_of_isOk (by decide +kernel)
  obtain ⟨pred', proc', hr, -, hrestored⟩ := erasing_witnesses_restores_body
    declaresAccessors_hidden hm' rfl rfl (by decide +kernel)
  replace hrestored : List.Forall₂ (Restored hidden)
      ((runBody.setNonlocals (runBody.info.nonlocals ∩ .ofList [])).row fun _ => false)
      (proc'.body.row (isNew 2)) := hrestored (by decide)
  rw [Goal.row_setNonlocals] at hrestored
  exact ⟨m', pred', proc', hm', hr, hrestored⟩

/-- There is no closure in `same`, and its type-info does not come back: a number
    has none, and that takes the place of what was there. -/
theorem same_loses_type_info : ∃ m' pred' proc',
    comparing.addProcWitnesses ⟨⟨2⟩, ⟨0⟩⟩ = .ok m' ∧
      m'.findProc? ⟨⟨2⟩, ⟨0⟩⟩ = some (pred', proc') ∧
      proc'.body.row (isNew 3) ≠ sameBody.row fun _ => false := by
  obtain ⟨m', pred', proc', hm', hr, hvars⟩ : ∃ m' pred' proc',
      comparing.addProcWitnesses ⟨⟨2⟩, ⟨0⟩⟩ = .ok m' ∧
        m'.findProc? ⟨⟨2⟩, ⟨0⟩⟩ = some (pred', proc') ∧
        ((proc'.body.row (isNew 3)).flatMap (·.label.atomVars) == [⟨0⟩, ⟨1⟩]) = true :=
    Module.of_ok_any (by decide +kernel)
  refine ⟨m', pred', proc', hm', hr, fun heq => ?_⟩
  rw [heq] at hvars
  exact absurd hvars (by decide +kernel)

end HiddenType

end Clausal
