import Clausal.Proofs.Effects
import Clausal.Proofs.TypeInfos
import Clausal.Tabling.Pass

/-!
# Running goals

What a goal does when it is run. A goal is entered with a store and a state of
the world, and comes to an *outcome* (`Outcome`): it exits with an answer and
can be entered again for the next one, or it fails, or it gives the program up.
Bindings are undone on the way back to an earlier choice, and the state is not:
whoever asks for the next answer passes on the state that he has got to.

Conjunctions, disjunctions, conditionals and switches have their usual meaning
(`Goal.run`). What the primitives do is up to the machine that runs the goal
(`Machine`), and so is the meaning of calls of other procedures.
-/

namespace Clausal

open List Store

variable {v u : ProgVar}

/-! ### Values -/

namespace Value

mutual

/-- Whether two values are the same. -/
def beq : Value → Value → Bool
  | .cell f xs, .cell g ys => f = g && beqList xs ys

/-- Whether two lists of values are the same. -/
def beqList : List Value → List Value → Bool
  | [], [] => true
  | x :: xs, y :: ys => beq x y && beqList xs ys
  | _, _ => false

end

mutual

theorem beq_iff : ∀ x y : Value, beq x y = true ↔ x = y
  | .cell f xs, .cell g ys => by simp [beq, beqList_iff xs]

theorem beqList_iff : ∀ xs ys : List Value, beqList xs ys = true ↔ xs = ys
  | [], ys => by cases ys <;> simp [beqList]
  | x :: xs, ys => by cases ys <;> simp [beqList, beq_iff x, beqList_iff xs]

end

instance : DecidableEq Value := fun x y => decidable_of_iff _ (beq_iff x y)

/-- The value that stands for an integer. -/
def ofInt (i : Int) : Value := .cell (.int i) []

/-- The value that stands for a string. -/
def ofString (s : String) : Value := .cell (.string s) []

end Value

namespace Store

/-- The variables have the given values. -/
def Binds (σ : Store) (vs : List ProgVar) (xs : List Value) : Prop :=
  Forall₂ (fun v x => σ v = some x) vs xs

/-- The store with more variables bound, one after the other. -/
def setMany (σ : Store) : List ProgVar → List Value → Store
  | v :: vs, x :: xs => (σ.set v x).setMany vs xs
  | _, _ => σ

/-- The store without the values of some variables. -/
def unbind (vs : List ProgVar) (σ : Store) : Store := fun v => if v ∈ vs then none else σ v

/-- The store with the values that some variables have in another one. -/
def rebind (vs : List ProgVar) (σ σ' : Store) : Store := fun v => if v ∈ vs then σ v else σ' v

variable {σ σ' : Store} {vs vs' : List ProgVar} {xs xs' : List Value}

@[simp] theorem unbind_nil (σ : Store) : σ.unbind [] = σ := by
  funext v
  simp [unbind]

@[simp] theorem rebind_nil (σ σ' : Store) : rebind [] σ σ' = σ' := by
  funext v
  simp [rebind]

@[simp] theorem setMany_nil (σ : Store) (xs : List Value) : σ.setMany [] xs = σ := by
  simp [setMany]

@[simp] theorem setMany_single (σ : Store) (v : ProgVar) (x : Value) :
    σ.setMany [v] [x] = σ.set v x := by
  simp [setMany]

theorem set_of_ne (h : u ≠ v) (σ : Store) (x : Value) : σ.set v x u = σ u := by
  simp [set, h]

theorem setMany_of_notMem (h : v ∉ vs) : σ.setMany vs xs v = σ v := by
  induction vs generalizing σ xs with
  | nil => rw [setMany_nil]
  | cons u vs ih =>
    rw [mem_cons, not_or] at h
    cases xs with
    | nil => rfl
    | cons x xs => rw [setMany, ih h.2, set_of_ne h.1]

section

variable (h : σ.Binds vs xs)

include h

theorem Binds.mapM : vs.mapM σ = some xs := mapM_eq_some_iff.2 h

theorem Binds.isSome : ∀ v ∈ vs, (σ v).isSome := by
  induction h with
  | nil => exact fun v hv => absurd hv not_mem_nil
  | cons hx _ ih =>
    intro v hv
    rcases mem_cons.1 hv with rfl | hv
    · rw [hx]
      rfl
    · exact ih v hv

theorem Binds.keeps (hσ : σ.Keeps σ') : σ'.Binds vs xs :=
  Forall₂.imp (fun v x hv => hσ v x hv) h

theorem Binds.eq_of_mem (h' : σ'.Binds vs xs) (hv : v ∈ vs) : σ v = σ' v := by
  induction h with
  | nil => exact absurd hv not_mem_nil
  | cons hx _ ih =>
    obtain ⟨hx', hrest⟩ := forall₂_cons.1 h'
    rcases mem_cons.1 hv with rfl | hv
    · rw [hx, hx']
    · exact ih hrest hv

theorem Binds.setMany : (σ'.setMany vs xs).Binds vs xs := by
  have hvalue : ∀ v ∈ vs, σ'.setMany vs xs v = σ v := by
    induction h generalizing σ' with
    | nil => exact fun v hv => absurd hv not_mem_nil
    | @cons u x vs xs hu _ ih =>
      intro v hv
      rw [Store.setMany]
      by_cases hmem : v ∈ vs
      · exact ih v hmem
      · obtain rfl := (mem_cons.1 hv).resolve_right hmem
        rw [setMany_of_notMem hmem, set_self, hu]
  refine ((forall₂_and_left _ _).2 ⟨fun v hv => hv, h⟩).imp ?_
  rintro v x ⟨hv, hx⟩
  rw [hvalue v hv, hx]

/-- Variables have one list of values. -/
theorem Binds.unique (h' : σ.Binds vs xs') : xs = xs' :=
  Option.some.inj (h.mapM.symm.trans h'.mapM)

end

end Store

/-! ### Outcomes -/

/-- Where a run of a procedure's body is entered or left, or a moment in
    between. -/
inductive Port where
  | call | exit | redo | fail | inside
deriving DecidableEq, Repr, Inhabited

/-- What comes of a run that ends: an answer, with the way back in for the
    next one; failure; or that the program is given up, with a message or, where
    the run has no meaning, without. -/
inductive Outcome (S A : Type) where
  | exit (answer : A) (state : S) (redo : S → Outcome S A)
  | fail (state : S)
  | abort (message : Option Value) (state : S)

namespace Outcome

variable {S A B C : Type}

/-- One answer. -/
def once (a : A) (s : S) : Outcome S A := .exit a s .fail

/-- The answers of a run, and then those of another. -/
def orElse (k : S → Outcome S A) : Outcome S A → Outcome S A
  | .exit a s redo => .exit a s fun s' => (redo s').orElse k
  | .fail s => k s
  | .abort m s => .abort m s

/-- The answers of `f` to each answer of a run. -/
def bind (f : A → S → Outcome S B) : Outcome S A → Outcome S B
  | .exit a s redo => (f a s).orElse fun s' => (redo s').bind f
  | .fail s => .fail s
  | .abort m s => .abort m s

/-- The answers of a run, changed. -/
def map (f : A → B) : Outcome S A → Outcome S B
  | .exit a s redo => .exit (f a) s fun s' => (redo s').map f
  | .fail s => .fail s
  | .abort m s => .abort m s

/-- The answers of `yes` to each answer of a run or, if there is none, those
    of `no`. -/
def ifThenElse (yes : A → S → Outcome S B) (no : S → Outcome S B) : Outcome S A → Outcome S B
  | .fail s => no s
  | o => o.bind yes

/-- One answer if a run has none. -/
def negate (a : B) : Outcome S A → Outcome S B
  | .exit _ s _ => .fail s
  | .fail s => .once a s
  | .abort m s => .abort m s

@[simp] theorem orElse_fail (o : Outcome S A) : o.orElse .fail = o := by
  induction o with
  | exit a s redo ih => simp only [orElse, ih]
  | fail s => rfl
  | abort m s => rfl

theorem orElse_assoc (o : Outcome S A) (k k' : S → Outcome S A) :
    (o.orElse k).orElse k' = o.orElse fun s => (k s).orElse k' := by
  induction o with
  | exit a s redo ih => simp only [orElse, ih]
  | fail s => rfl
  | abort m s => rfl

@[simp] theorem once_bind (a : A) (s : S) (f : A → S → Outcome S B) :
    (once a s).bind f = f a s := by
  show (f a s).orElse (fun s' => .fail s') = f a s
  exact orElse_fail _

@[simp] theorem bind_once (o : Outcome S A) : o.bind .once = o := by
  induction o with
  | exit a s redo ih => simp only [bind, once, orElse, ih]
  | fail s => rfl
  | abort m s => rfl

theorem orElse_bind (o : Outcome S A) (k : S → Outcome S A) (f : A → S → Outcome S B) :
    (o.orElse k).bind f = (o.bind f).orElse fun s => (k s).bind f := by
  induction o with
  | exit a s redo ih => simp only [orElse, bind, ih, orElse_assoc]
  | fail s => rfl
  | abort m s => rfl

theorem bind_assoc (o : Outcome S A) (f : A → S → Outcome S B) (g : B → S → Outcome S C) :
    (o.bind f).bind g = o.bind fun a s => (f a s).bind g := by
  induction o with
  | exit a s redo ih => simp only [bind, orElse_bind, ih]
  | fail s => rfl
  | abort m s => rfl

theorem map_id (o : Outcome S A) : (o.map fun a => a) = o := by
  induction o with
  | exit a s redo ih => simp only [map, ih]
  | fail s => rfl
  | abort m s => rfl

@[simp] theorem once_ifThenElse (a : A) (s : S) (yes : A → S → Outcome S B)
    (no : S → Outcome S B) : (once a s).ifThenElse yes no = yes a s :=
  once_bind a s yes

/-! ### One answer -/

/-- The outcome is one answer, of which `Q` holds. -/
def Once (o : Outcome S A) (Q : A → S → Prop) : Prop := ∃ a s, o = .once a s ∧ Q a s

variable {o : Outcome S A} {Q R : A → S → Prop} {Q' : B → S → Prop}

theorem Once.intro {a : A} {s : S} (h : Q a s) : (once a s).Once Q := ⟨a, s, rfl, h⟩

theorem Once.imp (h : o.Once Q) (hQ : ∀ a s, Q a s → R a s) : o.Once R :=
  let ⟨a, s, ho, hq⟩ := h
  ⟨a, s, ho, hQ a s hq⟩

theorem Once.bind {f : A → S → Outcome S B} (h : o.Once Q)
    (hf : ∀ a s, Q a s → (f a s).Once Q') : (o.bind f).Once Q' := by
  obtain ⟨a, s, rfl, hq⟩ := h
  rw [once_bind]
  exact hf a s hq

/-! ### Answers in turn -/

/-- The outcome is that of a procedure of a code model: it has the given
    answers, one after the other, and fails behind the last. What holds at each
    exit is `exits`, from the port where the procedure was entered or entered
    again, and what holds when it fails is `fails`. Only a procedure with many
    answers is entered again, by then in any state that whoever asks is `free`
    to bring about. -/
def Gives (model : CodeModel) (free : S → S → Prop) (exits : Port → S → B → A → S → Prop)
    (fails : Port → S → S → Prop) : Port → S → List B → Outcome S A → Prop
  | p, s, [], o => model ≠ .det ∧ ∃ s', o = .fail s' ∧ fails p s s'
  | p, s, b :: bs, o => ∃ a s' redo, o = .exit a s' redo ∧ exits p s b a s' ∧
    match model with
    | .non => ∀ s'', free s' s'' → Gives model free exits fails .redo s'' bs (redo s'')
    | _ => bs = [] ∧ redo = .fail

section

variable {model : CodeModel} {free free' : S → S → Prop}
  {exits exits' : Port → S → B → A → S → Prop} {fails fails' : Port → S → S → Prop} {p p₀ : Port}
  {s s₀ : S} {bs : List B}

theorem Gives.imp (h : o.Gives model free exits fails p s bs)
    (hfree : ∀ s s', free' s s' → free s s')
    (hexits : ∀ p s b a s', exits p s b a s' → exits' p s b a s')
    (hfails : ∀ p s s', fails p s s' → fails' p s s') :
    o.Gives model free' exits' fails' p s bs := by
  induction bs generalizing p s o with
  | nil =>
    obtain ⟨hmodel, s', ho, hf⟩ := h
    exact ⟨hmodel, s', ho, hfails p s s' hf⟩
  | cons b bs ih =>
    obtain ⟨a, s', redo, ho, he, hrest⟩ := h
    refine ⟨a, s', redo, ho, hexits p s b a s' he, ?_⟩
    cases model with
    | det | semi => exact hrest
    | non => exact fun s'' hs'' => ih (hrest s'' (hfree s' s'' hs''))

/-- The outcome is followed to its end: there are no more answers in state
    `s`. -/
inductive Exhausted (free : S → S → Prop) : Outcome S A → S → Prop
  | fail (s : S) : Exhausted free (.fail s) s
  | exit {a : A} {s s₁ s' : S} {redo : S → Outcome S A} (hfree : free s s₁)
      (h : Exhausted free (redo s₁) s') : Exhausted free (.exit a s redo) s'

/-- A run followed to its end has failed in the state where it ends. -/
theorem Gives.exhausted {s' : S} (h : o.Gives .non free exits fails p s bs)
    (h' : o.Exhausted free s') : ∃ q s₁, fails q s₁ s' := by
  induction bs generalizing p s o with
  | nil =>
    obtain ⟨-, s₁, rfl, hf⟩ := h
    cases h'
    exact ⟨p, s, hf⟩
  | cons b bs ih =>
    obtain ⟨a, s₁, redo, rfl, -, hrest⟩ := h
    cases h' with
    | exit hfree hend => exact ih (hrest _ hfree) hend

theorem Gives.exists_exhausted (h : o.Gives .non free exits fails p s bs)
    (hfree : ∀ s, free s s) : ∃ s', o.Exhausted free s' := by
  induction bs generalizing p s o with
  | nil =>
    obtain ⟨-, s', rfl, -⟩ := h
    exact ⟨s', .fail s'⟩
  | cons b bs ih =>
    obtain ⟨a, s₁, redo, rfl, -, hrest⟩ := h
    obtain ⟨s', hend⟩ := ih (hrest s₁ (hfree s₁))
    exact ⟨s', .exit (hfree s₁) hend⟩

/-- Only the first answer, or the failure in its place, depends on how a run was entered. -/
theorem Gives.of_start (h : o.Gives model free exits fails p s bs)
    (hexits : ∀ b a s', exits p s b a s' → exits p₀ s₀ b a s')
    (hfails : ∀ s', fails p s s' → fails p₀ s₀ s') :
    o.Gives model free exits fails p₀ s₀ bs := by
  cases bs with
  | nil =>
    obtain ⟨hmodel, s', ho, hf⟩ := h
    exact ⟨hmodel, s', ho, hfails s' hf⟩
  | cons b bs =>
    obtain ⟨a, s', redo, ho, he, hrest⟩ := h
    exact ⟨a, s', redo, ho, hexits b a s' he, hrest⟩

/-- A run of any code model may be taken for one that can be asked again. -/
theorem Gives.non (h : o.Gives model free exits fails p s bs) (hfails : ∀ s, fails .redo s s) :
    o.Gives .non free exits fails p s bs := by
  cases model with
  | non => exact h
  | det | semi =>
    cases bs with
    | nil => exact ⟨by decide, h.2⟩
    | cons b bs =>
      obtain ⟨a, s', redo, ho, he, rfl, rfl⟩ := h
      exact ⟨a, s', .fail, ho, he, fun s'' _ => ⟨by decide, s'', rfl, hfails s''⟩⟩

end

end Outcome

/-! ### The world -/

/-- A report of the body of a procedure: which port is passed, with which
    values, and what the state of the run-time system is then. The values are
    the outputs at an exit, and the inputs at every other port. -/
structure Event (T : Type) where
  port : Port
  values : List Value
  tables : T

/-- The state of the run-time system, and what the body has reported so
    far. -/
structure World (T : Type) where
  tables : T
  trace : List (Event T) := []

/-- A run of the run-time system, seen from outside. It reports nothing. -/
def Outcome.inWorld {T A : Type} (trace : List (Event T)) : Outcome T A → Outcome (World T) A
  | .exit a t redo => .exit a ⟨t, trace⟩ fun w => (redo w.tables).inWorld w.trace
  | .fail t => .fail ⟨t, trace⟩
  | .abort m t => .abort m ⟨t, trace⟩

/-! ### Machines -/

/-- A goal whose meaning is not that of its parts. -/
inductive Atom where
  | call (callee : ProcRef) (args : List ProgVar)
  | genericCall (callee : GenericCallee) (args : List ProgVar) (modes : List Mode)
  | foreign (code : ForeignCode)
  /-- The unification predicate of a type. -/
  | unify (lhs : ProgVar) (rhs : UnifyRhs) (typeInfos : List ProgVar)

/-- What a goal comes to, entered with a store in a state of the world. -/
abbrev Meaning (T : Type) := Store → World T → Outcome (World T) Store

/-- What is needed to run goals: what the primitives do, given their inputs,
    and what the goals do that are not made of others. The value of a lambda
    expression is made from the meaning of its body. -/
structure Machine (T : Type) where
  primitive : Primitive → List Value → T → Outcome T (List Value)
  atom : Atom → Meaning T
  closure : LambdaHead → Meaning T → ProgVar → Meaning T

/-- The primitive whose procedure is referred to. -/
def Primitive.ofProc? (r : ProcRef) : Option Primitive :=
  if r.proc.index = 0 then all[r.pred.index]? else none

@[simp] theorem Primitive.ofProc?_proc (p : Primitive) : ofProc? p.proc = some p :=
  all_getElem?_pred p

namespace Machine

variable {T : Type} (M : Machine T)

/-- Runs a primitive on arguments of the given modes. -/
def runPrimitive (p : Primitive) (args : List ProgVar) (modes : List Mode) : Meaning T :=
  fun σ w =>
    match (Mode.input.vars args modes).mapM σ with
    | some xs => ((M.primitive p xs w.tables).inWorld w.trace).map
        (σ.setMany (Mode.output.vars args modes))
    | none => .abort none w

/-- Runs a call. -/
def runCall (callee : ProcRef) (args : List ProgVar) : Meaning T :=
  match Primitive.ofProc? callee with
  | some p => M.runPrimitive p args p.modes
  | none => M.atom (.call callee args)

/-- Runs a piece of foreign code. -/
def runForeign (code : ForeignCode) : Meaning T :=
  let args := code.args ++ code.extraArgs
  match Primitive.ofProc? code.callee with
  | some p => M.runPrimitive p (args.map (·.var)) (args.map (·.mode))
  | none => M.atom (.foreign code)

/-- Runs a unification. -/
def runUnify (lhs : ProgVar) (rhs : UnifyRhs) : Unification → Meaning T
  | .construct v f args => fun σ w =>
    match args.mapM σ with
    | some xs => .once (σ.set v (.cell f xs)) w
    | none => .abort none w
  | .deconstruct v f args _ => fun σ w =>
    match σ v with
    | some (.cell g xs) => if g = f then .once (σ.setMany args xs) w else .fail w
    | none => .abort none w
  | .assign target source => fun σ w =>
    match σ source with
    | some x => .once (σ.set target x) w
    | none => .abort none w
  | .test left right => fun σ w =>
    match σ left, σ right with
    | some x, some y => if x = y then .once σ w else .fail w
    | _, _ => .abort none w
  | .complicated _ typeInfos => M.atom (.unify lhs rhs typeInfos)

end Machine

namespace Goal

variable {T : Type}

mutual

/-- Runs a goal. Variables that are quantified inside a goal have no values
    when it is entered, and are as before when it is left. -/
def run (M : Machine T) : Goal → Meaning T
  | .conj _ _ gs => runAll M gs
  | .disj _ gs => runAny M gs
  | .switch _ v _ arms => fun σ w =>
    match σ v with
    | some (.cell f _) => runArm M f arms σ w
    | none => .abort none w
  | .negation _ g => fun σ w => (run M g σ w).negate σ
  | .ite _ locals c y n => fun σ w =>
    (run M c (σ.unbind locals) w).ifThenElse
      (fun σ' w' => (run M y σ' w').map (σ.rebind locals)) (run M n σ)
  | .scope _ r g => fun σ w => (run M g (σ.unbind r.hidden) w).map (σ.rebind r.hidden)
  | .call _ callee _ args => M.runCall callee args
  | .genericCall _ callee args modes => M.atom (.genericCall callee args modes)
  | .foreign _ code => M.runForeign code
  | .unify _ lhs rhs kind => M.runUnify lhs rhs kind
  | .lambda _ lhs head body _ => M.closure { head with captured := [] } (run M body) lhs

/-- Runs goals one after the other. -/
def runAll (M : Machine T) : List Goal → Meaning T
  | [] => .once
  | g :: gs => fun σ w => (run M g σ w).bind (runAll M gs)

/-- Runs alternatives, each from the same store. -/
def runAny (M : Machine T) : List Goal → Meaning T
  | [] => fun _ w => .fail w
  | g :: gs => fun σ w => (run M g σ w).orElse (runAny M gs σ)

/-- Runs the arm of a switch for a function symbol. -/
def runArm (M : Machine T) (f : Symbol) : List (Symbol × Goal) → Meaning T
  | [] => fun _ w => .fail w
  | (g, arm) :: arms => fun σ w => if g = f then run M arm σ w else runArm M f arms σ w

end

section

variable {M : Machine T}

section

-- The equations are proved here, before several proofs ask for them at once.
attribute [local simp] run runAll runAny runArm

theorem runAll_cons (g : Goal) (gs : List Goal) (σ : Store) (w : World T) :
    runAll M (g :: gs) σ w = (g.run M σ w).bind (runAll M gs) := by
  simp

theorem runAny_cons (g : Goal) (gs : List Goal) (σ : Store) (w : World T) :
    runAny M (g :: gs) σ w = (g.run M σ w).orElse (runAny M gs σ) := by
  simp

theorem runArm_cons (f h : Symbol) (g : Goal) (arms : List (Symbol × Goal)) (σ : Store)
    (w : World T) : runArm M f ((h, g) :: arms) σ w =
      if h = f then g.run M σ w else runArm M f arms σ w := by
  simp

end

@[simp] theorem run_setInfo (i : GoalInfo) (g : Goal) : (g.setInfo i).run M = g.run M := by
  cases g <;> rfl

@[simp] theorem run_setNonlocals (vars : VarSet) (g : Goal) :
    (g.setNonlocals vars).run M = g.run M :=
  run_setInfo _ g

@[simp] theorem run_exposeFree (g : Goal) : g.exposeFree.run M = g.run M := run_setNonlocals _ g

@[simp] theorem runAll_single (g : Goal) : runAll M [g] = g.run M := by
  funext σ w
  exact Outcome.bind_once _

@[simp] theorem runAny_single (g : Goal) : runAny M [g] = g.run M := by
  funext σ w
  exact Outcome.orElse_fail _

/-- Goals are run one after the other. -/
theorem runAll_append (gs gs' : List Goal) (σ : Store) (w : World T) :
    runAll M (gs ++ gs') σ w = (runAll M gs σ w).bind (runAll M gs') := by
  induction gs generalizing σ w with
  | nil => exact (Outcome.once_bind σ w _).symm
  | cons g gs ih =>
    rw [cons_append, runAll_cons, runAll_cons, Outcome.bind_assoc]
    congr 1
    funext σ' w'
    exact ih σ' w'

/-- A goal runs as the sequence of its conjuncts. -/
theorem runAll_conjuncts (g : Goal) : runAll M g.conjuncts = g.run M := by
  unfold conjuncts
  split
  · rw [run]
  · exact runAll_single g

theorem runAll_flatMap (gs : List Goal) : runAll M (gs.flatMap conjuncts) = runAll M gs := by
  induction gs with
  | nil => rfl
  | cons g gs ih =>
    funext σ w
    rw [flatMap_cons, runAll_append, runAll_conjuncts, ih, runAll_cons]

section

variable (context : Context)

/-- A conjunction runs its goals, whichever of them are conjunctions. -/
@[simp] theorem run_conjoin (gs : List Goal) : (conjoin gs context).run M = runAll M gs := by
  rw [← runAll_flatMap gs]
  unfold conjoin
  split
  · next g hg => rw [hg, runAll_single]
  · rw [run_exposeFree, run]

@[simp] theorem run_disjoin (gs : List Goal) : (disjoin gs context).run M = runAny M gs := by
  unfold disjoin
  split
  · next h => rw [List.isEmpty_iff.1 h, failure, run]
  · rw [run_exposeFree, run]

@[simp] theorem run_ifThenElse (c y n : Goal) (σ : Store) (w : World T) :
    (ifThenElse c y n context).run M σ w = (c.run M σ w).ifThenElse (y.run M) (n.run M σ) := by
  have hmap : (fun σ' w' => (y.run M σ' w').map (σ.rebind [])) = y.run M := by
    funext σ' w'
    rw [show σ.rebind [] = fun σ' => σ' from funext (rebind_nil σ), Outcome.map_id]
  rw [ifThenElse, run_exposeFree, run]
  beta_reduce
  rw [unbind_nil, hmap]

@[simp] theorem run_success : (success context).run M = .once := by
  rw [success, run, runAll]

@[simp] theorem run_failure (σ : Store) (w : World T) : (failure context).run M σ w = .fail w := by
  rw [failure, run, runAny]

@[simp] theorem run_switchOn (v : ProgVar) (arms : List (Symbol × Goal)) (canFail : Bool)
    (σ : Store) (w : World T) :
    (switchOn v arms canFail context).run M σ w =
      match σ v with
      | some (.cell f _) => runArm M f arms σ w
      | none => .abort none w := by
  rw [switchOn, run_exposeFree, run]

@[simp] theorem run_assign (target source : ProgVar) :
    (assign target source context).run M = M.runUnify target (.var source)
      (.assign target source) := by
  rw [assign, run_exposeFree, run]

@[simp] theorem run_construct (v : ProgVar) (f : Symbol) (args : List ProgVar) :
    (construct v f args context).run M = M.runUnify v (.functor f args) (.construct v f args) := by
  rw [construct, run_exposeFree, run]

theorem run_within_promise (purity : Purity) (g : Goal) :
    (within (.promise purity) g context).run M = g.run M := by
  funext σ w
  rw [within, run_exposeFree, run]
  beta_reduce
  rw [ScopeReason.hidden, unbind_nil,
    show σ.rebind [] = fun σ' => σ' from funext (rebind_nil σ), Outcome.map_id]

end

/-- What is promised of a goal makes no difference to its runs. -/
@[simp] theorem run_promised (e : TableEnv) (purity : Purity) (g : Goal) :
    (e.promised purity g).run M = g.run M := by
  unfold TableEnv.promised
  split
  · exact run_within_promise _ _ g
  · rfl

end

/-- Quantifying a goal anew makes no difference to its runs. -/
theorem run_requantify {M : Machine T} : ∀ (g : Goal) (outside : VarSet),
    (g.requantify outside).run M = g.run M := by
  have hlists : ∀ {gs gs'}, Forall₂ (fun g g' => run M g' = run M g) gs gs' →
      runAll M gs' = runAll M gs ∧ runAny M gs' = runAny M gs := by
    intro gs gs' h
    induction h with
    | nil => exact ⟨rfl, rfl⟩
    | cons hg _ ih => rw [runAll, runAll, runAny, runAny, hg, ih.1, ih.2]; exact ⟨rfl, rfl⟩
  have harms : ∀ f {arms arms'}, Forall₂ (fun a b => b.1 = a.1 ∧ run M b.2 = run M a.2)
      arms arms' → runArm M f arms' = runArm M f arms := by
    intro f arms arms' h
    induction h with
    | nil => rfl
    | cons harm _ ih => rw [runArm, runArm, harm.1, harm.2, ih]
  exact Congruent.requantify (P := fun g g' => run M g' = run M g)
    { refl := fun _ => rfl
      nonlocals := fun vars h => by rw [run_setNonlocals, h]
      conj := fun h => by rw [run, run, (hlists h).1]
      disj := fun h => by rw [run, run, (hlists h).2]
      switch := fun h => by rw [run, run]; simp only [harms _ h]
      negation := fun h => by rw [run, run, h]
      ite := fun hc hy hn => by rw [run, run, hc, hy, hn]
      scope := fun h => by rw [run, run, h]
      lambda := fun h => by rw [run, run, h] }

end Goal

end Clausal
