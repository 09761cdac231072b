import Clausal.Proofs.Setup
import Clausal.Proofs.TableRuntime

/-!
# Emitted tabling code

What comes of emitting tabling code, step by step. Emitting adds variables and
may put type-infos on record, but takes nothing back (`Synth.Adds`), so what
is known of the variables of a procedure stays known all the way.
-/

namespace Clausal

open List Goal

variable {v : ProgVar} {fs : List ForeignArg} {s s' : WitnessState} {name problem : String} {t : Ty}
  {args vars ins outs : List ProgVar} {extra : List ForeignArg} {b status : Status}
  {arm : Status → Synth Goal}

/-! ### Growing states -/

/-- Variables are added and type-infos are put on record. Nothing is taken
    back. -/
structure WitnessState.Extends (s s' : WitnessState) : Prop where
  vars : s.vars.Extends s'.vars
  infos : ∀ t source, s.witnesses.typeInfos.find? t = some source →
    s'.witnesses.typeInfos.find? t = some source
  closed : s.Closed → s'.Closed

theorem WitnessState.nextVar_addVar (s : WitnessState) (name : String) (type : Ty) :
    (s.addVar name type).nextVar = ⟨s.vars.size + 1⟩ := by
  rw [nextVar, size_addVar]

namespace WitnessState.Extends

variable {s₁ : WitnessState}

theorem refl (s : WitnessState) : s.Extends s := ⟨.refl _, fun _ _ h => h, id⟩

theorem trans (h : s.Extends s₁) (h' : s₁.Extends s') : s.Extends s' :=
  ⟨h.vars.trans h'.vars, fun t source ht => h'.infos t source (h.infos t source ht),
    fun hs => h'.closed (h.closed hs)⟩

theorem addVar (s : WitnessState) (name : String) (type : Ty) : s.Extends (s.addVar name type) :=
  ⟨.add .., fun _ _ h => h, (Grows.addVar s name type).closed⟩

theorem size_le (h : s.Extends s') : s.vars.size ≤ s'.vars.size := h.vars.size_le

end WitnessState.Extends

namespace Synth

variable {α β : Type}

/-- A step extends the state, whatever it is. -/
structure Adds (x : Synth α) : Prop where
  mono : ∀ {s a s'}, Returns x s a s' → s.Extends s'

theorem adds_pure (a : α) : Adds (pure a) := by
  refine ⟨fun h => ?_⟩
  obtain ⟨-, rfl⟩ := returns_pure.1 h
  exact .refl _

theorem adds_bind {x : Synth α} {f : α → Synth β} (hx : Adds x) (hf : ∀ a, Adds (f a)) :
    Adds (x >>= f) := by
  refine ⟨fun h => ?_⟩
  obtain ⟨a, s₁, h₁, h₂⟩ := returns_bind.1 h
  exact (hx.mono h₁).trans ((hf a).mono h₂)

theorem adds_lift (e : Except Fault α) : Adds (liftM e) := by
  refine ⟨fun h => ?_⟩
  obtain ⟨-, rfl⟩ := returns_lift.1 h
  exact .refl _

theorem returns_mapM_lift {f : α → Except Fault β} {as : List α} {bs : List β} :
    Returns (as.mapM fun a => liftM (f a)) s bs s' ↔
      Forall₂ (fun a b => f a = .ok b) as bs ∧ s' = s :=
  returns_mapM_reads fun _ _ _ => returns_lift

theorem adds_newVar (name : String) (type : Ty) : Adds (newVar name type) := by
  refine ⟨fun h => ?_⟩
  obtain ⟨-, rfl⟩ := returns_newVar.1 h
  exact .addVar ..

@[simp] theorem returns_newHandle {h : Handle} :
    Returns (newHandle name h) s v s' ↔ v = s.nextVar ∧ s' = s.addVar name h.type :=
  returns_newVar

@[simp] theorem returns_varType :
    Returns (varType v) s t s' ↔ s.vars.type v = .ok t ∧ s' = s := by
  simp [varType, and_comm]

theorem adds_varType (v : ProgVar) : Adds (varType v) := by
  refine ⟨fun h => ?_⟩
  obtain ⟨-, rfl⟩ := returns_varType.1 h
  exact .refl _

theorem adds_typeInfo (context : Context) (t : Ty) : Adds (typeInfo context t) := by
  refine ⟨fun h => ?_⟩
  have hm := typeInfo_makes t h
  exact ⟨hm.grows.vars, hm.keeps.infos, hm.grows.closed⟩

theorem adds_mapM {f : α → Synth β} (hf : ∀ a, Adds (f a)) (as : List α) : Adds (as.mapM f) := by
  induction as with
  | nil => exact adds_pure []
  | cons a as ih =>
    rw [mapM_cons]
    exact adds_bind (hf a) fun b => adds_bind ih fun bs => adds_pure _

@[simp] theorem returns_goalsOf_cons {step : α → Synth (List Goal)} {a : α} {as : List α}
    {goals : List Goal} : Returns (goalsOf step (a :: as)) s goals s' ↔
      ∃ gs s₁ more, Returns (step a) s gs s₁ ∧ Returns (goalsOf step as) s₁ more s' ∧
        goals = gs ++ more := by
  simp only [goalsOf, returns_bind, returns_pure]
  constructor
  · rintro ⟨gs, s₁, h₁, more, s₂, h₂, rfl, rfl⟩
    exact ⟨gs, s₁, more, h₁, h₂, rfl⟩
  · rintro ⟨gs, s₁, more, h₁, h₂, rfl⟩
    exact ⟨gs, s₁, h₁, more, s', h₂, rfl, rfl⟩

theorem adds_goalsOf {step : α → Synth (List Goal)} (hf : ∀ a, Adds (step a)) (as : List α) :
    Adds (goalsOf step as) := by
  induction as with
  | nil => exact adds_pure []
  | cons a as ih => exact adds_bind (hf a) fun _ => adds_bind ih fun _ => adds_pure _

end Synth

/-! ### Calls of primitives -/

theorem Module.dummyConstant_eq_cons {m : Module} {f : Symbol}
    (h : m.dummyConstant t = .ok (some f)) : ∃ name, f = .cons name 0 := by
  unfold dummyConstant at h
  cases hdenoted : m.denoted t with
  | error fault =>
    rw [hdenoted] at h
    cases h
  | ok own =>
    rw [hdenoted] at h
    have hown : m.ownDummyConstant own = some f := Except.ok.inj h
    unfold ownDummyConstant at hown
    split at hown
    · split at hown
      · split at hown
        · cases hown
          exact ⟨_, rfl⟩
        · cases hown
      · cases hown
    · cases hown

namespace TableEnv

open Synth

variable {e : TableEnv} {g : Goal} {p : Primitive}

/-- A variable as an argument of foreign code, as the table has it. -/
def ArgOf (t : VarTable) (a : ProgVar × Mode) (f : ForeignArg) : Prop :=
  ∃ entry, t.get a.1 = .ok entry ∧ f = ⟨a.1, entry.name, a.2⟩

theorem returns_foreignArg {a : ProgVar × Mode} {f : ForeignArg} :
    Returns (foreignArg a.1 a.2) s f s' ↔ ArgOf s.vars a f ∧ s' = s := by
  simp only [foreignArg, returns_bind, returns_get, returns_lift, returns_pure]
  constructor
  · rintro ⟨_, _, ⟨rfl, rfl⟩, entry, _, ⟨hv, rfl⟩, rfl, rfl⟩
    exact ⟨⟨entry, hv, rfl⟩, rfl⟩
  · rintro ⟨⟨entry, hv, rfl⟩, rfl⟩
    exact ⟨_, _, ⟨rfl, rfl⟩, entry, _, ⟨hv, rfl⟩, rfl, rfl⟩

theorem adds_foreignArg (v : ProgVar) (mode : Mode) : Adds (foreignArg v mode) :=
  ⟨fun h => (returns_foreignArg (a := (v, mode)).1 h).2 ▸ .refl _⟩

theorem returns_foreignArgs {args : List (ProgVar × Mode)} :
    Returns (args.mapM fun (v, mode) => foreignArg v mode) s fs s' ↔
      Forall₂ (ArgOf s.vars) args fs ∧ s' = s :=
  returns_mapM_reads fun _ _ _ => returns_foreignArg

theorem ArgOf.pairs {t : VarTable} {args : List (ProgVar × Mode)} (h : Forall₂ (ArgOf t) args fs) :
    fs.map (fun a => (a.var, a.mode)) = args := by
  induction h with
  | nil => rfl
  | cons hf _ ih =>
    obtain ⟨_, -, rfl⟩ := hf
    rw [map_cons, ih]

theorem ArgOf.columns {t : VarTable} {modes : List Mode} (h : Forall₂ (ArgOf t) (args.zip modes) fs)
    (hlen : args.length = modes.length) : fs.map (·.var) = args ∧ fs.map (·.mode) = modes := by
  have hpairs := ArgOf.pairs h
  constructor
  · rw [← map_fst_zip (Nat.le_of_eq hlen), ← hpairs, map_map]
    rfl
  · rw [← map_snd_zip (Nat.le_of_eq hlen.symm), ← hpairs, map_map]
    rfl

theorem returns_foreignArgs_of_mode {mode : Mode}
    (h : Returns (vars.mapM (foreignArg · mode)) s fs s') :
    s' = s ∧ fs.map (·.var) = vars ∧ fs.map (·.mode) = vars.map fun _ => mode := by
  have hpairs : Returns ((vars.map (·, mode)).mapM fun (v, mode) => foreignArg v mode) s fs s' := by
    rw [mapM_map]
    exact h
  obtain ⟨hfs, rfl⟩ := returns_foreignArgs.1 hpairs
  have hzip : vars.zip (vars.map fun _ => mode) = vars.map (·, mode) := by
    simpa using zip_map' (f := id) (g := fun _ => mode) (l := vars)
  rw [← hzip] at hfs
  exact ⟨rfl, ArgOf.columns hfs (by simp)⟩

/-- The code that runs a primitive, if its arguments have the given names. -/
def codeOf (p : Primitive) (fs extra : List ForeignArg) (names : List String) : ForeignCode :=
  { callee := p.proc, args := fs, extraArgs := extra
    code := p.inlineName ++ "(" ++ commas names ++ ");" }

theorem returns_inlineCode {args : List ForeignArg} {code : ForeignCode} :
    Returns (inlineCode p args extra) s code s' ↔
      (∃ names, Forall₂ (fun a name => s.vars.name a.var = .ok name) (args ++ extra) names ∧
        code = codeOf p args extra names) ∧ s' = s := by
  simp only [inlineCode, returns_bind, returns_get, returns_mapM_lift, returns_pure]
  constructor
  · rintro ⟨_, _, ⟨rfl, rfl⟩, names, _, ⟨hnames, rfl⟩, rfl, rfl⟩
    exact ⟨⟨names, hnames, rfl⟩, rfl⟩
  · rintro ⟨⟨names, hnames, rfl⟩, rfl⟩
    exact ⟨_, _, ⟨rfl, rfl⟩, names, _, ⟨hnames, rfl⟩, rfl, rfl⟩

/-- A call is inlined where the option says so or arguments are added. -/
theorem returns_callWith_inline (h : e.env.options.tablingViaExtraArgs = true ∨ extra ≠ []) :
    Returns (e.callWith p args extra) s g s' ↔
      (∃ fs names, Forall₂ (ArgOf s.vars) (args.zip p.modes) fs ∧
        Forall₂ (fun a name => s.vars.name a.var = .ok name) (fs ++ extra) names ∧
        g = .callForeign (codeOf p fs extra names) ⟨p.determinism, p.purity⟩ e.context) ∧
      s' = s := by
  have hinline : (!e.env.options.tablingViaExtraArgs && extra.isEmpty) = false := by
    simpa [← Bool.not_eq_true, or_iff_not_imp_left] using h
  simp only [callWith, hinline, Bool.false_eq_true, if_false, returns_bind, returns_foreignArgs,
    returns_inlineCode, returns_pure]
  constructor
  · rintro ⟨fs, _, ⟨hfs, rfl⟩, _, _, ⟨⟨names, hnames, rfl⟩, rfl⟩, rfl, rfl⟩
    exact ⟨⟨fs, names, hfs, hnames, rfl⟩, rfl⟩
  · rintro ⟨⟨fs, names, hfs, hnames, rfl⟩, rfl⟩
    exact ⟨fs, _, ⟨hfs, rfl⟩, _, _, ⟨⟨names, hnames, rfl⟩, rfl⟩, rfl, rfl⟩

/-- A primitive is run by a plain call, or by inline code with its arguments in order. -/
theorem callWith_cases (h : Returns (e.callWith p args extra) s g s') : s' = s ∧
      ((e.env.options.tablingViaExtraArgs = false ∧ extra = [] ∧ g = .callProc p.proc p.symName args
        (Goal.outputVars args p.modes) ⟨p.determinism, p.purity⟩ e.context) ∨
      ∃ code, g = .callForeign code ⟨p.determinism, p.purity⟩ e.context ∧ code.callee = p.proc ∧
        code.extraArgs = extra ∧ (args.length = p.modes.length →
          code.args.map (·.var) = args ∧ code.args.map (·.mode) = p.modes)) := by
  by_cases hinline : e.env.options.tablingViaExtraArgs = true ∨ extra ≠ []
  · obtain ⟨⟨fs, names, hfs, -, rfl⟩, rfl⟩ := (returns_callWith_inline hinline).1 h
    exact ⟨rfl, .inr ⟨_, rfl, rfl, rfl, ArgOf.columns hfs⟩⟩
  · obtain ⟨hoption, rfl⟩ : e.env.options.tablingViaExtraArgs = false ∧ extra = [] := by
      simpa using hinline
    rw [callWith, hoption] at h
    obtain ⟨rfl, rfl⟩ := returns_pure.1 h
    exact ⟨rfl, .inl ⟨hoption, rfl, rfl⟩⟩

/-- A primitive is run in the same way by a plain call and by foreign code. -/
theorem returns_callWith (h : Returns (e.callWith p args extra) s g s') :
    s' = s ∧ (args.length = p.modes.length → ∀ {T : Type} (M : Machine T), g.run M =
      M.runPrimitive p (args ++ extra.map (·.var)) (p.modes ++ extra.map (·.mode))) := by
  obtain ⟨rfl, ⟨-, rfl, rfl⟩ | ⟨code, rfl, hc, rfl, hcode⟩⟩ := callWith_cases h
  · refine ⟨rfl, fun _ T M => ?_⟩
    rw [Goal.callProc, run_exposeFree, Goal.run, Machine.runCall, Primitive.ofProc?_proc]
    simp
  · refine ⟨rfl, fun hlen T M => ?_⟩
    rw [Goal.callForeign, run_exposeFree, Goal.run, Machine.runForeign, hc,
      Primitive.ofProc?_proc]
    simp [hcode hlen]

theorem adds_callWith (p : Primitive) (args : List ProgVar) (extra : List ForeignArg) :
    Adds (e.callWith p args extra) := by
  refine ⟨fun h => ?_⟩
  obtain ⟨rfl, -⟩ := returns_callWith h
  exact .refl _

theorem adds_call (p : Primitive) (args : List ProgVar) : Adds (e.call p args) := adds_callWith ..

theorem vars_modes (hin : ins.length = p.signature.inputs.length)
    (hout : outs.length = p.signature.outputs.length) :
    Mode.input.vars (ins ++ outs) p.modes = ins ∧
      Mode.output.vars (ins ++ outs) p.modes = outs := by
  have hmodes : p.modes = ins.map (fun _ => .input) ++ outs.map fun _ => .output := by
    rw [Primitive.modes, map_const', map_const', map_const', map_const', hin,
      hout]
  constructor <;> rw [hmodes, Mode.vars_append (by simp), Mode.vars_const, Mode.vars_const] <;> simp

/-- What is emitted for a primitive runs it. -/
theorem returns_call (ins outs : List ProgVar) (h : Returns (e.call p (ins ++ outs)) s g s')
    (hin : ins.length = p.signature.inputs.length)
    (hout : outs.length = p.signature.outputs.length) : s' = s ∧ g.Calls p ins outs := by
  obtain ⟨hs, hrun⟩ := returns_callWith h
  refine ⟨hs, ⟨fun M σ xs w hb => ?_⟩⟩
  obtain ⟨hi, ho⟩ := vars_modes hin hout
  rw [hrun (by simp [Primitive.modes, hin, hout])]
  simp only [Machine.runPrimitive, map_nil, append_nil, hi, ho, hb.mapM]

@[simp] theorem returns_intVar {value : Int} {r : ProgVar × Goal} :
    Returns (e.intVar name value) s r s' ↔
      r = (s.nextVar, .intConst s.nextVar value e.context) ∧ s' = s.addVar name .int := by
  simp only [intVar, returns_bind, returns_newVar, returns_pure]
  constructor
  · rintro ⟨v, s₁, ⟨rfl, rfl⟩, rfl, rfl⟩
    exact ⟨rfl, rfl⟩
  · rintro ⟨rfl, rfl⟩
    exact ⟨_, _, ⟨rfl, rfl⟩, rfl, rfl⟩

theorem adds_intVar (name : String) (value : Int) : Adds (e.intVar name value) :=
  adds_bind (adds_newVar ..) fun _ => adds_pure _

theorem adds_tableError (problem : String) : Adds (e.tableError problem) :=
  adds_bind (adds_newVar ..) fun _ => adds_bind (adds_call ..) fun _ => adds_pure _

/-! ### Switches on a status -/

theorem symbol_inj {a : Status} (h : a.symbol = b.symbol) : a = b := by
  cases a <;> cases b <;> first | rfl | exact absurd h (by decide)

/-- The arm of a status that is switched on is the one that runs. -/
theorem runArm_of_returns (harm : ∀ status, Adds (arm status)) {statuses : List Status}
    {arms : List (Symbol × Goal)}
    (h : Returns (statuses.mapM fun status => do return (status.symbol, ← arm status)) s arms s')
    (hst : status ∈ statuses) :
    ∃ s₁ s₂ g, s.Extends s₁ ∧ Returns (arm status) s₁ g s₂ ∧
      ∀ {T : Type} (M : Machine T), Goal.runArm M status.symbol arms = g.run M := by
  induction statuses generalizing s arms with
  | nil => cases hst
  | cons first statuses ih =>
    obtain ⟨b, s₁, arms, h₁, h₂, rfl⟩ := returns_mapM_cons.1 h
    simp only [returns_bind, returns_pure] at h₁
    obtain ⟨g, _, h₁, rfl, rfl⟩ := h₁
    by_cases hfirst : first = status
    · subst hfirst
      refine ⟨s, _, g, .refl s, h₁, fun M => ?_⟩
      funext σ w
      rw [runArm_cons, if_pos rfl]
    · have hmem : status ∈ statuses := (mem_cons.1 hst).resolve_left (Ne.symm hfirst)
      obtain ⟨s₂, s₃, g', hs, h₃, hrun⟩ := ih h₂ hmem
      refine ⟨s₂, s₃, g', ((harm first).mono h₁).trans hs, h₃, fun M => ?_⟩
      funext σ w
      rw [runArm_cons, if_neg (mt symbol_inj hfirst), hrun]

/-- A switch on a status runs the arm that was emitted for the status. -/
theorem returns_statusSwitch {type : StatusType} (h : Returns (e.statusSwitch type v arm) s g s')
    (harm : ∀ status, Adds (arm status)) (hst : status ∈ type.statuses) :
    ∃ s₁ s₂ g', s.Extends s₁ ∧ Returns (arm status) s₁ g' s₂ ∧
      ∀ {T : Type} (M : Machine T) {σ : Store} (w : World T), σ v = some status.value →
        g.run M σ w = g'.run M σ w := by
  simp only [statusSwitch, returns_bind, returns_pure] at h
  obtain ⟨arms, s₁, h₁, rfl, rfl⟩ := h
  obtain ⟨s₂, s₃, g', hs, h₂, hrun⟩ := runArm_of_returns harm h₁ hst
  refine ⟨s₂, s₃, g', hs, h₂, fun M σ w hv => ?_⟩
  rw [run_switchOn, ← hrun M]
  simp only [hv, Status.value]

/-- A table error stops the program with its message. -/
theorem returns_tableError (h : Returns (e.tableError problem) s g s') {T : Type} {R : Runtime T}
    (hR : R.GivesUp) (σ : Store) (w : World T) :
    ∃ w', g.run R.machine σ w =
      .abort (some (.ofString (problem ++ " in " ++ e.pred.describe))) w' := by
  simp only [tableError, returns_bind, returns_newVar, returns_pure] at h
  obtain ⟨v, s₁, ⟨rfl, rfl⟩, c, s₂, h₂, rfl, rfl⟩ := h
  obtain ⟨-, hcall⟩ := returns_call [s.nextVar] [] h₂ rfl rfl
  obtain ⟨t', ht⟩ := hR (.ofString (problem ++ " in " ++ e.pred.describe)) w.tables
  refine ⟨⟨t', w.trace⟩, ?_⟩
  rw [run_conjoin, runAll_cons, Goal.stringConst, run_construct]
  simp only [Machine.runUnify, mapM_nil, Option.pure_def, Outcome.once_bind,
    runAll_single]
  rw [hcall.run_eq R.machine w (.cons (Store.set_self ..) .nil)]
  simp only [Value.ofString] at ht
  rw [ht]
  rfl

theorem adds_tabledArgs (first : Nat) (vars : List ProgVar) : Adds (tabledArgs first vars) :=
  adds_mapM (fun _ => adds_bind (adds_varType _) fun _ => adds_pure _) _

end TableEnv

end Clausal
