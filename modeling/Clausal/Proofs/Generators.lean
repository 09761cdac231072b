import Clausal.Proofs.Erasure
import Clausal.Proofs.Quantification

/-!
# Consumers and generators

A procedure that is tabled on stacks of its own is cut in two. Its own body
becomes that of a consumer, which leaves the inputs and a closure to the
runtime and takes answers from it. The body that it had goes to a generator, a
new predicate that picks the inputs up and finds the answers. What fits the one
to the other is decided in different places: the number of the generator is
written into the closure before the predicate is added.
-/

namespace Clausal

open List WitnessState

variable {body g : Goal} {context : Context} {args vars : List ProgVar} {next : String}
  {strictness : Strictness} {e : TableEnv} {s s' : WitnessState} {n : Nat}

/-! ### Code around a body -/

namespace Goal

/-- The goals are the same code. How conjunctions are nested does not count, and
    of what is known of goals only the contexts do. -/
def SameCode (g g' : Goal) : Prop := g.row (fun _ => false) = g'.row fun _ => false

/-- The goal that a promise is about. -/
def inPromise : Goal → Goal
  | .scope _ (.promise _) g => g
  | g => g

/-- The goal runs a primitive on its arguments, and on others that are given
    with their modes. -/
inductive RunsPrimitive (p : Primitive) (args : List ProgVar) (extra : List (ProgVar × Mode)) :
    Goal → Prop
  | call {i : GoalInfo} (no_extra : extra = []) :
      RunsPrimitive p args extra (.call i p.proc p.symName args)
  | foreign {i : GoalInfo} {code : ForeignCode} (callee : code.callee = p.proc)
      (vars : code.args.map (·.var) = args)
      (extraVars : code.extraArgs.map (fun a => (a.var, a.mode)) = extra) :
      RunsPrimitive p args extra (.foreign i code)

/-- Code that is put around a body whose variables are below `n`: the run of a
    primitive or the construction of a value, with a variable of its own. An
    output whose type has one value only may be made anew. -/
inductive TableCode (n : Nat) (outputs : List ProgVar) : Goal → Prop
  | run {p : Primitive} {args : List ProgVar} {g : Goal} (runs : g.RunsPrimitive p args [])
      (new : ∃ v ∈ args, n ≤ v.index) : TableCode n outputs g
  | build {v : ProgVar} {f : Symbol} {args : List ProgVar} {context : Context} (new : n ≤ v.index)
      (symbol : f.isClosure = false) : TableCode n outputs (.construct v f args context)
  | remake {v : ProgVar} {name : SymName} {context : Context} (output : v ∈ outputs) :
      TableCode n outputs (.construct v (.cons name 0) [] context)

variable {p : Primitive} {extra : List (ProgVar × Mode)}

theorem RunsPrimitive.conjuncts (h : g.RunsPrimitive p args extra) : g.conjuncts = [g] := by
  rcases h with _ | _ <;> rfl

theorem conjuncts_construct (v : ProgVar) (f : Symbol) (args : List ProgVar) (context : Context) :
    (construct v f args context).conjuncts = [construct v f args context] := rfl

theorem row_disjoin (new : ProgVar → Bool) (g : Goal) (gs : List Goal) (context : Context) :
    (disjoin (g :: gs) context).row new =
      [.node (.disj (GoalInfo.bare { context }) []) (rows new (g :: gs))] := by
  rw [disjoin, if_neg (by simp), exposeFree, row_setNonlocals, row, GoalInfo.bare]
  have hcontext : ∀ (i : GoalInfo) branches, (setBranches i branches).context = i.context := by
    intro i branches
    unfold setBranches
    split <;> rfl
  rw [hcontext]
  rfl

theorem sameCode_tabledBody (e : TableEnv) (purity : Purity) (head : List ProgVar)
    (hbody : body = conjoin gs context) (h : 2 ≤ (gs.flatMap Goal.conjuncts).length) :
    (Module.tabledBody e purity head body).inPromise.SameCode (.conj {} .plain gs) := by
  subst hbody
  have hcode : ((conjoin gs context).requantify (.ofList head)).SameCode (.conj {} .plain gs) := by
    rw [SameCode, row_requantify, row_conjoin, row]
  have hconj : ∃ i gs', conjoin gs context = .conj i .plain gs' := by
    unfold conjoin
    split
    · next hone =>
      rw [hone] at h
      exact absurd h (by simp)
    · exact ⟨_, _, rfl⟩
  obtain ⟨i, gs', hi⟩ := hconj
  unfold Module.tabledBody TableEnv.promised
  split
  · rw [Module.within_promise]
    exact hcode
  · rw [hi] at hcode ⊢
    exact hcode

end Goal

namespace Goal

/-- All goals are code that is put around a body. -/
def AllTableCode (n : Nat) (outputs : List ProgVar) (gs : List Goal) : Prop :=
  ∀ g ∈ gs, g.TableCode n outputs

end Goal

namespace TableEnv

open Synth Goal

variable {p : Primitive} {outputs : List ProgVar} {many : Bool} {gs : List Goal}

theorem returns_callWith_runs {extra : List ForeignArg}
    (h : Returns (e.callWith p args extra) s g s') (hlen : args.length = p.modes.length) :
    g.RunsPrimitive p args (extra.map fun a => (a.var, a.mode)) := by
  obtain ⟨-, ⟨-, rfl, rfl⟩ | ⟨code, rfl, hcallee, rfl, hcode⟩⟩ := callWith_cases h
  · exact .call rfl
  · exact .foreign hcallee (hcode hlen).1 rfl

theorem Step.tableCode (h : e.Step n outputs many g) : g.TableCode n outputs := by
  cases h with
  | run hcall hlen _ _ hnew => exact .run (returns_callWith_runs hcall hlen) hnew
  | access _ hr => exact .run (.call rfl) ⟨_, by simp, hr⟩
  | @build _ f _ _ hv hsymbol =>
    refine .build hv ?_
    cases f with
    | closure r => exact (hsymbol r rfl).2
    | _ => rfl
  | remake hv => exact .remake hv

theorem Steps.allTableCode (h : e.Steps n outputs many gs) : AllTableCode n outputs gs :=
  h.imp fun _ => Step.tableCode

end TableEnv

/-! ### The two parts of a procedure -/

namespace Goal

/-- The code of a consumer: it finds the place of the call, leaves the inputs and
    a closure of the generator, and takes answers. -/
def ConsumesFrom (g : Goal) (generator : ProcRef) (n : Nat) (inputs outputs : List ProgVar) :
    Prop :=
  ∃ lookups save name text closure tip consumer setup answers context,
    g.inPromise.SameCode (.conj {} .plain (lookups ++
      ([save, .stringConst name text context, .construct closure (.closure generator) [] context,
        setup] ++ answers))) ∧
    save.RunsPrimitive .generatorSaveInputs [] (inputs.map (·, .input)) ∧
    setup.RunsPrimitive .generatorSetupConsumer [tip, closure, name, consumer] [] ∧
    (∀ v ∈ [name, closure, consumer], n ≤ v.index) ∧ AllTableCode n outputs (lookups ++ answers)

/-- The code of a generator: it picks the inputs up, keeps the answers of the
    body, and is completed behind the last of them. -/
def GeneratesFrom (g body : Goal) (n : Nat) (inputs outputs : List ProgVar) : Prop :=
  ∃ pickup owner saves completion info,
    g.inPromise.SameCode (.conj {} .plain
      [pickup, .disj info [.conj {} .plain (body :: saves), completion]]) ∧
    pickup.RunsPrimitive .generatorPickupInputs [owner] (inputs.map (·, .output)) ∧
    completion.RunsPrimitive .generatorCompletion [owner] [] ∧ n ≤ owner.index ∧
    AllTableCode n outputs saves

end Goal

namespace TableEnv

open Synth Goal

variable {head : TabledHead}

theorem map_foreignArgs {inputs : List ProgVar} {mode : Mode} {fs : List ForeignArg}
    (h : Returns (inputs.mapM (foreignArg · mode)) s fs s') :
    fs.map (fun a => (a.var, a.mode)) = inputs.map (·, mode) := by
  obtain ⟨-, hvars, hmodes⟩ := returns_foreignArgs_of_mode h
  have hpairs : inputs.map (·, mode) = (inputs.map id).zip (inputs.map fun _ => mode) :=
    zip_map'.symm
  rw [← zip_map', hvars, hmodes, hpairs, map_id]

theorem generator_generates (e' : TableEnv) (purity : Purity) (vars : List ProgVar)
    {gen : Generator} (h : Returns (e.generator body head) s gen s')
    (hn : n ≤ s.vars.size) : gen.outputs = head.outputs ∧
      (Module.tabledBody e' purity vars gen.body).GeneratesFrom body n head.inputs
        head.outputs := by
  simp only [generator, returns_bind, returns_newHandle, returns_pure] at h
  obtain ⟨_, _, ⟨rfl, rfl⟩, inputs, s₁, hinputs, pickup, s₂, hpickup, ⟨block, answer⟩, s₃, hanswer,
    answered, s₄, hanswered, completion, s₅, hcompletion, rfl, -⟩ := h
  obtain ⟨rfl, -⟩ := returns_foreignArgs_of_mode hinputs
  obtain ⟨rfl, -⟩ := returns_callWith hpickup
  have hnew : n ≤ (s.addVar "Generator" Handle.generator.type).vars.size :=
    Nat.le_trans hn (WitnessState.Extends.addVar ..).size_le
  obtain ⟨-, -, code, rfl, hcode, -⟩ :=
    (newAnswer_writes ⟨rfl, rfl⟩ ⟨rfl, rfl⟩ ⟨rfl, rfl⟩).of_returns hanswer hnew
  have hpick := returns_callWith_runs hpickup rfl
  rw [map_foreignArgs hinputs] at hpick
  refine ⟨rfl, pickup, s.nextVar, code ++ [answered], completion, { context := e.context }, ?_,
    hpick, returns_callWith_runs hcompletion rfl, hn,
    Steps.allTableCode (hcode.append (.single (.run hanswered rfl (by simp) (by decide)
      ⟨s.nextVar, by simp, hn⟩)))⟩
  refine (sameCode_tabledBody e' purity vars rfl ?_).trans ?_
  · rw [flatMap_cons, hpick.conjuncts]
    exact Nat.le_refl 2
  · simp only [row, rows, row_disjoin, row_conjoin, cons_append]

theorem ownStacks_parts (e' : TableEnv) (purity : Purity) (vars : List ProgVar) {tabled : Tabled}
    (h : Returns (e.ownStacks body head strictness) s tabled s') (hn : n ≤ s.vars.size) :
    (Module.tabledBody e' purity vars tabled.body).ConsumesFrom ⟨e.env.nextPred, ⟨0⟩⟩ n head.inputs
        head.outputs ∧
      ∃ gen, tabled.generator = some gen ∧ gen.outputs = head.outputs ∧
        (Module.tabledBody e' purity gen.outputs gen.body).GeneratesFrom body n head.inputs
          head.outputs := by
  simp only [ownStacks, returns_bind, returns_newVar, returns_newHandle, returns_pure] at h
  obtain ⟨way, s₁, hway, inputs, s₂, hinputs, save, s₃, hsave, _, _, ⟨rfl, rfl⟩, _, _, ⟨rfl, rfl⟩,
    _, _, ⟨rfl, rfl⟩, setup, s₄, hsetup, answers, s₅, hanswers, gen, s₆, hgen, tabled', s₇, htabled,
    rfl, -⟩ := h
  obtain ⟨rfl, -⟩ := returns_foreignArgs_of_mode hinputs
  obtain ⟨rfl, -⟩ := returns_callWith hsave
  obtain ⟨rfl, -⟩ := returns_callWith hsetup
  have hsave' := returns_callWith_runs hsave rfl
  rw [map_foreignArgs hinputs] at hsave'
  have hn₁ : n ≤ s₃.vars.size := Nat.le_trans hn (adds_lookup.mono hway).size_le
  have hvars : s₃.Extends _ := ((WitnessState.Extends.addVar s₃ "Name" .string).trans
    (.addVar _ "GeneratorClosure" (.higherOrder .predicate []))).trans
      (.addVar _ "Consumer" Handle.consumer.type)
  have hn₂ := Nat.le_trans hn₁ hvars.size_le
  have hlookups : e.Steps n head.outputs true way.goals := (lookup_writes.of_returns hway hn).2.2
  obtain ⟨hs₅, hanswers'⟩ : _ ∧ Binding (e.Step n head.outputs true) head.outputs answers :=
    (restoreAnswer_writes rfl (by simp) (by decide)).of_returns hanswers hn₂
  obtain ⟨houtputs, hgenerates⟩ := generator_generates e' purity gen.outputs hgen
    (Nat.le_trans hn₂ hs₅.size_le)
  refine ⟨?_, gen, rfl, houtputs, hgenerates⟩
  obtain ⟨hbody, -, -⟩ := returns_tabledBy htabled
  refine ⟨way.goals, save, _, _, _, _, _, setup, answers, e.context,
    sameCode_tabledBody e' purity vars hbody ?_, hsave', returns_callWith_runs hsetup rfl,
    fun v hv => ?_, Steps.allTableCode (hlookups.append hanswers'.all)⟩
  · simp only [flatMap_append, flatMap_cons, hsave'.conjuncts, stringConst,
      conjuncts_construct, length_append, length_singleton]
    omega
  · simp only [mem_cons, not_mem_nil, or_false] at hv
    rcases hv with rfl | rfl | rfl
    · exact hn₁
    · rw [nextVar_addVar]
      exact Nat.le_succ_of_le hn₁
    · rw [nextVar_addVar, size_addVar]
      exact Nat.le_succ_of_le (Nat.le_succ_of_le hn₁)

theorem adds_ownStacks : Adds (e.ownStacks body head strictness) := by
  have h : Writes 0 (fun t => e.Shape 0 head.outputs body True .consume t.body t.generator)
      (e.ownStacks body head strictness) := ownStacks_writes
  exact ⟨fun hr => (h.of_returns hr (Nat.zero_le _)).1⟩

end TableEnv

/-! ### Consumers and generators in a module -/

/-- The procedure is tabled on stacks of its own. -/
def Procedure.OwnStacks (p : Procedure) : Prop :=
  ∃ strictness, p.method = .minimalModel .ownStacks strictness

namespace Module

open Synth

variable {m m' env : Module} {r : ProcRef} {proc : Procedure}

/-- A predicate that was added is the generator of a procedure, and the procedure
    has become its consumer. -/
structure Paired (m m' : Module) (r : ProcRef) (proc : Procedure) (i : PredId) : Prop where
  added : m.preds.size ≤ i.index
  consumer : ∃ proc', m'.procAt? r = some proc' ∧
    proc'.body.ConsumesFrom ⟨i, ⟨0⟩⟩ proc.vars.size (proc.headOf .input) (proc.headOf .output)
  generator : ∃ pred gen, m'.findPred? i = some pred ∧ pred.origin = .tabling ∧
    pred.procs = #[gen] ∧ gen.determinism = .nondet ∧ gen.head = proc.headOf .output ∧
    gen.modes = gen.head.map (fun _ => .output) ∧ proc.vars.Extends gen.vars ∧
    gen.vars.types gen.head = .ok pred.argTypes ∧
    gen.body.GeneratesFrom proc.body proc.vars.size (proc.headOf .input) (proc.headOf .output)

theorem generatorPred_spec {purity : Purity} {g : Generator} {pred : Predicate}
    (h : m.generatorPred e purity s g = .ok pred) : pred.origin = .tabling ∧
      pred.procs = #[generatorProc e purity s g] ∧ s.vars.types g.outputs = .ok pred.argTypes := by
  simp only [generatorPred, derivedPred, except_bind_eq_ok] at h
  obtain ⟨_, ⟨types, htypes, heq⟩, heq'⟩ := h
  cases heq
  cases heq'
  exact ⟨rfl, rfl, htypes⟩

/-- A procedure with stacks of its own is paired with the generator that is added. -/
theorem Tables.paired {proc' : Procedure} {added : Option Predicate}
    (h : Tables env r proc proc' added) (hown : proc.OwnStacks) (hgrows : m.Grows env)
    (hplace : m'.procAt? r = some proc')
    (hadded : ∀ p, added = some p → m'.findPred? env.nextPred = some p) :
    added.isSome ∧ Paired m m' r proc env.nextPred := by
  obtain ⟨strictness, hmethod⟩ := hown
  rcases h with ⟨hnormal, -⟩ | ⟨pred, tabled, s, htabled, rfl⟩
  · rw [hmethod] at hnormal
    cases hnormal
  have hreturns := htabled.returns
  simp only [TableEnv.tabled, hmethod, returns_bind, returns_pure, Option.some.injEq] at hreturns
  obtain ⟨_, _, hreturns, rfl, rfl⟩ := hreturns
  obtain ⟨hconsumes, g, hg, houtputs, hgenerates⟩ := TableEnv.ownStacks_parts
    (env.tableEnv r pred proc) proc.body.info.purity proc.head hreturns (Nat.le_refl _)
  have hgen := htabled.generator
  rw [hg, Option.mapM_some] at hgen
  obtain ⟨gen, hok, heq⟩ := except_bind_eq_ok.1 hgen
  cases heq
  obtain ⟨horigin, hprocs, htypes⟩ := generatorPred_spec hok
  exact ⟨rfl, hgrows.size_le, ⟨_, hplace, hconsumes⟩, gen, _, hadded gen rfl, horigin, hprocs, rfl,
    houtputs, rfl, (TableEnv.adds_ownStacks.mono hreturns).vars, htypes, hgenerates⟩

theorem not_ownStacks_of_refused (h : Reworks Refuses m m.tabledProcs m')
    (hproc : m'.procAt? r = some proc) : ¬ proc.OwnStacks := by
  rintro ⟨strictness, hmethod⟩
  by_cases hlt : r.pred.index < m.preds.size
  · by_cases hmem : r ∈ m.tabledProcs
    · obtain ⟨env, old, new, added, -, -, -, ⟨rfl, -⟩, hplace, -⟩ := h.changed r hmem
      obtain rfl : proc = _ := Option.some.inj (hproc.symm.trans hplace)
      cases hmethod
    · rw [h.others r hmem hlt] at hproc
      exact hmem (mem_tabledProcs.2 ⟨proc, hproc, by rw [hmethod]; simp⟩)
  · obtain ⟨r', -, env, old, new, p, -, -, -, ⟨-, hnone⟩, -⟩ :=
      h.new r proc (Nat.not_lt.1 hlt) hproc
    cases hnone

/-- In a tabled module every procedure that is tabled on stacks of its own has a
    generator of its own. The consumer names it, leaves the inputs that it picks
    up, and has nothing of the body; the generator has all of it. -/
theorem consumers_match_generators (h : m.table = .ok m') :
    (m.options.tablingRefused?.isSome ∧
      ∀ r proc', m'.procAt? r = some proc' → ¬ proc'.OwnStacks) ∨
    ∃ generator : ProcRef → PredId,
      (∀ r proc, m.procAt? r = some proc → proc.OwnStacks → Paired m m' r proc (generator r)) ∧
      ∀ r proc r' proc', m.procAt? r = some proc → proc.OwnStacks → m.procAt? r' = some proc' →
        proc'.OwnStacks → generator r = generator r' → r = r' := by
  rcases table_cases h with ⟨hrefused, hre⟩ | ⟨hsupported, -⟩
  · exact .inl ⟨hrefused, fun r proc' hproc => not_ownStacks_of_refused hre hproc⟩
  obtain ⟨m₀, h₀, hfold⟩ := foldlM_of_table h hsupported
  obtain ⟨env, added, hall, hinj⟩ := foldlM_added tableProc_cases hfold (nodup_tabledProcs m₀)
    fun r => lt_of_mem_tabledProcs
  -- Choosing actions leaves procedures alone that are tabled otherwise.
  have hmem : ∀ {r proc}, m.procAt? r = some proc → proc.OwnStacks →
      m₀.procAt? r = some proc ∧ r ∈ m₀.tabledProcs := by
    rintro r proc hproc ⟨strictness, hmethod⟩
    have hne : proc.method ≠ .normal := by
      rw [hmethod]
      simp
    have hproc₀ := procAt?_readied h₀ hproc hne
    exact ⟨hproc₀, mem_tabledProcs.2 ⟨proc, hproc₀, hne⟩⟩
  have hpaired : ∀ {r proc}, m.procAt? r = some proc → proc.OwnStacks →
      (added r).isSome ∧ Paired m m' r proc (env r).nextPred := by
    intro r proc hproc hown
    obtain ⟨hproc₀, hr⟩ := hmem hproc hown
    obtain ⟨hgrows, old, new, hold, htables, hplace, hadded⟩ := hall r hr
    obtain rfl : proc = old := Option.some.inj (hproc₀.symm.trans hold)
    exact htables.paired hown ((Grows.of_readied h₀).trans hgrows) hplace hadded
  refine .inr ⟨fun r => (env r).nextPred, fun r proc hproc hown => (hpaired hproc hown).2,
    fun r proc r' proc' hproc hown hproc' hown' heq => ?_⟩
  exact hinj r (hmem hproc hown).2 r' (hmem hproc' hown').2 (hpaired hproc hown).1
    (hpaired hproc' hown').1 heq

end Module

/-! ### An example -/

namespace TabledExample

/-- Two procedures that are tabled on stacks of their own, with one between them
    that is memoed. -/
def copiesModule : Module :=
  let decl (name : String) (method : EvalMethod) : PredDecl :=
    { name
      args := [.input "X" .int, .output "Y" .int]
      determinism := .nondet
      method }
  let body (m : Module) : Goal := .assign ⟨1⟩ ⟨0⟩ (m.context 1)
  let add (m : Module) (d : PredDecl) : Module := m.declare d (body m)
  add (add (add (Module.start "m") (decl "first" (.minimalModel .ownStacks .allStrict)))
    (decl "kept" (.memo .allStrict))) (decl "second" (.minimalModel .ownStacks .allStrict))

def secondCopy : ProcRef := ⟨⟨Primitive.all.length + 2⟩, ⟨0⟩⟩

theorem copies_ownStacks (r : ProcRef) (h : r = tabledProc ∨ r = secondCopy) :
    ∃ proc, copiesModule.procAt? r = some proc ∧ proc.OwnStacks := by
  have hmethod : (copiesModule.procAt? r).any
      (fun p => p.method = .minimalModel .ownStacks .allStrict) = true := by
    rcases h with rfl | rfl <;> decide +kernel
  obtain ⟨hsome, hmethod⟩ := (Option.any_eq_true_iff_get _ _).1 hmethod
  exact ⟨_, (Option.some_get hsome).symm, .allStrict, of_decide_eq_true hmethod⟩

/-- Both procedures are consumers, each of a generator of its own. -/
theorem copies_have_generators : ∃ (m' : Module) (proc proc' : Procedure) (i j : PredId),
    copiesModule.table = .ok m' ∧ copiesModule.procAt? tabledProc = some proc ∧
    copiesModule.procAt? secondCopy = some proc' ∧
    Module.Paired copiesModule m' tabledProc proc i ∧
    Module.Paired copiesModule m' secondCopy proc' j ∧ i ≠ j := by
  obtain ⟨m', hm', -⟩ := Module.exists_of_toOption (x := copiesModule.table) (q := fun _ => true)
    (by decide +kernel)
  obtain ⟨proc, hproc, hown⟩ := copies_ownStacks tabledProc (.inl rfl)
  obtain ⟨proc', hproc', hown'⟩ := copies_ownStacks secondCopy (.inr rfl)
  rcases Module.consumers_match_generators hm' with ⟨hrefused, -⟩ | ⟨generator, hpaired, hinj⟩
  · exact absurd hrefused (by decide)
  · refine ⟨m', proc, proc', generator tabledProc, generator secondCopy, hm', hproc, hproc',
      hpaired _ _ hproc hown, hpaired _ _ hproc' hown', fun heq => ?_⟩
    have := hinj _ _ _ _ hproc hown hproc' hown' heq
    revert this
    decide

end TabledExample

end Clausal
